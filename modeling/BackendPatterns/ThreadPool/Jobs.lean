import Mathlib.Tactic.Abel
import BackendPatterns.ThreadPool.WakeUp

/-! # Where the jobs of the thread pool are

A task id passes from the queue to one worker's hands, from there into one call
of its callable, and from there into its shared state. Each passage moves the id
between multisets whose sum is kept, and the accepted ids are distinct. -/

namespace BackendPatterns.ThreadPool
open BackendPatterns.Lib BackendPatterns.Lib.CondVar BackendPatterns.Lib.Threads

variable {n : Nat} {S : Type} {J : Jobs}

/-! ## What the log says -/

/-- The tasks in the order their submits pushed them. -/
def accepted (l : List (Event n J)) : List Nat := l.filterMap fun e => match e with
  | .accept id => some id
  | _ => none

/-- The tasks in the order workers moved them out of the queue. -/
def dequeued (l : List (Event n J)) : List Nat := l.filterMap fun e => match e with
  | .dequeue _ id => some id
  | _ => none

def invoked (l : List (Event n J)) : List Nat := l.filterMap fun e => match e with
  | .invoke _ id => some id
  | _ => none

def finished (l : List (Event n J)) : List Nat := l.filterMap fun e => match e with
  | .finish _ id _ => some id
  | _ => none

@[simp] theorem accepted_append (l l' : List (Event n J)) :
    accepted (l ++ l') = accepted l ++ accepted l' := List.filterMap_append

@[simp] theorem dequeued_append (l l' : List (Event n J)) :
    dequeued (l ++ l') = dequeued l ++ dequeued l' := List.filterMap_append

@[simp] theorem invoked_append (l l' : List (Event n J)) :
    invoked (l ++ l') = invoked l ++ invoked l' := List.filterMap_append

@[simp] theorem finished_append (l l' : List (Event n J)) :
    finished (l ++ l') = finished l ++ finished l' := List.filterMap_append

theorem mem_finished {l : List (Event n J)} {id : Nat} :
    id ∈ finished l ↔ ∃ w outcome, .finish w id outcome ∈ l := by
  unfold finished
  rw [List.mem_filterMap]
  constructor
  · intro h
    obtain ⟨e, he, hid⟩ := h
    cases e with
    | finish w id' outcome => cases hid; exact ⟨w, outcome, he⟩
    | _ => cases hid
  · intro h
    obtain ⟨w, outcome, he⟩ := h
    exact ⟨_, he, rfl⟩

/-! ## Ids -/

/-- Task ids are handed out once: no two submits carry the same one, and none
carries one that is already in the queue or beyond. -/
structure Ids (s : Pool n S J) : Prop where
  entry_lt : ∀ c id, s.submits c = .entry id → id < s.tasks.length
  entry_new : ∀ c id, s.submits c = .entry id → id ∉ accepted s.log
  entry_inj : ∀ c c' id, s.submits c = .entry id → s.submits c' = .entry id → c = c'
  lt : ∀ id ∈ accepted s.log, id < s.tasks.length
  nodup : (accepted s.log).Nodup

/-- A step that neither makes nor accepts a task. -/
theorem Ids.frame {s t : Pool n S J} (h : Ids s)
    (hs : ∀ c id, t.submits c = .entry id → s.submits c = .entry id)
    (ht : t.tasks = s.tasks) (hl : accepted t.log = accepted s.log) : Ids t := by
  refine ⟨?_, ?_, ?_, by rw [hl, ht]; exact h.lt, by rw [hl]; exact h.nodup⟩
  · intro c id hc
    rw [ht]
    exact h.entry_lt c id (hs c id hc)
  · intro c id hc
    rw [hl]
    exact h.entry_new c id (hs c id hc)
  · intro c c' id hc hc'
    exact h.entry_inj c c' id (hs c id hc) (hs c' id hc')

variable [DecidableEq S]

theorem entry_of_update {f : Caller n S → SubmitPc} {c c' : Caller n S} {p : SubmitPc} {id : Nat}
    (hp : ∀ id, p ≠ .entry id) (h : Function.update f c p c' = .entry id) : f c' = .entry id :=
  of_update h (hp id)

theorem Ids.makeTask {s : Pool n S J} (h : Ids s) (c : Caller n S) (fn : J.Fn) (args : J.Args) :
    Ids (s.makeTask c fn args) := by
  have hcases : ∀ {c' id}, (s.makeTask c fn args).submits c' = .entry id →
      (c' = c ∧ id = s.tasks.length) ∨ s.submits c' = .entry id := by
    intro c' id hc
    by_cases hcc : c' = c
    · subst hcc
      simp only [Pool.makeTask, Function.update_self, SubmitPc.entry.injEq] at hc
      exact .inl ⟨rfl, hc.symm⟩
    · simp only [Pool.makeTask, Function.update_of_ne hcc] at hc
      exact .inr hc
  have hlen : (s.makeTask c fn args).tasks.length = s.tasks.length + 1 := by simp [Pool.makeTask]
  refine ⟨?_, ?_, ?_, ?_, h.nodup⟩
  · intro c' id hc
    rw [hlen]
    obtain ⟨-, rfl⟩ | hc := hcases hc
    · exact Nat.lt_succ_self _
    · exact Nat.lt_succ_of_lt (h.entry_lt c' id hc)
  · intro c' id hc hmem
    obtain ⟨-, rfl⟩ | hc := hcases hc
    · exact Nat.lt_irrefl _ (h.lt _ hmem)
    · exact h.entry_new c' id hc hmem
  · intro c₁ c₂ id h₁ h₂
    obtain ⟨rfl, hid⟩ | h₁ := hcases h₁
    · obtain ⟨rfl, -⟩ | h₂ := hcases h₂
      · rfl
      · exact absurd (h.entry_lt c₂ id h₂) (by omega)
    · obtain ⟨-, hid⟩ | h₂ := hcases h₂
      · exact absurd (h.entry_lt c₁ id h₁) (by omega)
      · exact h.entry_inj c₁ c₂ id h₁ h₂
  · intro id hmem
    rw [hlen]
    exact Nat.lt_succ_of_lt (h.lt id hmem)

theorem Ids.step {s t : Pool n S J} {a : Action n S J} (h : Ids s) (hs : step s a = some t) :
    Ids t := by
  cases step_cases hs with
  | call => exact h.makeTask _ _ _
  | refused => exact h.frame (fun _ _ => entry_of_update (by simp)) rfl (by simp [accepted])
  | @accepted c id hc hstop =>
    refine ⟨fun c' id' hc' => h.entry_lt c' id' (entry_of_update (by simp) hc'), ?_,
      fun c₁ c₂ id' h₁ h₂ => h.entry_inj c₁ c₂ id' (entry_of_update (by simp) h₁)
        (entry_of_update (by simp) h₂), ?_, ?_⟩
    · intro c' id' hc' hmem
      have hne : c' ≠ c := fun he => by simp [he] at hc'
      have hold := entry_of_update (by simp) hc'
      rw [accepted_append, List.mem_append] at hmem
      rcases hmem with hmem | hmem
      · exact h.entry_new c' id' hold hmem
      · have hid : id' = id := by simpa [accepted] using hmem
        subst hid
        exact hne (h.entry_inj c' c id' hold hc)
    · intro id' hmem
      rw [accepted_append, List.mem_append] at hmem
      rcases hmem with hmem | hmem
      · exact h.lt id' hmem
      · have hid : id' = id := by simpa [accepted] using hmem
        subst hid
        exact h.entry_lt c id' hc
    · rw [accepted_append]
      refine List.nodup_append.mpr ⟨h.nodup, by simp [accepted], ?_⟩
      intro x hx y hy hxy
      have hy' : y = id := by simpa [accepted] using hy
      exact h.entry_new c id hc (by rw [← hy', ← hxy]; exact hx)
  | notify => exact h.frame (fun _ _ => entry_of_update (by simp)) rfl rfl
  | ret => exact h.frame (fun _ _ => entry_of_update (by simp)) rfl rfl
  | dequeue => exact h.frame (fun _ _ => id) rfl (by simp [accepted])
  | invoke => exact h.frame (fun _ _ => id) rfl (by simp [accepted])
  | finish => exact h.frame (fun _ _ => id) rfl (by simp [accepted, Pool.finish])
  | submit =>
    refine Ids.makeTask ?_ _ _ _
    exact h.frame (fun _ _ => id) rfl rfl
  | resume => exact h.frame (fun _ _ => entry_of_update (by simp)) rfl rfl
  | _ => exact h.frame (fun _ _ => id) rfl rfl

theorem reachable_ids {s₀ s : Pool n S J} (h0 : make n S J = .ok s₀)
    (h : Machine.Reachable step s₀ s) : Ids s := by
  refine h.invariant ?_ fun _ ih hs => ih.step hs
  obtain ⟨-, rfl⟩ := make_eq_ok h0
  exact ⟨nofun, nofun, nofun, nofun, List.nodup_nil⟩

/-! ## From the queue to the shared state -/

/-- The job a worker has moved out and not called yet. -/
def held : WorkerPc J → Multiset Nat
  | .holding id => {id}
  | _ => 0

/-- The job whose callable a worker is running. -/
def active : WorkerPc J → Multiset Nat
  | .running id _ | .submitting id _ => {id}
  | _ => 0

structure Accounts (s : Pool n S J) : Prop where
  order : accepted s.log = dequeued s.log ++ s.queue
  taken : (dequeued s.log : Multiset Nat) = invoked s.log + ∑ w, held (s.workers w)
  called : (invoked s.log : Multiset Nat) = finished s.log + ∑ w, active (s.workers w)

omit [DecidableEq S]

/-- The log grows by `l`: what left one place arrived in the next. -/
theorem Accounts.log {s t : Pool n S J} (h : Accounts s) {l : List (Event n J)}
    (hl : t.log = s.log ++ l) (hq : s.queue ++ accepted l = dequeued l ++ t.queue)
    (hd : (dequeued l : Multiset Nat) + ∑ w, held (s.workers w) =
      invoked l + ∑ w, held (t.workers w))
    (hi : (invoked l : Multiset Nat) + ∑ w, active (s.workers w) =
      finished l + ∑ w, active (t.workers w)) : Accounts t := by
  refine ⟨?_, ?_, ?_⟩
  · rw [hl, accepted_append, dequeued_append, h.order, List.append_assoc, hq, List.append_assoc]
  · rw [hl, dequeued_append, invoked_append, ← Multiset.coe_add, ← Multiset.coe_add, h.taken,
      add_assoc, add_comm (∑ w, held (s.workers w)), hd, add_assoc]
  · rw [hl, invoked_append, finished_append, ← Multiset.coe_add, ← Multiset.coe_add, h.called,
      add_assoc, add_comm (∑ w, active (s.workers w)), hi, add_assoc]

/-- A step that moves no job. -/
theorem Accounts.frame {s t : Pool n S J} (h : Accounts s) {l : List (Event n J)}
    (hl : t.log = s.log ++ l) (hq : s.queue ++ accepted l = t.queue)
    (hd : dequeued l = []) (hi : invoked l = []) (hf : finished l = [])
    (hw : ∀ w, held (t.workers w) = held (s.workers w) ∧
      active (t.workers w) = active (s.workers w)) : Accounts t := by
  refine h.log hl (by rw [hd, List.nil_append]; exact hq) ?_ ?_
  · rw [hd, hi, Finset.sum_congr rfl fun w _ => (hw w).1]
  · rw [hi, hf, Finset.sum_congr rfl fun w _ => (hw w).2]

/-- Worker `w` moves: the log tells where its job went. -/
theorem Accounts.worker {s t : Pool n S J} (h : Accounts s) {w : Fin n} {p : WorkerPc J}
    {l : List (Event n J)} (hw : t.workers = Function.update s.workers w p)
    (hl : t.log = s.log ++ l) (hq : s.queue ++ accepted l = dequeued l ++ t.queue)
    (hd : (dequeued l : Multiset Nat) + held (s.workers w) = invoked l + held p)
    (hi : (invoked l : Multiset Nat) + active (s.workers w) = finished l + active p) :
    Accounts t := by
  have hheld := sum_update held s.workers w p
  have hactive := sum_update active s.workers w p
  refine h.log hl hq ?_ ?_
  · rw [hw]
    refine add_right_cancel (b := held (s.workers w)) ?_
    calc (dequeued l : Multiset Nat) + ∑ v, held (s.workers v) + held (s.workers w)
        = (dequeued l + held (s.workers w)) + ∑ v, held (s.workers v) := by abel
      _ = (invoked l + held p) + ∑ v, held (s.workers v) := by rw [hd]
      _ = invoked l + (∑ v, held (s.workers v) + held p) := by abel
      _ = invoked l + (∑ v, held (Function.update s.workers w p v) + held (s.workers w)) := by
        rw [hheld]
      _ = _ := by abel
  · rw [hw]
    refine add_right_cancel (b := active (s.workers w)) ?_
    calc (invoked l : Multiset Nat) + ∑ v, active (s.workers v) + active (s.workers w)
        = (invoked l + active (s.workers w)) + ∑ v, active (s.workers v) := by abel
      _ = (finished l + active p) + ∑ v, active (s.workers v) := by rw [hi]
      _ = finished l + (∑ v, active (s.workers v) + active p) := by abel
      _ = finished l + (∑ v, active (Function.update s.workers w p v) + active (s.workers w)) := by
        rw [hactive]
      _ = _ := by abel

theorem hands_wake (p : WorkerPc J) :
    held (Waiter.wake p) = held p ∧ active (Waiter.wake p) = active p := by
  cases p <;> exact ⟨rfl, rfl⟩

theorem hands_notifyAll (f : Fin n → WorkerPc J) (w : Fin n) :
    held (CondVar.notifyAll () f w) = held (f w) ∧
      active (CondVar.notifyAll () f w) = active (f w) := by
  unfold CondVar.notifyAll
  split
  · exact hands_wake _
  · exact ⟨rfl, rfl⟩

theorem hands_notifyOne {wakes : Option (Fin n)} {f g : Fin n → WorkerPc J}
    (hn : CondVar.notifyOne () wakes f = some g) (w : Fin n) :
    held (g w) = held (f w) ∧ active (g w) = active (f w) := by
  rcases notifyOne_cases hn with ⟨rfl, _⟩ | ⟨j, _, rfl⟩
  · exact ⟨rfl, rfl⟩
  · by_cases hj : w = j
    · subst hj
      rw [Function.update_self]
      exact hands_wake _
    · rw [Function.update_of_ne hj]
      exact ⟨rfl, rfl⟩

variable [DecidableEq S]

theorem Accounts.step {s t : Pool n S J} {a : Action n S J} (h : Accounts s)
    (hs : step s a = some t) : Accounts t := by
  have hsame : ∀ w, held (s.workers w) = held (s.workers w) ∧
      active (s.workers w) = active (s.workers w) := fun _ => ⟨rfl, rfl⟩
  have hnil : s.log = s.log ++ [] := (List.append_nil _).symm
  have hqueue : s.queue ++ accepted ([] : List (Event n J)) = s.queue := List.append_nil _
  cases step_cases hs with
  | call => exact h.frame hnil hqueue rfl rfl rfl hsame
  | refused => exact h.frame rfl hqueue rfl rfl rfl hsame
  | accepted => exact h.frame rfl rfl rfl rfl rfl hsame
  | notify _ hn => exact h.frame hnil hqueue rfl rfl rfl (hands_notifyOne hn)
  | ret => exact h.frame hnil hqueue rfl rfl rfl hsame
  | park hw => exact h.worker rfl hnil hqueue (by rw [hw]; rfl) (by rw [hw]; rfl)
  | exit hw => exact h.worker rfl hnil hqueue (by rw [hw]; rfl) (by rw [hw]; rfl)
  | dequeue hw _ hq =>
    exact h.worker rfl rfl (by simp [hq, accepted, dequeued]) (by rw [hw]; rfl) (by rw [hw]; rfl)
  | spurious hw => exact h.worker rfl hnil hqueue (by rw [hw]; rfl) (by rw [hw]; rfl)
  | invoke hw => exact h.worker rfl rfl hqueue (by rw [hw]; rfl) (by rw [hw]; rfl)
  | finish hw => exact h.worker rfl rfl hqueue (by rw [hw]; rfl) (by rw [hw]; rfl)
  | work hw => exact h.worker rfl hnil hqueue (by rw [hw]; rfl) (by rw [hw]; rfl)
  | submit hw => exact h.worker rfl hnil hqueue (by rw [hw]; rfl) (by rw [hw]; rfl)
  | resume hw => exact h.worker rfl hnil hqueue (by rw [hw]; rfl) (by rw [hw]; rfl)
  | stop => exact h.frame hnil hqueue rfl rfl rfl hsame
  | notifyAll => exact h.frame hnil hqueue rfl rfl rfl (hands_notifyAll s.workers)
  | join => exact h.frame hnil hqueue rfl rfl rfl hsame
  | joined => exact h.frame hnil hqueue rfl rfl rfl hsame

theorem reachable_accounts {s₀ s : Pool n S J} (h0 : make n S J = .ok s₀)
    (h : Machine.Reachable step s₀ s) : Accounts s := by
  refine h.invariant ?_ fun _ ih hs => ih.step hs
  obtain ⟨-, rfl⟩ := make_eq_ok h0
  refine ⟨rfl, ?_, ?_⟩
  · simp [dequeued, invoked, held]
  · simp [invoked, finished, active]

omit [DecidableEq S] in
/-- No callable is called twice: what was called is part of what was accepted. -/
theorem Accounts.invoked_nodup {s : Pool n S J} (h : Accounts s) (hids : Ids s) :
    (invoked s.log).Nodup := by
  have hacc : (dequeued s.log).Nodup := (List.nodup_append.mp (h.order ▸ hids.nodup)).1
  have hle : (invoked s.log : Multiset Nat) ≤ dequeued s.log := by
    rw [h.taken]
    exact Multiset.le_add_right _ _
  exact Multiset.coe_nodup.mp (Multiset.nodup_of_le hle (Multiset.coe_nodup.mpr hacc))

omit [DecidableEq S] in
/-- A task whose callable is running has an empty shared state. -/
theorem Accounts.unfinished {s : Pool n S J} (h : Accounts s) (hids : Ids s) {w : Fin n} {id : Nat}
    (hid : id ∈ active (s.workers w)) : id ∉ finished s.log := by
  have hnodup := Multiset.coe_nodup.mpr (h.invoked_nodup hids)
  rw [h.called, Multiset.nodup_add] at hnodup
  intro hfin
  exact Multiset.disjoint_left.mp hnodup.2.2 (Multiset.mem_coe.mpr hfin)
    (Multiset.mem_sum.mpr ⟨w, Finset.mem_univ w, hid⟩)

end BackendPatterns.ThreadPool
