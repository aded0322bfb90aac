import BackendPatterns.Lib.History
import BackendPatterns.ThreadPool.Jobs

/-! # What `submit` answers

A submit gives its caller the future of a task made from the callable and the
arguments it was called with, or throws because the pool is stopping. What is said
here is said of the calls as the callers see them, not of the tasks. -/

namespace BackendPatterns.ThreadPool
open BackendPatterns.Lib BackendPatterns.Lib.CondVar

variable {n : Nat} {S : Type} {J : Jobs}

def SubmitEvent.caller : SubmitEvent n S J → Caller n S
  | .call c _ _ | .ret c _ => c

/-- The futures that were returned. -/
def futures (l : List (SubmitEvent n S J)) : List Nat := l.filterMap fun e => match e with
  | .ret _ (.ok id) => some id
  | _ => none

@[simp] theorem futures_append (l l' : List (SubmitEvent n S J)) :
    futures (l ++ l') = futures l ++ futures l' := List.filterMap_append

theorem mem_futures {l : List (SubmitEvent n S J)} {id : Nat} :
    id ∈ futures l ↔ ∃ c, .ret c (.ok id) ∈ l := by
  unfold futures
  rw [List.mem_filterMap]
  constructor
  · intro h
    obtain ⟨e, he, hid⟩ := h
    cases e with
    | call => cases hid
    | ret c future =>
      cases future with
      | error => cases hid
      | ok id' => cases hid; exact ⟨c, he⟩
  · intro h
    obtain ⟨c, he⟩ := h
    exact ⟨_, he, rfl⟩

/-- The future that a call of `submit` may return. -/
def SubmitPc.future? : SubmitPc → Option Nat
  | .entry id | .notify id | .done (.ok id) => some id
  | .idle | .done (.error _) => none

/-- The future of an accepted task with this callable and these arguments, or the
exception of a stopping pool. -/
def Pool.Answers (s : Pool n S J) (fn : J.Fn) (args : J.Args) : Except String Nat → Prop
  | .ok id => s.tasks[id]? = some ⟨fn, args⟩ ∧ id ∈ accepted s.log
  | .error what => what = "submit on stopped ThreadPool" ∧ s.stopping = true

/-- Where a call with this callable and these arguments can stand. -/
def Pool.Serves (s : Pool n S J) (fn : J.Fn) (args : J.Args) : SubmitPc → Prop
  | .idle => False
  | .entry id => s.tasks[id]? = some ⟨fn, args⟩
  | .notify id => s.Answers fn args (.ok id)
  | .done future => s.Answers fn args future

/-! ## What only grows -/

structure Grows (s t : Pool n S J) : Prop where
  tasks : ∀ (id : Nat) (task : Task J), s.tasks[id]? = some task → t.tasks[id]? = some task
  accepted : ∀ id ∈ accepted s.log, id ∈ accepted t.log
  stopping : s.stopping = true → t.stopping = true

theorem Grows.answers {s t : Pool n S J} (h : Grows s t) {fn : J.Fn} {args : J.Args}
    {future : Except String Nat} (ha : s.Answers fn args future) : t.Answers fn args future := by
  cases future with
  | ok id => exact ⟨h.tasks _ _ ha.1, h.accepted _ ha.2⟩
  | error what => exact ⟨ha.1, h.stopping ha.2⟩

theorem Grows.serves {s t : Pool n S J} (h : Grows s t) {fn : J.Fn} {args : J.Args} {p : SubmitPc}
    (hp : s.Serves fn args p) : t.Serves fn args p := by
  cases p with
  | idle => exact hp
  | entry id => exact h.tasks _ _ hp
  | notify id =>
    have ha : s.Answers fn args (.ok id) := hp
    exact h.answers ha
  | done future =>
    have ha : s.Answers fn args future := hp
    exact h.answers ha

/-- What was accepted stays so. -/
theorem mem_accepted_append {log : List (Event n J)} (e : Event n J) (id : Nat)
    (hid : id ∈ accepted log) : id ∈ accepted (log ++ [e]) := by
  rw [accepted_append]
  exact List.mem_append_left _ hid

variable [DecidableEq S]

theorem grows_makeTask (s : Pool n S J) (c : Caller n S) (fn : J.Fn) (args : J.Args) :
    Grows s (s.makeTask c fn args) :=
  ⟨fun _ _ ht => (List.getElem?_append_left (List.getElem?_eq_some_iff.mp ht).1).trans ht,
    fun _ => id, id⟩

theorem grows_of_step {s t : Pool n S J} {a : Action n S J} (hs : step s a = some t) :
    Grows s t := by
  cases step_cases hs with
  | call => exact grows_makeTask s _ _ _
  | refused => exact ⟨fun _ _ => id, mem_accepted_append _, id⟩
  | accepted => exact ⟨fun _ _ => id, mem_accepted_append _, id⟩
  | dequeue => exact ⟨fun _ _ => id, mem_accepted_append _, id⟩
  | invoke => exact ⟨fun _ _ => id, mem_accepted_append _, id⟩
  | finish => exact ⟨fun _ _ => id, mem_accepted_append _, id⟩
  | @submit w env id st fn args =>
    have hg := grows_makeTask s (.worker w) fn args
    exact ⟨hg.tasks, hg.accepted, hg.stopping⟩
  | stop => exact ⟨fun _ _ => id, fun _ => id, fun _ => rfl⟩
  | _ => exact ⟨fun _ _ => id, fun _ => id, id⟩

/-! ## Calls and answers -/

/-- What a caller did last. -/
def lastOf (c : Caller n S) (l : List (SubmitEvent n S J)) : Option (SubmitEvent n S J) :=
  (l.filter fun e => e.caller = c).getLast?

theorem lastOf_snoc {c : Caller n S} {l : List (SubmitEvent n S J)} {e : SubmitEvent n S J}
    (he : e.caller = c) : lastOf c (l ++ [e]) = some e := by
  rw [lastOf, List.filter_append, List.filter_cons_of_pos (by simpa using he), List.filter_nil,
    List.getLast?_concat]

theorem lastOf_snoc_of_ne {c : Caller n S} {l : List (SubmitEvent n S J)} {e : SubmitEvent n S J}
    (he : e.caller ≠ c) : lastOf c (l ++ [e]) = lastOf c l := by
  rw [lastOf, List.filter_append, List.filter_cons_of_neg (by simpa using he), List.filter_nil,
    List.append_nil, lastOf]

/-- A caller gets the answer to its last call, and its future before anybody else does. -/
structure Submits (s : Pool n S J) : Prop where
  asked : ∀ c, s.submits c = .idle ∨ ∃ fn args, lastOf c s.submitted = some (.call c fn args) ∧
    s.Serves fn args (s.submits c)
  answered : ∀ l c future l', s.submitted = l ++ .ret c future :: l' →
    ∃ fn args, lastOf c l = some (.call c fn args) ∧ s.Answers fn args future
  carried : ∀ c id, (s.submits c).future? = some id → id < s.tasks.length ∧
    id ∉ futures s.submitted
  single : ∀ c c' id, (s.submits c).future? = some id → (s.submits c').future? = some id → c = c'
  nodup : (futures s.submitted).Nodup

omit [DecidableEq S] in
theorem Pool.Answers.lt {s : Pool n S J} {fn : J.Fn} {args : J.Args} {id : Nat}
    (h : s.Answers fn args (.ok id)) : id < s.tasks.length :=
  (List.getElem?_eq_some_iff.mp h.1).1

theorem Submits.promised {s : Pool n S J} (h : Submits s) {c : Caller n S} {id : Nat}
    (hd : s.submits c = .done (.ok id)) : id ∈ accepted s.log := by
  obtain ⟨fn, args, -, hp⟩ := (h.asked c).resolve_left (by rw [hd]; simp)
  rw [hd] at hp
  exact hp.2

theorem Submits.futures_lt {s : Pool n S J} (h : Submits s) {id : Nat}
    (hid : id ∈ futures s.submitted) : id < s.tasks.length := by
  obtain ⟨c, hc⟩ := mem_futures.mp hid
  obtain ⟨l, l', hl⟩ := List.append_of_mem hc
  obtain ⟨fn, args, -, ha⟩ := h.answered l c _ l' hl
  exact ha.lt

/-- A caller of whom nothing new is known is where it was. -/
theorem asked_mono {s t : Pool n S J} {c : Caller n S} (hg : Grows s t)
    (hsame : t.submits c = s.submits c) (hlast : lastOf c t.submitted = lastOf c s.submitted)
    (h : s.submits c = .idle ∨ ∃ fn args, lastOf c s.submitted = some (.call c fn args) ∧
      s.Serves fn args (s.submits c)) :
    t.submits c = .idle ∨ ∃ fn args, lastOf c t.submitted = some (.call c fn args) ∧
      t.Serves fn args (t.submits c) := by
  rw [hsame, hlast]
  refine h.imp_right fun hasked => ?_
  obtain ⟨fn, args, hcall, hp⟩ := hasked
  exact ⟨fn, args, hcall, hg.serves hp⟩

/-- A step in which no call of `submit` moves. -/
theorem Submits.frame {s t : Pool n S J} (h : Submits s) (hg : Grows s t)
    (hc : t.submits = s.submits) (hl : t.submitted = s.submitted) (ht : t.tasks = s.tasks) :
    Submits t := by
  refine ⟨?_, ?_, ?_, ?_, hl ▸ h.nodup⟩
  · intro c
    exact asked_mono hg (congrFun hc c) (by rw [hl]) (h.asked c)
  · intro l c future l' he
    obtain ⟨fn, args, hlast, ha⟩ := h.answered l c future l' (hl ▸ he)
    exact ⟨fn, args, hlast, hg.answers ha⟩
  · intro c id hid
    rw [hc] at hid
    rw [hl, ht]
    exact h.carried c id hid
  · intro c c' id hid hid'
    rw [hc] at hid hid'
    exact h.single c c' id hid hid'

theorem Submits.workers {s : Pool n S J} (h : Submits s) (workers : Fin n → WorkerPc J) :
    Submits { s with workers } :=
  h.frame ⟨fun _ _ => id, fun _ => id, id⟩ rfl rfl rfl

/-- A call goes on, with the future that it had. -/
theorem Submits.move {s t : Pool n S J} {c : Caller n S} {p : SubmitPc} (h : Submits s)
    (hg : Grows s t) (hc : t.submits = Function.update s.submits c p)
    (hl : t.submitted = s.submitted) (ht : t.tasks = s.tasks) (hidle : s.submits c ≠ .idle)
    (hp : ∀ fn args, s.Serves fn args (s.submits c) → t.Serves fn args p)
    (hid : ∀ id, p.future? = some id → (s.submits c).future? = some id) : Submits t := by
  have hfuture : ∀ {c' id}, (t.submits c').future? = some id →
      (s.submits c').future? = some id := by
    intro c' id hf
    rw [hc] at hf
    by_cases hcc : c' = c
    · subst hcc
      rw [Function.update_self] at hf
      exact hid id hf
    · rwa [Function.update_of_ne hcc] at hf
  refine ⟨?_, ?_, ?_, ?_, hl ▸ h.nodup⟩
  · intro c'
    by_cases hcc : c' = c
    · subst hcc
      obtain ⟨fn, args, hlast, hs⟩ := (h.asked c').resolve_left hidle
      rw [hc, hl, Function.update_self]
      exact .inr ⟨fn, args, hlast, hp fn args hs⟩
    · have hsame : t.submits c' = s.submits c' := by rw [hc, Function.update_of_ne hcc]
      exact asked_mono hg hsame (by rw [hl]) (h.asked c')
  · intro l c' future l' he
    obtain ⟨fn, args, hlast, ha⟩ := h.answered l c' future l' (hl ▸ he)
    exact ⟨fn, args, hlast, hg.answers ha⟩
  · intro c' id hf
    rw [hl, ht]
    exact h.carried c' id (hfuture hf)
  · intro c₁ c₂ id h₁ h₂
    exact h.single c₁ c₂ id (hfuture h₁) (hfuture h₂)

/-- The future of the new task goes to the caller, who had none. -/
theorem future_makeTask {s : Pool n S J} {c c' : Caller n S} {fn : J.Fn} {args : J.Args} {id : Nat}
    (hf : ((s.makeTask c fn args).submits c').future? = some id) :
    (c' = c ∧ id = s.tasks.length) ∨ (s.submits c').future? = some id := by
  by_cases hcc : c' = c
  · subst hcc
    simp only [Pool.makeTask, Function.update_self, SubmitPc.future?, Option.some.injEq] at hf
    exact .inl ⟨rfl, hf.symm⟩
  · simp only [Pool.makeTask, Function.update_of_ne hcc] at hf
    exact .inr hf

/-- A caller calls `submit`. -/
theorem Submits.makeTask {s : Pool n S J} (h : Submits s) (c : Caller n S) (fn : J.Fn)
    (args : J.Args) : Submits (s.makeTask c fn args) := by
  have hg := grows_makeTask s c fn args
  have hnone : futures ([.call c fn args] : List (SubmitEvent n S J)) = [] := rfl
  have hfutures : futures (s.makeTask c fn args).submitted = futures s.submitted := by
    rw [Pool.makeTask, futures_append, hnone, List.append_nil]
  have hlen : (s.makeTask c fn args).tasks.length = s.tasks.length + 1 := by simp [Pool.makeTask]
  refine ⟨?_, ?_, ?_, ?_, hfutures ▸ h.nodup⟩
  · intro c'
    by_cases hcc : c' = c
    · subst hcc
      refine .inr ⟨fn, args, lastOf_snoc rfl, ?_⟩
      simp [Pool.makeTask, Pool.Serves]
    · exact asked_mono hg (Function.update_of_ne hcc ..) (lastOf_snoc_of_ne (Ne.symm hcc))
        (h.asked c')
  · intro l c' future l' he
    obtain ⟨-, hx⟩ | ⟨l₃, hl⟩ := History.snoc_eq_append_cons he
    · cases hx
    · obtain ⟨fn', args', hlast, ha⟩ := h.answered l c' future l₃ hl
      exact ⟨fn', args', hlast, hg.answers ha⟩
  · intro c' id hf
    rw [hfutures, hlen]
    obtain ⟨-, rfl⟩ | hold := future_makeTask hf
    · exact ⟨Nat.lt_succ_self _, fun hmem => Nat.lt_irrefl _ (h.futures_lt hmem)⟩
    · obtain ⟨hlt, hnew⟩ := h.carried c' id hold
      exact ⟨Nat.lt_succ_of_lt hlt, hnew⟩
  · intro c₁ c₂ id h₁ h₂
    obtain ⟨hc₁, hid⟩ | hold₁ := future_makeTask h₁
    · obtain ⟨hc₂, -⟩ | hold₂ := future_makeTask h₂
      · rw [hc₁, hc₂]
      · exact absurd (h.carried c₂ id hold₂).1 (by omega)
    · obtain ⟨-, hid⟩ | hold₂ := future_makeTask h₂
      · exact absurd (h.carried c₁ id hold₁).1 (by omega)
      · exact h.single c₁ c₂ id hold₁ hold₂

/-- Whose call is over carries no future any more. -/
theorem future_answer {s : Pool n S J} {c c' : Caller n S} {future : Except String Nat} {id : Nat}
    (hf : ((s.answer c future).submits c').future? = some id) :
    c' ≠ c ∧ (s.submits c').future? = some id := by
  by_cases hcc : c' = c
  · subst hcc
    simp [Pool.answer, SubmitPc.future?] at hf
  · simp only [Pool.answer, Function.update_of_ne hcc] at hf
    exact ⟨hcc, hf⟩

/-- A future that is returned was returned before, or carried by the call that is over. -/
theorem mem_futures_answer {s : Pool n S J} {c : Caller n S} {future : Except String Nat} {id : Nat}
    (hd : s.submits c = .done future) (hid : id ∈ futures (s.answer c future).submitted) :
    id ∈ futures s.submitted ∨ (s.submits c).future? = some id := by
  rw [Pool.answer, futures_append, List.mem_append] at hid
  refine hid.imp_right fun hlast => ?_
  obtain ⟨c', hc'⟩ := mem_futures.mp hlast
  cases List.mem_singleton.mp hc'
  rw [hd]
  rfl

/-- A call is over, and its caller gets the answer. -/
theorem Submits.answer {s : Pool n S J} {c : Caller n S} {future : Except String Nat}
    (h : Submits s) (hd : s.submits c = .done future) : Submits (s.answer c future) := by
  have hg : Grows s (s.answer c future) := ⟨fun _ _ => id, fun _ => id, id⟩
  refine ⟨?_, ?_, ?_, ?_, ?_⟩
  · intro c'
    by_cases hcc : c' = c
    · exact .inl (by simp [Pool.answer, hcc])
    · exact asked_mono hg (Function.update_of_ne hcc ..)
        (lastOf_snoc_of_ne (Ne.symm hcc)) (h.asked c')
  · intro l c' future' l' he
    obtain ⟨rfl, hx⟩ | ⟨l₃, hl⟩ := History.snoc_eq_append_cons he
    · cases hx
      obtain ⟨fn, args, hlast, hp⟩ := (h.asked c).resolve_left (by rw [hd]; simp)
      rw [hd] at hp
      exact ⟨fn, args, hlast, hp⟩
    · exact h.answered l c' future' l₃ hl
  · intro c' id hf
    obtain ⟨hcc, hf⟩ := future_answer hf
    obtain ⟨hlt, hnew⟩ := h.carried c' id hf
    refine ⟨hlt, fun hid => ?_⟩
    obtain hold | hown := mem_futures_answer hd hid
    · exact hnew hold
    · exact hcc (h.single c' c id hf hown)
  · intro c₁ c₂ id h₁ h₂
    exact h.single c₁ c₂ id (future_answer h₁).2 (future_answer h₂).2
  · rw [Pool.answer, futures_append]
    cases future with
    | error => exact (List.append_nil (futures s.submitted)).symm ▸ h.nodup
    | ok id =>
      have hnew := (h.carried c id (by rw [hd]; rfl)).2
      refine List.nodup_append.mpr ⟨h.nodup, List.nodup_singleton id, ?_⟩
      intro x hx y hy hxy
      cases List.mem_singleton.mp hy
      exact hnew (hxy ▸ hx)

theorem Submits.step {s t : Pool n S J} {a : Action n S J} (h : Submits s)
    (hs : step s a = some t) : Submits t := by
  have hg := grows_of_step hs
  cases step_cases hs with
  | call => exact h.makeTask _ _ _
  | refused hc hstop =>
    refine h.move hg rfl rfl rfl (by rw [hc]; simp) (fun _ _ _ => ⟨rfl, hstop⟩) ?_
    intro id hid
    cases hid
  | @accepted c id hc =>
    refine h.move hg rfl rfl rfl (by rw [hc]; simp) (fun fn args hp => ?_) ?_
    · rw [hc] at hp
      exact ⟨hp, by simp [accepted]⟩
    · intro id' hid
      rw [hc]
      exact hid
  | notify hc =>
    refine h.move hg rfl rfl rfl (by rw [hc]; simp) (fun fn args hp => ?_) ?_
    · rw [hc] at hp
      exact hp
    · intro id' hid
      rw [hc]
      exact hid
  | ret hd => exact h.answer hd
  | submit => exact (h.workers _).makeTask _ _ _
  | resume _ hd => exact (h.workers _).answer hd
  | _ => exact h.frame hg rfl rfl rfl

theorem reachable_submits {s₀ s : Pool n S J} (h0 : make n S J = .ok s₀)
    (h : Machine.Reachable step s₀ s) : Submits s := by
  refine h.invariant ?_ fun _ ih hs => ih.step hs
  obtain ⟨-, rfl⟩ := make_eq_ok h0
  exact ⟨fun _ => .inl rfl, by simp, nofun, nofun, List.nodup_nil⟩

end BackendPatterns.ThreadPool
