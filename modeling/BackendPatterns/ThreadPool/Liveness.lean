import BackendPatterns.ThreadPool.ExactlyOnce

/-! # The thread pool is never stuck

As long as a future is not ready, or the destructor has not returned, somebody
in the pool can go on without being woken spuriously and without a caller from
outside: a state in which nobody can has every worker asleep or gone, and then
nothing is left in the queue. -/

namespace BackendPatterns.ThreadPool
open BackendPatterns.Lib BackendPatterns.Lib.CondVar BackendPatterns.Lib.Threads

variable {n : Nat} {S : Type} {J : Jobs} [DecidableEq S]

/-- A step of a worker, or of a `submit` that was called. -/
def Action.own : Action n S J → Bool
  | .enter _ | .notify _ _ | .lock _ | .invoke _ | .run _ _ | .resume _ => true
  | .call _ _ _ | .ret _ | .spurious _ | .destroy => false

/-! ## Calls of `submit` from inside a job -/

/-- A worker whose job is inside `submit` has a call in progress, and `stopping_`
is what the destructor has set. -/
structure Engaged (s : Pool n S J) : Prop where
  submitting : ∀ w id resume, s.workers w = .submitting id resume → s.submits (.worker w) ≠ .idle
  stopping : s.stopping = true ↔ s.dtor ≠ .alive

theorem submitting_notifyOne {wakes : Option (Fin n)} {f g : Fin n → WorkerPc J}
    (hn : CondVar.notifyOne () wakes f = some g) {w : Fin n} {id : Nat}
    {resume : Except String Nat → J.St} (hg : g w = .submitting id resume) :
    f w = .submitting id resume := by
  rw [← hg]
  exact notifyOne_of_not_woken hn (by rw [hg, woken_iff]; simp)

theorem submitting_notifyAll {f : Fin n → WorkerPc J} {w : Fin n} {id : Nat}
    {resume : Except String Nat → J.St}
    (hw : CondVar.notifyAll () f w = .submitting id resume) : f w = .submitting id resume := by
  unfold CondVar.notifyAll at hw
  split at hw
  · rename_i hp
    rw [parked_iff.mp hp] at hw
    cases hw
  · exact hw

omit [DecidableEq S] in
/-- A worker moves to a place that is not inside a call. -/
theorem Engaged.worker {s : Pool n S J} {w : Fin n} {p : WorkerPc J} (h : Engaged s)
    (hp : ∀ id resume, p ≠ .submitting id resume) (v : Fin n) (id : Nat)
    (resume : Except String Nat → J.St)
    (hv : Function.update s.workers w p v = .submitting id resume) :
    s.submits (.worker v) ≠ .idle :=
  h.submitting v id resume (of_update hv (hp id resume))

/-- A call goes on, and is not over. -/
theorem Engaged.call {s : Pool n S J} {c : Caller n S} {p : SubmitPc} (h : Engaged s)
    (hp : p ≠ .idle) (w : Fin n) (id : Nat) (resume : Except String Nat → J.St)
    (hw : s.workers w = .submitting id resume) :
    Function.update s.submits c p (.worker w) ≠ .idle := by
  by_cases hc : .worker w = c
  · subst hc
    rwa [Function.update_self]
  · rw [Function.update_of_ne hc]
    exact h.submitting w id resume hw

theorem Engaged.step {s t : Pool n S J} {a : Action n S J} (h : Engaged s)
    (hs : step s a = some t) : Engaged t := by
  cases step_cases hs with
  | @call i => exact ⟨h.call (c := .submitter i) (p := .entry s.tasks.length) (by simp), h.stopping⟩
  | refused => exact ⟨h.call (by simp), h.stopping⟩
  | accepted => exact ⟨h.call (by simp), h.stopping⟩
  | notify _ hn =>
    refine ⟨?_, h.stopping⟩
    intro w id resume hw
    exact h.call (by simp) w id resume (submitting_notifyOne hn hw)
  | @ret i =>
    refine ⟨?_, h.stopping⟩
    intro w id resume hw
    show Function.update s.submits (.submitter i) .idle (.worker w) ≠ .idle
    rw [Function.update_of_ne (by simp)]
    exact h.submitting w id resume hw
  | park => exact ⟨h.worker (by simp), h.stopping⟩
  | exit => exact ⟨h.worker (by simp), h.stopping⟩
  | dequeue => exact ⟨h.worker (by simp), h.stopping⟩
  | spurious => exact ⟨h.worker (by simp), h.stopping⟩
  | invoke => exact ⟨h.worker (by simp), h.stopping⟩
  | finish => exact ⟨h.worker (by simp), h.stopping⟩
  | work => exact ⟨h.worker (by simp), h.stopping⟩
  | @submit w env id st fn args resume hw =>
    refine ⟨?_, h.stopping⟩
    intro v id' resume' hv
    by_cases hvw : v = w
    · subst hvw
      simp [Pool.makeTask]
    · simp only [Pool.makeTask, Function.update_of_ne hvw] at hv ⊢
      rw [Function.update_of_ne (by simpa using hvw)]
      exact h.submitting v id' resume' hv
  | @resume w id resume future hw =>
    refine ⟨?_, h.stopping⟩
    intro v id' resume' hv
    by_cases hvw : v = w
    · subst hvw
      simp [Pool.answer] at hv
    · simp only [Pool.answer, Function.update_of_ne hvw] at hv
      show Function.update s.submits (.worker w) .idle (.worker v) ≠ .idle
      rw [Function.update_of_ne (by simpa using hvw)]
      exact h.submitting v id' resume' hv
  | stop => exact ⟨h.submitting, by simp⟩
  | notifyAll hd =>
    refine ⟨?_, ?_⟩
    · intro w id resume hw
      exact h.submitting w id resume (submitting_notifyAll hw)
    · rw [h.stopping, hd]
      simp
  | join hd => exact ⟨h.submitting, by rw [h.stopping, hd]; simp⟩
  | joined hd => exact ⟨h.submitting, by rw [h.stopping, hd]; simp⟩

theorem reachable_engaged {s₀ s : Pool n S J} (h0 : make n S J = .ok s₀)
    (h : Machine.Reachable step s₀ s) : Engaged s := by
  refine h.invariant ?_ fun _ ih hs => ih.step hs
  obtain ⟨-, rfl⟩ := make_eq_ok h0
  exact ⟨nofun, by simp⟩

/-! ## Jobs that nobody has begun -/

/-- The tasks in the queue and in the hands of workers have been made. -/
structure Made (s : Pool n S J) : Prop where
  queue : ∀ id ∈ s.queue, id < s.tasks.length
  holding : ∀ w id, s.workers w = .holding id → id < s.tasks.length

omit [DecidableEq S] in
theorem Accounts.made {s : Pool n S J} (h : Accounts s) (hids : Ids s) : Made s := by
  constructor
  · intro id hid
    refine hids.lt id ?_
    rw [h.order]
    exact List.mem_append_right _ hid
  · intro w id hw
    refine hids.lt id ?_
    rw [h.order]
    refine List.mem_append_left _ (Multiset.mem_coe.mp ?_)
    rw [h.taken]
    refine Multiset.mem_add.mpr (.inr (Multiset.mem_sum.mpr ⟨w, Finset.mem_univ w, ?_⟩))
    rw [hw]
    exact Multiset.mem_singleton_self id

/-! ## States in which nobody can go on -/

/-- No worker and no call of `submit` can take a step. -/
def Stuck (s : Pool n S J) : Prop := ∀ a : Action n S J, a.own = true → step s a = none

theorem Stuck.submits {s : Pool n S J} (h : Stuck s) (c : Caller n S) :
    s.submits c = .idle ∨ ∃ future, s.submits c = .done future := by
  cases hc : s.submits c with
  | idle => exact .inl rfl
  | done future => exact .inr ⟨future, rfl⟩
  | entry id =>
    have hn := h (.enter c) rfl
    simp [ThreadPool.step, hc] at hn
  | notify id =>
    obtain ⟨wakes, ws, hws⟩ := notifyOne_total () s.workers
    have hn := h (.notify c wakes) rfl
    simp [ThreadPool.step, hc, hws] at hn

theorem Stuck.owes {s : Pool n S J} (h : Stuck s) (c : Caller n S) :
    (s.submits c).owes = false := by
  obtain hi | ⟨future, hd⟩ := h.submits c
  · rw [hi]; rfl
  · rw [hd]; rfl

/-- A stuck worker sleeps or is gone. -/
theorem Stuck.workers [Nonempty J.Env] {s : Pool n S J} (h : Stuck s) (he : Engaged s)
    (hids : Ids s) (hacc : Accounts s) (w : Fin n) :
    s.workers w = .wait .parked ∨ s.workers w = .exited := by
  cases hw : s.workers w with
  | wait wt =>
    cases wt with
    | parked => exact .inl rfl
    | entry =>
      have hn := h (.lock w) rfl
      simp [ThreadPool.step, hw] at hn
    | woken =>
      have hn := h (.lock w) rfl
      simp [ThreadPool.step, hw] at hn
  | holding id =>
    have hlt := (hacc.made hids).holding w id hw
    have hn := h (.invoke w) rfl
    simp [ThreadPool.step, hw, List.getElem?_eq_getElem hlt] at hn
  | running id st =>
    have hn := h (.run w (Classical.arbitrary J.Env)) rfl
    simp [ThreadPool.step, hw] at hn
  | submitting id resume =>
    obtain hi | ⟨future, hd⟩ := h.submits (.worker w)
    · exact absurd hi (he.submitting w id resume hw)
    · have hn := h (.resume w) rfl
      simp [ThreadPool.step, hw, hd] at hn
  | exited => exact .inr rfl

variable [Fintype S]

/-- Asleep in an open pool, a worker leaves the queue empty. -/
theorem Stuck.queue {s : Pool n S J} (h : Stuck s) (hsig : Signalled s) (ho : s.stopping = false)
    {w : Fin n} (hw : s.workers w = .wait .parked)
    (hall : ∀ v, s.workers v = .wait .parked ∨ s.workers v = .exited) : s.queue = [] := by
  have hwoken : ∀ v, ¬ Woken () (s.workers v) := by
    intro v
    rw [woken_iff]
    obtain hv | hv := hall v <;> simp [hv]
  have hpending : pending s.submits = 0 :=
    count_eq_zero_iff.mpr fun c => by rw [h.owes c]; simp
  have hcov := hsig.opened ho
  rw [hpending] at hcov
  exact List.eq_nil_of_length_eq_zero (hcov.eq_zero (parked_iff.mpr hw) hwoken)

/-- An open pool that is stuck has finished every job it has accepted. -/
theorem Stuck.ready [Nonempty J.Env] {s₀ s : Pool n S J} (hst : Stuck s)
    (h0 : make n S J = .ok s₀) (h : Machine.Reachable step s₀ s) (hd : s.dtor = .alive) {id : Nat}
    (hid : id ∈ accepted s.log) : s.shared id ≠ none := by
  have hacc := reachable_accounts h0 h
  have hengaged := reachable_engaged h0 h
  have ho : s.stopping = false := by
    rw [← Bool.not_eq_true, hengaged.stopping]
    exact fun hne => hne hd
  have hall := hst.workers hengaged (reachable_ids h0 h) hacc
  have hparked : ∀ w, s.workers w = .wait .parked := fun w =>
    (hall w).resolve_right fun he => by
      rw [((reachable_exits h0 h).drained w he).1] at ho
      cases ho
  have hq : s.queue = [] :=
    hst.queue (reachable_signalled h0 h) ho (hparked ⟨0, (make_eq_ok h0).1⟩) hall
  -- With nothing queued, held or running, every accepted job has finished.
  have htaken := hacc.taken
  have hcalled := hacc.called
  simp only [hparked, held, active, Finset.sum_const_zero, add_zero] at htaken hcalled
  rw [hacc.order, hq, List.append_nil, ← Multiset.mem_coe, htaken, hcalled] at hid
  obtain ⟨w, outcome, hmem⟩ := mem_finished.mp (Multiset.mem_coe.mp hid)
  rw [((reachable_outcomes h0 h).stored id outcome).mpr ⟨w, hmem⟩]
  exact Option.some_ne_none outcome

/-- A destructor that was called and is stuck as well has returned. -/
theorem Stuck.returned [Nonempty J.Env] {s₀ s : Pool n S J} (hst : Stuck s)
    (h0 : make n S J = .ok s₀) (h : Machine.Reachable step s₀ s) (hne : s.dtor ≠ .alive)
    (hdestroy : s.destroy = none) : s.dtor = .done := by
  have hengaged := reachable_engaged h0 h
  have hall := hst.workers hengaged (reachable_ids h0 h) (reachable_accounts h0 h)
  cases hd : s.dtor with
  | alive => exact absurd hd hne
  | notify => simp [Pool.destroy, hd] at hdestroy
  | join k =>
    simp only [Pool.destroy, hd] at hdestroy
    split at hdestroy
    · rename_i hk
      obtain hp | he := hall ⟨k, hk⟩
      · rw [(reachable_signalled h0 h).stopped (hengaged.stopping.mpr hne) _ hp] at hd
        cases hd
      · simp [he] at hdestroy
    · cases hdestroy
  | done => rfl

end BackendPatterns.ThreadPool
