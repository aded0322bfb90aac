import BackendPatterns.ThreadPool.Pool

/-! # The thread pool strands no job

`submit` notifies after releasing the lock, so between the two it owes the pool
a notification. While the pool is open the queued jobs never outnumber the woken
workers and the notifications owed, as long as some worker sleeps; once it is
stopping, a worker sleeps only until the destructor's `notify_all`. -/

namespace BackendPatterns.ThreadPool
open BackendPatterns.Lib BackendPatterns.Lib.CondVar BackendPatterns.Lib.Threads

variable {n : Nat} {S : Type} {J : Jobs}

theorem parked_iff {p : WorkerPc J} : Parked () p ↔ p = .wait .parked := by
  cases p <;> simp [Parked, Waiter.waiting]

theorem woken_iff {p : WorkerPc J} : Woken () p ↔ p = .wait .woken := by
  cases p <;> simp [Woken, Waiter.waiting]

/-- Has released `mu_` and not called `notify_one` yet. -/
def SubmitPc.owes : SubmitPc → Bool
  | .notify _ => true
  | _ => false

/-- Only a worker whose job is inside `submit` has a call in progress. -/
def Placed (s : Pool n S J) : Prop :=
  ∀ w, s.submits (.worker w) = .idle ∨ ∃ id resume, s.workers w = .submitting id resume

theorem Placed.notifyOne {s : Pool n S J} {ws : Fin n → WorkerPc J} {wakes : Option (Fin n)}
    (h : Placed s) (hn : CondVar.notifyOne () wakes s.workers = some ws) (w : Fin n) :
    s.submits (.worker w) = .idle ∨ ∃ id resume, ws w = .submitting id resume := by
  obtain hi | ⟨id, resume, hw⟩ := h w
  · exact .inl hi
  · refine .inr ⟨id, resume, ?_⟩
    rw [notifyOne_eq hn (by rw [hw, parked_iff]; simp), hw]

/-- A worker outside a call of its own moves, and stays outside one. -/
theorem Placed.move {s : Pool n S J} {w : Fin n} {p : WorkerPc J} (h : Placed s)
    (hw : ∀ id resume, s.workers w ≠ .submitting id resume) (v : Fin n) :
    s.submits (.worker v) = .idle ∨
      ∃ id resume, Function.update s.workers w p v = .submitting id resume := by
  by_cases hv : v = w
  · subst hv
    obtain hi | ⟨id, resume, hs⟩ := h v
    · exact .inl hi
    · exact absurd hs (hw id resume)
  · rw [Function.update_of_ne hv]
    exact h v

variable [DecidableEq S]

/-- A call in progress moves on. -/
theorem Placed.call {s : Pool n S J} {c : Caller n S} {p : SubmitPc} (h : Placed s)
    (hc : s.submits c ≠ .idle) (v : Fin n) :
    Function.update s.submits c p (.worker v) = .idle ∨
      ∃ id resume, s.workers v = .submitting id resume := by
  by_cases hv : .worker v = c
  · subst hv
    exact .inr ((h v).resolve_left hc)
  · rw [Function.update_of_ne hv]
    exact h v

theorem Placed.step {s t : Pool n S J} {a : Action n S J} (h : Placed s)
    (hs : step s a = some t) : Placed t := by
  intro v
  cases step_cases hs with
  | call hi => simpa [Pool.makeTask] using h v
  | refused hc => exact h.call (by rw [hc]; simp) v
  | accepted hc => exact h.call (by rw [hc]; simp) v
  | @notify c id wakes ws hc hn =>
    by_cases hv : .worker v = c
    · subst hv
      exact .inr ((h.notifyOne hn v).resolve_left (by rw [hc]; simp))
    · simpa only [Function.update_of_ne hv] using h.notifyOne hn v
  | ret hi => simpa [Pool.answer] using h v
  | park hw => exact h.move (by simp [hw]) v
  | exit hw => exact h.move (by simp [hw]) v
  | dequeue hw => exact h.move (by simp [hw]) v
  | spurious hw => exact h.move (by simp [hw]) v
  | invoke hw => exact h.move (by simp [hw]) v
  | finish hw => exact h.move (by simp [hw]) v
  | work hw => exact h.move (by simp [hw]) v
  | @submit w _ id _ _ _ resume hw =>
    by_cases hv : v = w
    · subst hv
      exact .inr ⟨id, resume, by simp [Pool.makeTask]⟩
    · simpa [Pool.makeTask, hv] using h v
  | @resume w =>
    by_cases hv : v = w
    · subst hv
      exact .inl (by simp [Pool.answer])
    · simpa [Pool.answer, hv] using h v
  | stop => exact h v
  | notifyAll =>
    obtain hi | ⟨id, resume, hw⟩ := h v
    · exact .inl hi
    · refine .inr ⟨id, resume, ?_⟩
      simp [CondVar.notifyAll, hw, parked_iff]
  | join => exact h v
  | joined => exact h v

theorem reachable_placed {s₀ s : Pool n S J} (h0 : make n S J = .ok s₀)
    (h : Machine.Reachable step s₀ s) : Placed s := by
  refine h.invariant (fun w => ?_) fun _ ih hs => ih.step hs
  obtain ⟨-, rfl⟩ := make_eq_ok h0
  exact .inl rfl

variable [Fintype S]

/-- How many submits owe a notification. -/
def pending (submits : Caller n S → SubmitPc) : Nat := count (fun p => p.owes = true) submits

theorem pending_update (submits : Caller n S → SubmitPc) (c : Caller n S) (p : SubmitPc) :
    pending (Function.update submits c p) + (if (submits c).owes = true then 1 else 0) =
      pending submits + (if p.owes = true then 1 else 0) :=
  count_update _ submits c p

/-- Nothing that is owed is lost while no submit that owes goes on. -/
theorem pending_le {submits : Caller n S → SubmitPc} {c : Caller n S} {p : SubmitPc}
    (hc : (submits c).owes = false) : pending submits ≤ pending (Function.update submits c p) := by
  have hsum := pending_update submits c p
  rw [hc, if_neg Bool.false_ne_true, Nat.add_zero] at hsum
  rw [hsum]
  exact Nat.le_add_right _ _

/-- The counting invariant of `cv_`. -/
structure Signalled (s : Pool n S J) : Prop where
  opened : s.stopping = false → Covered () s.workers (pending s.submits) s.queue.length
  stopped : s.stopping = true → ∀ w, s.workers w = .wait .parked → s.dtor = .notify
  dtor : s.stopping = false → s.dtor = .alive

omit [DecidableEq S] in
/-- Only callers move, and the notifications owed stay at least as many. -/
theorem Signalled.calls {s : Pool n S J} {submits : Caller n S → SubmitPc} {tasks : List (Task J)}
    {log : List (Event n J)} {submitted : List (SubmitEvent n S J)} (h : Signalled s)
    (hp : pending s.submits ≤ pending submits) :
    Signalled { s with submits, tasks, log, submitted } :=
  ⟨fun ho => (h.opened ho).mono (Nat.add_le_add_left hp _), h.stopped, h.dtor⟩

omit [DecidableEq S] in
/-- A worker that is not woken moves without going to sleep. -/
theorem Signalled.worker {s : Pool n S J} {w : Fin n} {p : WorkerPc J}
    {shared : Nat → Option (Except J.Err J.Result)} {log : List (Event n J)} (h : Signalled s)
    (hw : ∀ wt, s.workers w ≠ .wait wt) (hp : p ≠ .wait .parked) :
    Signalled { s with workers := Function.update s.workers w p, shared, log } := by
  refine ⟨fun ho => ?_, fun hs v hv => h.stopped hs v (of_update hv hp), h.dtor⟩
  refine (h.opened ho).move ?_ (by rw [parked_iff]; exact hp) ?_
  · rw [parked_iff]
    exact hw _
  · rw [if_neg (by rw [woken_iff]; exact hw _)]
    exact Nat.le_add_right _ _

omit [DecidableEq S] in
/-- While the destructor joins, the pool is stopped and nobody is parked. -/
theorem Signalled.joining {s : Pool n S J} {k : Nat} {d : DtorPc} (h : Signalled s)
    (hd : s.dtor = .join k) : Signalled { s with dtor := d } := by
  refine ⟨h.opened, ?_, ?_⟩
  · intro hst w hw
    rw [h.stopped hst w hw] at hd
    cases hd
  · intro ho
    rw [h.dtor ho] at hd
    cases hd

theorem Signalled.step {s t : Pool n S J} {a : Action n S J} (h : Signalled s) (hpl : Placed s)
    (hs : step s a = some t) : Signalled t := by
  cases step_cases hs with
  | @call i fn args hi =>
    exact h.calls (s := s) (pending_le (by rw [hi]; rfl))
  | @refused c id hc hstop =>
    exact h.calls (s := s) (pending_le (by rw [hc]; rfl))
  | @accepted c id hc hstop =>
    refine ⟨fun ho => (h.opened ho).mono ?_, h.stopped, h.dtor⟩
    have hsum := pending_update s.submits c (.notify id)
    simp only [hc, SubmitPc.owes, Bool.false_eq_true, if_true, if_false] at hsum
    simp only [List.length_append, List.length_singleton]
    omega
  | @notify c id wakes ws hc hn =>
    refine ⟨?_, ?_, h.dtor⟩
    · intro ho
      have hsum := pending_update s.submits c (.done (.ok id))
      simp only [hc, SubmitPc.owes, Bool.false_eq_true, if_true, if_false] at hsum
      have hcov := h.opened ho
      rw [← Nat.add_zero (pending s.submits), ← hsum] at hcov
      exact hcov.notifyOne hn
    · intro hst w hw
      exact h.stopped hst w (parked_iff.mp (notifyOne_parked hn (parked_iff.mpr hw)))
  | @ret i future hi =>
    exact h.calls (s := s) (pending_le (by rw [hi]; rfl))
  | park hw hwt hstop hq =>
    refine ⟨?_, ?_, h.dtor⟩
    · intro _
      rw [hq]
      exact covered_zero _ _ _
    · intro hst
      rw [hstop] at hst
      cases hst
  | exit hw hwt hstop hq =>
    refine ⟨fun ho => ?_, fun hst v hv => h.stopped hst v (of_update hv (by simp)), h.dtor⟩
    rw [hstop] at ho
    cases ho
  | @dequeue w wt job rest hw hwt hq =>
    refine ⟨fun ho => ?_, fun hst v hv => h.stopped hst v (of_update hv (by simp)), h.dtor⟩
    refine (h.opened ho).move ?_ (by simp [parked_iff]) ?_
    · rw [hw, parked_iff]
      simpa using hwt
    · rw [hq, if_neg (by simp [woken_iff] : ¬ Woken () (.holding job : WorkerPc J))]
      simp only [List.length_cons]
      split <;> omega
  | @spurious w hw =>
    have hwake : WorkerPc.wait .woken = Waiter.wake (s.workers w) := by rw [hw]; rfl
    refine ⟨fun ho => ?_, fun hst v hv => h.stopped hst v (of_update hv (by simp)), h.dtor⟩
    rw [hwake]
    exact (h.opened ho).wake (parked_iff.mpr hw)
  | invoke hw => exact h.worker (by simp [hw]) (by simp)
  | finish hw => exact h.worker (by simp [hw]) (by simp)
  | work hw => exact h.worker (by simp [hw]) (by simp)
  | @submit w _ id _ _ _ resume hw =>
    have hi : s.submits (.worker w) = .idle :=
      (hpl w).resolve_right fun ⟨_, _, hs⟩ => by rw [hw] at hs; cases hs
    exact (h.worker (by simp [hw]) (by simp)).calls (pending_le (by rw [hi]; rfl))
  | @resume w id resume future hw hd =>
    have hworker : Signalled
        { s with workers := Function.update s.workers w (.running id (resume future)) } :=
      h.worker (by simp [hw]) (by simp)
    exact hworker.calls (pending_le (by rw [hd]; rfl))
  | stop => exact ⟨nofun, fun _ _ _ => rfl, nofun⟩
  | notifyAll hd =>
    refine ⟨?_, ?_, ?_⟩
    · intro ho
      rw [h.dtor ho] at hd
      cases hd
    · intro _ w hw
      exact absurd (parked_iff.mpr hw) (notifyAll_not_parked () s.workers w)
    · intro ho
      rw [h.dtor ho] at hd
      cases hd
  | join hd => exact h.joining hd
  | joined hd => exact h.joining hd

/-- What the notifications guarantee in a state. `woken ()` counts the workers
woken from `cv_.wait` that have not re-checked their predicate yet. -/
structure NoStrandedJob (s : Pool n S J) : Prop where
  /-- Open, with a worker asleep: every queued job is paid for by a woken worker
  or by a submit about to notify. -/
  opened : s.stopping = false → (∃ w, s.workers w = .wait .parked) →
    s.queue.length ≤ woken () s.workers + pending s.submits
  /-- Stopping: a worker sleeps only before the destructor's `notify_all`. -/
  stopped : s.stopping = true → ∀ w, s.workers w = .wait .parked → s.dtor = .notify

theorem reachable_signalled {s₀ s : Pool n S J} (h0 : make n S J = .ok s₀)
    (h : Machine.Reachable step s₀ s) : Signalled s := by
  refine h.invariant ?_ fun hr ih hs => ih.step (reachable_placed h0 hr) hs
  obtain ⟨-, rfl⟩ := make_eq_ok h0
  exact ⟨fun _ => covered_zero _ _ _, nofun, fun _ => rfl⟩

/-- For any number of workers and submitting threads and any interleaving with
spurious wake-ups and arbitrary choices of `notify_one`, no reachable state has
a job stranded in the queue. -/
theorem threadPool_no_stranded_job {s₀ s : Pool n S J} (h0 : make n S J = .ok s₀)
    (h : Machine.Reachable step s₀ s) : NoStrandedJob s := by
  have hs := reachable_signalled h0 h
  refine ⟨fun ho hp => ?_, hs.stopped⟩
  obtain ⟨w, hw⟩ := hp
  exact hs.opened ho (parked_pos_iff.mpr ⟨w, parked_iff.mpr hw⟩)

/-- Callables that return their argument at once. -/
abbrev identity : Jobs where
  Fn := Unit
  Args := Nat
  St := Nat
  Result := Nat
  Err := Unit
  Env := Unit
  invoke := fun _ x => x
  act := fun x _ => .ret x

/-- Two workers sleep; a submit releases the lock, and only then notifies. -/
def oneSubmit : List (Action 2 Unit identity) :=
  (List.finRange 2).map .lock ++ [.call () () 7, .enter (.submitter ())]

theorem threadPool_no_stranded_job_oneSubmit :
    ∃ s₀ s, make 2 Unit identity = .ok s₀ ∧ Machine.run step s₀ oneSubmit = some s ∧
      s.queue = [0] ∧ pending s.submits = 1 ∧ NoStrandedJob s := by
  obtain ⟨s₀, h0⟩ : ∃ s₀, make 2 Unit identity = .ok s₀ := ⟨_, rfl⟩
  obtain ⟨s, hs, hqueue, hpending⟩ : ∃ s, Machine.run step s₀ oneSubmit = some s ∧
      s.queue = [0] ∧ pending s.submits = 1 := by
    obtain ⟨-, rfl⟩ := make_eq_ok h0
    exact ⟨_, rfl, rfl, rfl⟩
  exact ⟨s₀, s, h0, hs, hqueue, hpending,
    threadPool_no_stranded_job h0 (Machine.reachable_of_run hs)⟩

end BackendPatterns.ThreadPool
