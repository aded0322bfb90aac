import BackendPatterns.ThreadPool.Futures

/-! # The thread pool runs every accepted job exactly once

The callable that runs for a task started from that task's callable and
arguments, which are those of the submit that has its future, and what it ends with
is stored for that task and never again. A worker leaves only a stopping and empty
pool, so joining the workers drains it. -/

namespace BackendPatterns.ThreadPool
open BackendPatterns.Lib BackendPatterns.Lib.CondVar BackendPatterns.Lib.Threads

variable {n : Nat} {S : Type} {J : Jobs}

/-! ## What a callable can end with -/

/-- How a running callable gets on, whatever its own submits answer it. -/
inductive Runs (J : Jobs) (start : J.St) : J.St → Prop
  | start : Runs J start start
  | work {st st' : J.St} {env : J.Env} (h : Runs J start st) (ha : J.act st env = .work st') :
      Runs J start st'
  | submit {st : J.St} {env : J.Env} {fn : J.Fn} {args : J.Args}
      {resume : Except String Nat → J.St} (h : Runs J start st)
      (ha : J.act st env = .submit fn args resume) (future : Except String Nat) :
      Runs J start (resume future)

/-- A call of the task's callable with the task's arguments can end so. -/
def Task.Ends (task : Task J) (outcome : Except J.Err J.Result) : Prop :=
  ∃ st env, Runs J (J.invoke task.fn task.args) st ∧
    ((∃ r, J.act st env = .ret r ∧ outcome = .ok r) ∨
      ∃ e, J.act st env = .throw e ∧ outcome = .error e)

/-! ## What is stored -/

/-- The callable of task `id` can have come to `st`. -/
def Pool.Came (s : Pool n S J) (id : Nat) (st : J.St) : Prop :=
  ∃ task, s.tasks[id]? = some task ∧ Runs J (J.invoke task.fn task.args) st

structure Outcomes (s : Pool n S J) : Prop where
  running : ∀ w id st, s.workers w = .running id st → s.Came id st
  submitting : ∀ w id resume, s.workers w = .submitting id resume → ∀ future,
    s.Came id (resume future)
  ends : ∀ id outcome, s.shared id = some outcome →
    ∃ task, s.tasks[id]? = some task ∧ task.Ends outcome
  stored : ∀ id outcome, s.shared id = some outcome ↔ ∃ w, .finish w id outcome ∈ s.log

theorem Pool.Came.mono {s t : Pool n S J} {id : Nat} {st : J.St} (h : s.Came id st)
    (ht : ∃ l, t.tasks = s.tasks ++ l) : t.Came id st := by
  obtain ⟨task, htask, hr⟩ := h
  obtain ⟨l, hl⟩ := ht
  refine ⟨task, ?_, hr⟩
  rw [hl, List.getElem?_append_left (List.getElem?_eq_some_iff.mp htask).1, htask]

/-- A step that ends no call: running callables come from where they were, or
from a place the step has checked. -/
theorem Outcomes.frame {s t : Pool n S J} (h : Outcomes s) (ht : ∃ l, t.tasks = s.tasks ++ l)
    (hr : ∀ w id st, t.workers w = .running id st → s.workers w = .running id st ∨ s.Came id st)
    (hsub : ∀ w id resume, t.workers w = .submitting id resume →
      s.workers w = .submitting id resume ∨ ∀ future, s.Came id (resume future))
    (hsh : t.shared = s.shared)
    (hl : ∀ w id outcome, .finish w id outcome ∈ t.log ↔ .finish w id outcome ∈ s.log) :
    Outcomes t := by
  refine ⟨?_, ?_, ?_, ?_⟩
  · intro w id st hw
    obtain hs | hc := hr w id st hw
    · exact (h.running w id st hs).mono ht
    · exact hc.mono ht
  · intro w id resume hw future
    obtain hs | hc := hsub w id resume hw
    · exact (h.submitting w id resume hs future).mono ht
    · exact (hc future).mono ht
  · intro id outcome ho
    rw [hsh] at ho
    obtain ⟨task, htask, he⟩ := h.ends id outcome ho
    obtain ⟨l, hl⟩ := ht
    refine ⟨task, ?_, he⟩
    rw [hl, List.getElem?_append_left (List.getElem?_eq_some_iff.mp htask).1, htask]
  · intro id outcome
    rw [hsh, h.stored]
    simp only [hl]

/-- Only `w` moves, to a place that runs no callable or that has been checked. -/
theorem Outcomes.worker {s t : Pool n S J} {w : Fin n} {p : WorkerPc J} (h : Outcomes s)
    (ht : ∃ l, t.tasks = s.tasks ++ l) (hw : t.workers = Function.update s.workers w p)
    (hr : ∀ id st, p = .running id st → s.Came id st)
    (hsub : ∀ id resume, p = .submitting id resume → ∀ future, s.Came id (resume future))
    (hsh : t.shared = s.shared)
    (hl : ∀ w id outcome, .finish w id outcome ∈ t.log ↔ .finish w id outcome ∈ s.log) :
    Outcomes t := by
  refine h.frame ht (fun v id st hv => ?_) (fun v id resume hv => ?_) hsh hl
  · rw [hw] at hv
    by_cases hvw : v = w
    · subst hvw
      rw [Function.update_self] at hv
      exact .inr (hr id st hv)
    · rw [Function.update_of_ne hvw] at hv
      exact .inl hv
  · rw [hw] at hv
    by_cases hvw : v = w
    · subst hvw
      rw [Function.update_self] at hv
      exact .inr (hsub id resume hv)
    · rw [Function.update_of_ne hvw] at hv
      exact .inl hv

/-- A notification changes no place that runs a callable. -/
theorem Outcomes.wakes {s t : Pool n S J} (h : Outcomes s) (ht : t.tasks = s.tasks)
    (hw : ∀ v, t.workers v = s.workers v ∨ ∃ wt, t.workers v = .wait wt)
    (hsh : t.shared = s.shared) (hl : t.log = s.log) : Outcomes t := by
  refine h.frame ⟨[], by simp [ht]⟩ (fun v id st hv => ?_) (fun v id resume hv => ?_) hsh
    (by simp [hl])
  · obtain hs | ⟨wt, hs⟩ := hw v
    · exact .inl (hs ▸ hv)
    · rw [hs] at hv
      cases hv
  · obtain hs | ⟨wt, hs⟩ := hw v
    · exact .inl (hs ▸ hv)
    · rw [hs] at hv
      cases hv

/-- The call of task `id` ends, and its shared state was empty. -/
theorem Outcomes.finish {s : Pool n S J} {w : Fin n} {id : Nat} {st : J.St} {env : J.Env}
    {outcome : Except J.Err J.Result} (h : Outcomes s) (hnew : id ∉ finished s.log)
    (hw : s.workers w = .running id st)
    (hact : (∃ r, J.act st env = .ret r ∧ outcome = .ok r) ∨
      ∃ e, J.act st env = .throw e ∧ outcome = .error e) : Outcomes (s.finish w id outcome) := by
  refine ⟨?_, ?_, ?_, ?_⟩
  · intro v id' st' hv
    exact h.running v id' st' (of_update hv (by simp))
  · intro v id' resume hv
    exact h.submitting v id' resume (of_update hv (by simp))
  · intro id' outcome' ho
    by_cases hid : id' = id
    · subst hid
      simp only [Pool.finish, Function.update_self, Option.some.injEq] at ho
      subst ho
      obtain ⟨task, htask, hr⟩ := h.running w id' st hw
      exact ⟨task, htask, st, env, hr, hact⟩
    · simp only [Pool.finish, Function.update_of_ne hid] at ho
      exact h.ends id' outcome' ho
  · intro id' outcome'
    by_cases hid : id' = id
    · subst hid
      have hold : ∀ v o, .finish v id' o ∉ s.log := fun v o hmem =>
        hnew (mem_finished.mpr ⟨v, o, hmem⟩)
      simp [Pool.finish, hold, eq_comm]
    · simp only [Pool.finish, Function.update_of_ne hid, h.stored, List.mem_append,
        List.mem_singleton, Event.finish.injEq, hid, false_and, and_false, or_false]

variable [DecidableEq S]

theorem Outcomes.step {s t : Pool n S J} {a : Action n S J} (h : Outcomes s) (hacc : Accounts s)
    (hids : Ids s) (hs : step s a = some t) : Outcomes t := by
  have hnil : ∃ l, s.tasks = s.tasks ++ l := ⟨[], (List.append_nil _).symm⟩
  have hlog : ∀ w id outcome, .finish w id outcome ∈ s.log ↔ .finish w id outcome ∈ s.log :=
    fun _ _ _ => Iff.rfl
  have hrun : ∀ {p : WorkerPc J}, (∀ id st, p ≠ .running id st) →
      ∀ id st, p = .running id st → s.Came id st := fun hp id st he => absurd he (hp id st)
  have hsub : ∀ {p : WorkerPc J}, (∀ id resume, p ≠ .submitting id resume) →
      ∀ id resume, p = .submitting id resume → ∀ future, s.Came id (resume future) :=
    fun hp id resume he => absurd he (hp id resume)
  cases step_cases hs with
  | call => exact h.frame ⟨_, rfl⟩ (fun _ _ _ => .inl) (fun _ _ _ => .inl) rfl hlog
  | refused => exact h.frame hnil (fun _ _ _ => .inl) (fun _ _ _ => .inl) rfl (by simp)
  | accepted => exact h.frame hnil (fun _ _ _ => .inl) (fun _ _ _ => .inl) rfl (by simp)
  | @notify c id wakes ws hc hn =>
    refine h.wakes rfl (fun v => ?_) rfl rfl
    rcases notifyOne_cases hn with ⟨rfl, _⟩ | ⟨j, hj, rfl⟩
    · exact .inl rfl
    · by_cases hv : v = j
      · subst hv
        refine .inr ⟨.woken, ?_⟩
        simp only [Function.update_self, parked_iff.mp hj]
        rfl
      · exact .inl (Function.update_of_ne hv _ _)
  | ret => exact h.frame hnil (fun _ _ _ => .inl) (fun _ _ _ => .inl) rfl hlog
  | park => exact h.worker hnil rfl (hrun (by simp)) (hsub (by simp)) rfl hlog
  | exit => exact h.worker hnil rfl (hrun (by simp)) (hsub (by simp)) rfl hlog
  | dequeue => exact h.worker hnil rfl (hrun (by simp)) (hsub (by simp)) rfl (by simp)
  | spurious => exact h.worker hnil rfl (hrun (by simp)) (hsub (by simp)) rfl hlog
  | @invoke w id task hw ht =>
    refine h.worker hnil rfl (fun id' st he => ?_) (hsub (by simp)) rfl (by simp)
    cases he
    exact ⟨task, ht, .start⟩
  | @finish w env id st outcome hw hact =>
    exact h.finish (hacc.unfinished hids (w := w) (by simp [hw, active])) hw hact
  | @work w env id st st' hw hact =>
    refine h.worker hnil rfl (fun id' st₁ he => ?_) (hsub (by simp)) rfl hlog
    cases he
    obtain ⟨task, ht, hr⟩ := h.running w id st hw
    exact ⟨task, ht, hr.work hact⟩
  | @submit w env id st fn args resume hw hact =>
    refine h.worker ⟨_, rfl⟩ rfl (hrun (by simp)) (fun id' resume' he future => ?_) rfl hlog
    cases he
    obtain ⟨task, ht, hr⟩ := h.running w id st hw
    exact ⟨task, ht, hr.submit hact future⟩
  | @resume w id resume future hw =>
    refine h.worker hnil rfl (fun id' st he => ?_) (hsub (by simp)) rfl hlog
    cases he
    exact h.submitting w id resume hw future
  | stop => exact h.frame hnil (fun _ _ _ => .inl) (fun _ _ _ => .inl) rfl hlog
  | notifyAll =>
    refine h.wakes rfl (fun v => ?_) rfl rfl
    by_cases hp : s.workers v = .wait .parked
    · refine .inr ⟨.woken, ?_⟩
      simp only [CondVar.notifyAll, hp, parked_iff, if_true]
      rfl
    · exact .inl (by simp [CondVar.notifyAll, parked_iff, hp])
  | join => exact h.frame hnil (fun _ _ _ => .inl) (fun _ _ _ => .inl) rfl hlog
  | joined => exact h.frame hnil (fun _ _ _ => .inl) (fun _ _ _ => .inl) rfl hlog

theorem reachable_outcomes {s₀ s : Pool n S J} (h0 : make n S J = .ok s₀)
    (h : Machine.Reachable step s₀ s) : Outcomes s := by
  refine h.invariant ?_ fun hr ih hs =>
    ih.step (reachable_accounts h0 hr) (reachable_ids h0 hr) hs
  obtain ⟨-, rfl⟩ := make_eq_ok h0
  exact ⟨nofun, nofun, nofun, by simp⟩

/-! ## Leaving -/

/-- How many workers the destructor has joined. -/
def DtorPc.joined (n : Nat) : DtorPc → Nat
  | .alive | .notify => 0
  | .join k => k
  | .done => n

structure Exits (s : Pool n S J) : Prop where
  drained : ∀ w, s.workers w = .exited → s.stopping = true ∧ s.queue = []
  joined : ∀ w : Fin n, w < s.dtor.joined n → s.workers w = .exited

/-- Who has exited stays so. -/
theorem exited_stays {s t : Pool n S J} {a : Action n S J} (hs : step s a = some t) {v : Fin n}
    (hv : s.workers v = .exited) : t.workers v = .exited := by
  have hne : ∀ {w : Fin n} {p q : WorkerPc J}, s.workers w = q → q ≠ .exited →
      Function.update s.workers w p v = .exited := by
    intro w p q hw hq
    have hvw : v ≠ w := fun he => hq (by rw [← hw, ← he, hv])
    rw [Function.update_of_ne hvw, hv]
  cases step_cases hs with
  | notify _ hn =>
    have hnp : ¬ Parked () (s.workers v) := by rw [hv, parked_iff]; simp
    exact (notifyOne_eq hn hnp).trans hv
  | notifyAll => simp [CondVar.notifyAll, parked_iff, hv]
  | park hw => exact hne hw (by simp)
  | exit hw => exact hne hw (by simp)
  | dequeue hw => exact hne hw (by simp)
  | spurious hw => exact hne hw (by simp)
  | invoke hw => exact hne hw (by simp)
  | finish hw => exact hne hw (by simp)
  | work hw => exact hne hw (by simp)
  | submit hw => exact hne hw (by simp)
  | resume hw => exact hne hw (by simp)
  | _ => exact hv

/-- A stopping pool with an empty queue stays so: no submit is accepted. -/
theorem drained_stays {s t : Pool n S J} {a : Action n S J} (hs : step s a = some t)
    (h : s.stopping = true ∧ s.queue = []) : t.stopping = true ∧ t.queue = [] := by
  cases step_cases hs with
  | accepted _ hstop => rw [h.1] at hstop; cases hstop
  | dequeue _ _ hq => rw [h.2] at hq; cases hq
  | stop => exact ⟨rfl, h.2⟩
  | _ => exact h

theorem Exits.step {s t : Pool n S J} {a : Action n S J} (h : Exits s) (hs : step s a = some t) :
    Exits t := by
  constructor
  · intro v hv
    by_cases hold : s.workers v = .exited
    · exact drained_stays hs (h.drained v hold)
    · cases step_cases hs with
      | @exit w wt hw hwt hstop hq => exact ⟨hstop, hq⟩
      | notify _ hn =>
        dsimp only at hv
        have hnw : ¬ Woken () (WorkerPc.exited : WorkerPc J) := by rw [woken_iff]; simp
        exact absurd ((notifyOne_of_not_woken hn (by rw [hv]; exact hnw)).trans hv) hold
      | notifyAll =>
        simp only [CondVar.notifyAll] at hv
        split at hv
        · rename_i hp
          rw [parked_iff.mp hp] at hv
          cases hv
        · exact absurd hv hold
      | call => exact absurd hv hold
      | refused => exact absurd hv hold
      | accepted => exact absurd hv hold
      | ret => exact absurd hv hold
      | stop => exact absurd hv hold
      | join => exact absurd hv hold
      | joined => exact absurd hv hold
      | _ => exact absurd (of_update hv (by simp)) hold
  · intro v hv
    have hstay : s.workers v = .exited → t.workers v = .exited := exited_stays hs
    cases step_cases hs with
    | notifyAll => exact absurd hv (Nat.not_lt_zero _)
    | stop => exact absurd hv (Nat.not_lt_zero _)
    | @join k hd hk hw =>
      rcases Nat.lt_succ_iff_lt_or_eq.mp hv with hlt | heq
      · exact h.joined v (by rw [hd]; exact hlt)
      · have hvk : v = ⟨k, hk⟩ := Fin.ext heq
        rw [hvk]
        exact hw
    | @joined k hd hk => exact h.joined v (by rw [hd]; exact Nat.lt_of_lt_of_le v.isLt hk)
    | _ => exact hstay (h.joined v hv)

theorem reachable_exits {s₀ s : Pool n S J} (h0 : make n S J = .ok s₀)
    (h : Machine.Reachable step s₀ s) : Exits s := by
  refine h.invariant ?_ fun _ ih hs => ih.step hs
  obtain ⟨-, rfl⟩ := make_eq_ok h0
  exact ⟨nofun, fun _ hw => absurd hw (Nat.not_lt_zero _)⟩

/-- What the pool promises about the jobs in a state. -/
structure ExactlyOnce (s : Pool n S J) : Prop where
  /-- Workers take the jobs in the order in which they were pushed. -/
  order : accepted s.log = dequeued s.log ++ s.queue
  /-- Every accepted submit has a task of its own. -/
  distinct : (accepted s.log).Nodup
  /-- No callable is invoked twice, and none of a submit that was not accepted. -/
  once : (invoked s.log).Nodup ∧ ∀ id ∈ invoked s.log, id ∈ accepted s.log
  /-- What a caller gets from `submit` is the answer to its last call: the future of an
  accepted task with the callable and the arguments of that call, or the exception. -/
  answered : ∀ l c future l', s.submitted = l ++ .ret c future :: l' →
    ∃ fn args, lastOf c l = some (.call c fn args) ∧ s.Answers fn args future
  /-- No two submits return the same future. -/
  unshared : (futures s.submitted).Nodup
  /-- A future holds what a call of its own callable and arguments can end with. -/
  own : ∀ id outcome, s.shared id = some outcome →
    ∃ task, s.tasks[id]? = some task ∧ task.Ends outcome
  /-- A future holds what the call that was made for it ended with. -/
  stored : ∀ id outcome, s.shared id = some outcome ↔ ∃ w, .finish w id outcome ∈ s.log
  /-- Neither a task nor what its future holds ever changes. -/
  kept : ∀ (a : Action n S J) (t : Pool n S J), step s a = some t →
    (∀ (id : Nat) (task : Task J), s.tasks[id]? = some task → t.tasks[id]? = some task) ∧
      ∀ id outcome, s.shared id = some outcome → t.shared id = some outcome
  /-- A submit that locks a stopping pool throws and pushes nothing. -/
  refused : s.stopping = true → ∀ c id, s.submits c = .entry id →
    ∀ t : Pool n S J, step s (.enter c) = some t → t.queue = s.queue ∧
      t.submits c = .done (.error "submit on stopped ThreadPool")
  /-- With all workers joined, every accepted job was invoked and has finished. -/
  joined : n ≤ s.dtor.joined n → s.queue = [] ∧
    ∀ id ∈ accepted s.log, id ∈ invoked s.log ∧ (s.shared id).isSome

theorem Outcomes.kept {s t : Pool n S J} {a : Action n S J}
    (hs : ThreadPool.step s a = some t) (ht : Outcomes t) {id : Nat}
    {outcome : Except J.Err J.Result}
    (h : ∃ w, .finish w id outcome ∈ s.log) : t.shared id = some outcome := by
  obtain ⟨w, hw⟩ := h
  refine (ht.stored id outcome).mpr ⟨w, ?_⟩
  cases step_cases hs with
  | refused => exact List.mem_append_left _ hw
  | accepted => exact List.mem_append_left _ hw
  | dequeue => exact List.mem_append_left _ hw
  | invoke => exact List.mem_append_left _ hw
  | finish => exact List.mem_append_left _ hw
  | _ => exact hw

omit [DecidableEq S] in
/-- Joining the workers leaves no job behind. -/
theorem Exits.all_finished {s : Pool n S J} (hn : 0 < n) (h : Exits s) (hacc : Accounts s)
    (hj : n ≤ s.dtor.joined n) : s.queue = [] ∧
      ∀ id ∈ accepted s.log, id ∈ invoked s.log ∧ id ∈ finished s.log := by
  have hexited : ∀ w, s.workers w = .exited := fun w =>
    h.joined w (Nat.lt_of_lt_of_le w.isLt hj)
  have hq : s.queue = [] := (h.drained ⟨0, hn⟩ (hexited _)).2
  have htaken := hacc.taken
  have hcalled := hacc.called
  simp only [hexited, held, active, Finset.sum_const_zero, add_zero] at htaken hcalled
  refine ⟨hq, fun id hid => ?_⟩
  rw [hacc.order, hq, List.append_nil, ← Multiset.mem_coe, htaken] at hid
  refine ⟨Multiset.mem_coe.mp hid, ?_⟩
  rw [hcalled] at hid
  exact Multiset.mem_coe.mp hid

/-- For any number of workers and submitting threads, any callables and any
interleaving with the destructor, every reachable state has run no accepted job
twice, and one whose workers are joined has run all of them. -/
theorem threadPool_exactly_once {s₀ s : Pool n S J} (h0 : make n S J = .ok s₀)
    (h : Machine.Reachable step s₀ s) : ExactlyOnce s := by
  have hids := reachable_ids h0 h
  have hacc := reachable_accounts h0 h
  have hsub := reachable_submits h0 h
  have hout := reachable_outcomes h0 h
  refine ⟨hacc.order, hids.nodup, ⟨hacc.invoked_nodup hids, fun id hid => ?_⟩, hsub.answered,
    hsub.nodup, hout.ends, hout.stored,
    fun a t hs => ⟨(grows_of_step hs).tasks, fun id outcome ho => ?_⟩, ?_, ?_⟩
  · rw [hacc.order]
    refine List.mem_append_left _ (Multiset.mem_coe.mp ?_)
    rw [hacc.taken]
    exact Multiset.mem_add.mpr (.inl (Multiset.mem_coe.mpr hid))
  · exact (reachable_outcomes h0 (h.next hs)).kept hs ((hout.stored id outcome).mp ho)
  · intro hstop c id hc t hs
    cases step_cases hs with
    | refused => exact ⟨rfl, by simp⟩
    | accepted _ hopen => rw [hstop] at hopen; cases hopen
  · intro hj
    obtain ⟨hq, hall⟩ := (reachable_exits h0 h).all_finished (make_eq_ok h0).1 hacc hj
    refine ⟨hq, fun id hid => ⟨(hall id hid).1, ?_⟩⟩
    obtain ⟨w, outcome, hmem⟩ := mem_finished.mp (hall id hid).2
    rw [(hout.stored id outcome).mpr ⟨w, hmem⟩]
    rfl

/-- A callable `2` submits `1` and returns what it was told; others return. -/
abbrev nested : Jobs where
  Fn := Unit
  Args := Nat
  St := Nat × Option (Except String Nat)
  Result := Option (Except String Nat)
  Err := Unit
  Env := Unit
  invoke := fun _ x => (x, none)
  act := fun st _ => match st with
    | (2, none) => .submit () 1 fun future => (2, some future)
    | (_, answer) => .ret answer

/-- The destructor sets `stopping_` while a job waits in the queue; the job is
run all the same, and the submit it makes is refused. -/
def drain : List (Action 1 Unit nested) :=
  let w := Fin.last 0
  [.call () () 2, .enter (.submitter ()), .notify (.submitter ()) none, .ret (), .destroy, .destroy,
    .lock w, .invoke w, .run w (), .enter (.worker w), .resume w, .run w (), .lock w, .destroy,
    .destroy]

theorem threadPool_exactly_once_drain :
    ∃ s₀ s, make 1 Unit nested = .ok s₀ ∧ Machine.run step s₀ drain = some s ∧
      s.queue = [] ∧ s.dtor = .done ∧ futures s.submitted = [0] ∧
      s.shared 0 = some (.ok (some (.error "submit on stopped ThreadPool"))) ∧
      ExactlyOnce s := by
  obtain ⟨s₀, h0⟩ : ∃ s₀, make 1 Unit nested = .ok s₀ := ⟨_, rfl⟩
  obtain ⟨s, hs, hqueue, hdtor, hfutures, hshared⟩ : ∃ s, Machine.run step s₀ drain = some s ∧
      s.queue = [] ∧ s.dtor = .done ∧ futures s.submitted = [0] ∧
      s.shared 0 = some (.ok (some (.error "submit on stopped ThreadPool"))) := by
    obtain ⟨-, rfl⟩ := make_eq_ok h0
    exact ⟨_, rfl, rfl, rfl, rfl, rfl⟩
  exact ⟨s₀, s, h0, hs, hqueue, hdtor, hfutures, hshared,
    threadPool_exactly_once h0 (Machine.reachable_of_run hs)⟩

end BackendPatterns.ThreadPool
