import Mathlib.Tactic.DeriveFintype
import BackendPatterns.Lib.Machine
import BackendPatterns.Lib.CondVar

/-! # The thread pool

Workers, submitting threads and the destructor share a queue of jobs under
`mu_`. A job is a packaged task: a callable with its arguments, and a shared
state that its future reads. What callables do is a parameter; they may call
`submit` on the pool that runs them. -/

namespace BackendPatterns.ThreadPool
open BackendPatterns.Lib BackendPatterns.Lib.CondVar

/-- The next thing a running callable does. A `submit` of its own goes on with
the future it gets, or with the exception it sees. -/
inductive Act (Fn Args St Result Err : Type)
  | ret (r : Result)
  | throw (e : Err)
  | work (st : St)
  | submit (fn : Fn) (args : Args) (resume : Except String Nat → St)

/-- The callables. `Env` is what a callable reads besides its arguments. -/
structure Jobs where
  Fn : Type
  Args : Type
  St : Type
  Result : Type
  Err : Type
  Env : Type
  invoke : Fn → Args → St
  act : St → Env → Act Fn Args St Result Err

structure Task (J : Jobs) where
  fn : J.Fn
  args : J.Args

/-- Where a thread stands inside `submit`, having made task `id`. -/
inductive SubmitPc
  | idle
  | entry (id : Nat)
  | notify (id : Nat)
  | done (future : Except String Nat)

inductive WorkerPc (J : Jobs)
  | wait (w : Wait)
  | holding (id : Nat)
  | running (id : Nat) (st : J.St)
  | submitting (id : Nat) (resume : Except String Nat → J.St)
  | exited

instance {J : Jobs} : Waiter (WorkerPc J) Unit where
  waiting
    | .wait w => some ((), w)
    | _ => none
  wake
    | .wait _ => .wait .woken
    | p => p
  waiting_wake {p c} h := by
    cases p with
    | wait w => rfl
    | _ => cases h

/-- The destructor: not called, about to notify, joining worker `k`, returned. -/
inductive DtorPc
  | alive
  | notify
  | join (k : Nat)
  | done
  deriving DecidableEq

inductive Caller (n : Nat) (S : Type)
  | worker (w : Fin n)
  | submitter (i : S)
  deriving DecidableEq, Fintype

/-- What happened to tasks, for the statements only; no step reads it. -/
inductive Event (n : Nat) (J : Jobs)
  | accept (id : Nat)
  | refuse (id : Nat)
  | dequeue (w : Fin n) (id : Nat)
  | invoke (w : Fin n) (id : Nat)
  | finish (w : Fin n) (id : Nat) (outcome : Except J.Err J.Result)

/-- What `submit` was called with and what it gave back, for the statements only. -/
inductive SubmitEvent (n : Nat) (S : Type) (J : Jobs)
  | call (c : Caller n S) (fn : J.Fn) (args : J.Args)
  | ret (c : Caller n S) (future : Except String Nat)

/-- `tasks` are the packaged tasks made so far and `shared` their shared states:
empty, a result or an exception. -/
structure Pool (n : Nat) (S : Type) (J : Jobs) where
  queue : List Nat
  stopping : Bool
  workers : Fin n → WorkerPc J
  submits : Caller n S → SubmitPc
  dtor : DtorPc
  tasks : List (Task J)
  shared : Nat → Option (Except J.Err J.Result)
  log : List (Event n J)
  submitted : List (SubmitEvent n S J)

variable {n : Nat} {S : Type} {J : Jobs}

def make (threads : Nat) (S : Type) (J : Jobs) : Except String (Pool threads S J) :=
  if threads = 0 then .error "threads must be > 0"
  else .ok
    { queue := []
      stopping := false
      workers := fun _ => .wait .entry
      submits := fun _ => .idle
      dtor := .alive
      tasks := []
      shared := fun _ => none
      log := []
      submitted := [] }

theorem make_eq_ok {s : Pool n S J} (h : make n S J = .ok s) :
    0 < n ∧
      s =
        ⟨[], false, fun _ => .wait .entry, fun _ => .idle, .alive, [], fun _ => none, [], []⟩ := by
  unfold make at h
  split at h
  · cases h
  · rename_i hn
    cases h
    exact ⟨Nat.pos_of_ne_zero hn, rfl⟩

/-- The choices of the scheduler: who moves, whom `notify_one` wakes, and what a
callable reads. -/
inductive Action (n : Nat) (S : Type) (J : Jobs)
  | call (i : S) (fn : J.Fn) (args : J.Args)
  | enter (c : Caller n S)
  | notify (c : Caller n S) (wakes : Option (Fin n))
  | ret (i : S)
  | lock (w : Fin n)
  | spurious (w : Fin n)
  | invoke (w : Fin n)
  | run (w : Fin n) (env : J.Env)
  | resume (w : Fin n)
  | destroy

variable [DecidableEq S]

/-- `submit` up to its lock: the task and its future are made. -/
def Pool.makeTask (s : Pool n S J) (c : Caller n S) (fn : J.Fn) (args : J.Args) : Pool n S J :=
  { s with
    submits := Function.update s.submits c (.entry s.tasks.length)
    tasks := s.tasks ++ [⟨fn, args⟩]
    submitted := s.submitted ++ [.call c fn args] }

/-- The caller of `submit` gets its future, or the exception. -/
def Pool.answer (s : Pool n S J) (c : Caller n S) (future : Except String Nat) : Pool n S J :=
  { s with
    submits := Function.update s.submits c .idle
    submitted := s.submitted ++ [.ret c future] }

/-- The locked block of `submit`. -/
def Pool.enter (s : Pool n S J) (c : Caller n S) (id : Nat) : Pool n S J :=
  if s.stopping then
    { s with
      submits := Function.update s.submits c (.done (.error "submit on stopped ThreadPool"))
      log := s.log ++ [.refuse id] }
  else
    { s with
      queue := s.queue ++ [id]
      submits := Function.update s.submits c (.notify id)
      log := s.log ++ [.accept id] }

/-- The locked block of `worker_loop`, up to its end or to going to sleep. -/
def Pool.lock (s : Pool n S J) (w : Fin n) : Pool n S J :=
  if s.stopping || !s.queue.isEmpty then
    match s.queue with
    | [] => { s with workers := Function.update s.workers w .exited }
    | job :: rest =>
      { s with
        queue := rest
        workers := Function.update s.workers w (.holding job)
        log := s.log ++ [.dequeue w job] }
  else { s with workers := Function.update s.workers w (.wait .parked) }

/-- The packaged task stores how the call of its callable ended. -/
def Pool.finish (s : Pool n S J) (w : Fin n) (id : Nat) (outcome : Except J.Err J.Result) :
    Pool n S J :=
  { s with
    workers := Function.update s.workers w (.wait .entry)
    shared := Function.update s.shared id (some outcome)
    log := s.log ++ [.finish w id outcome] }

/-- The next step of the callable of task `id`. -/
def Pool.runJob (s : Pool n S J) (w : Fin n) (id : Nat) :
    Act J.Fn J.Args J.St J.Result J.Err → Pool n S J
  | .ret r => s.finish w id (.ok r)
  | .throw e => s.finish w id (.error e)
  | .work st => { s with workers := Function.update s.workers w (.running id st) }
  | .submit fn args resume =>
    { s with workers := Function.update s.workers w (.submitting id resume) }.makeTask
      (.worker w) fn args

/-- The next step of `~ThreadPool`. -/
def Pool.destroy (s : Pool n S J) : Option (Pool n S J) :=
  match s.dtor with
  | .alive => some { s with stopping := true, dtor := .notify }
  | .notify => some { s with workers := CondVar.notifyAll () s.workers, dtor := .join 0 }
  | .join k =>
    if h : k < n then
      match s.workers ⟨k, h⟩ with
      | .exited => some { s with dtor := .join (k + 1) }
      | _ => none
    else some { s with dtor := .done }
  | .done => none

def step (s : Pool n S J) : Action n S J → Option (Pool n S J)
  | .call i fn args =>
    match s.submits (.submitter i) with
    | .idle => some (s.makeTask (.submitter i) fn args)
    | _ => none
  | .enter c =>
    match s.submits c with
    | .entry id => some (s.enter c id)
    | _ => none
  | .notify c wakes =>
    match s.submits c with
    | .notify id => (notifyOne () wakes s.workers).map fun workers =>
        { s with workers, submits := Function.update s.submits c (.done (.ok id)) }
    | _ => none
  | .ret i =>
    match s.submits (.submitter i) with
    | .done future => some (s.answer (.submitter i) future)
    | _ => none
  | .lock w =>
    match s.workers w with
    | .wait .parked => none
    | .wait _ => some (s.lock w)
    | _ => none
  | .spurious w =>
    match s.workers w with
    | .wait .parked => some { s with workers := Function.update s.workers w (.wait .woken) }
    | _ => none
  | .invoke w =>
    match s.workers w with
    | .holding id =>
      match s.tasks[id]? with
      | some task => some { s with
          workers := Function.update s.workers w (.running id (J.invoke task.fn task.args))
          log := s.log ++ [.invoke w id] }
      | none => none
    | _ => none
  | .run w env =>
    match s.workers w with
    | .running id st => some (s.runJob w id (J.act st env))
    | _ => none
  | .resume w =>
    match s.workers w, s.submits (.worker w) with
    | .submitting id resume, .done future =>
      some ({ s with workers := Function.update s.workers w (.running id (resume future)) }.answer
        (.worker w) future)
    | _, _ => none
  | .destroy => s.destroy

/-- What each action does, guards included. -/
inductive Steps (s : Pool n S J) : Action n S J → Pool n S J → Prop
  | call {i : S} {fn : J.Fn} {args : J.Args} (hi : s.submits (.submitter i) = .idle) :
      Steps s (.call i fn args) (s.makeTask (.submitter i) fn args)
  | refused {c : Caller n S} {id : Nat} (hc : s.submits c = .entry id)
      (hstop : s.stopping = true) :
      Steps s (.enter c)
        { s with
          submits := Function.update s.submits c (.done (.error "submit on stopped ThreadPool"))
          log := s.log ++ [.refuse id] }
  | accepted {c : Caller n S} {id : Nat} (hc : s.submits c = .entry id)
      (hstop : s.stopping = false) :
      Steps s (.enter c)
        { s with
          queue := s.queue ++ [id]
          submits := Function.update s.submits c (.notify id)
          log := s.log ++ [.accept id] }
  | notify {c : Caller n S} {id : Nat} {wakes : Option (Fin n)} {ws : Fin n → WorkerPc J}
      (hc : s.submits c = .notify id) (hn : notifyOne () wakes s.workers = some ws) :
      Steps s (.notify c wakes)
        { s with workers := ws, submits := Function.update s.submits c (.done (.ok id)) }
  | ret {i : S} {future : Except String Nat} (hi : s.submits (.submitter i) = .done future) :
      Steps s (.ret i) (s.answer (.submitter i) future)
  | park {w : Fin n} {wt : Wait} (hw : s.workers w = .wait wt) (hwt : wt ≠ .parked)
      (hstop : s.stopping = false) (hq : s.queue = []) :
      Steps s (.lock w) { s with workers := Function.update s.workers w (.wait .parked) }
  | exit {w : Fin n} {wt : Wait} (hw : s.workers w = .wait wt) (hwt : wt ≠ .parked)
      (hstop : s.stopping = true) (hq : s.queue = []) :
      Steps s (.lock w) { s with workers := Function.update s.workers w .exited }
  | dequeue {w : Fin n} {wt : Wait} {job : Nat} {rest : List Nat} (hw : s.workers w = .wait wt)
      (hwt : wt ≠ .parked) (hq : s.queue = job :: rest) :
      Steps s (.lock w)
        { s with
          queue := rest
          workers := Function.update s.workers w (.holding job)
          log := s.log ++ [.dequeue w job] }
  | spurious {w : Fin n} (hw : s.workers w = .wait .parked) :
      Steps s (.spurious w) { s with workers := Function.update s.workers w (.wait .woken) }
  | invoke {w : Fin n} {id : Nat} {task : Task J} (hw : s.workers w = .holding id)
      (ht : s.tasks[id]? = some task) :
      Steps s (.invoke w)
        { s with
          workers := Function.update s.workers w (.running id (J.invoke task.fn task.args))
          log := s.log ++ [.invoke w id] }
  | finish {w : Fin n} {env : J.Env} {id : Nat} {st : J.St} {outcome : Except J.Err J.Result}
      (hw : s.workers w = .running id st)
      (hact : (∃ r, J.act st env = .ret r ∧ outcome = .ok r) ∨
        ∃ e, J.act st env = .throw e ∧ outcome = .error e) :
      Steps s (.run w env) (s.finish w id outcome)
  | work {w : Fin n} {env : J.Env} {id : Nat} {st st' : J.St} (hw : s.workers w = .running id st)
      (hact : J.act st env = .work st') :
      Steps s (.run w env) { s with workers := Function.update s.workers w (.running id st') }
  | submit {w : Fin n} {env : J.Env} {id : Nat} {st : J.St} {fn : J.Fn} {args : J.Args}
      {resume : Except String Nat → J.St} (hw : s.workers w = .running id st)
      (hact : J.act st env = .submit fn args resume) :
      Steps s (.run w env)
        ({ s with workers := Function.update s.workers w (.submitting id resume) }.makeTask
          (.worker w) fn args)
  | resume {w : Fin n} {id : Nat} {resume : Except String Nat → J.St}
      {future : Except String Nat} (hw : s.workers w = .submitting id resume)
      (hs : s.submits (.worker w) = .done future) :
      Steps s (.resume w)
        ({ s with workers := Function.update s.workers w (.running id (resume future)) }.answer
          (.worker w) future)
  | stop (hd : s.dtor = .alive) : Steps s .destroy { s with stopping := true, dtor := .notify }
  | notifyAll (hd : s.dtor = .notify) :
      Steps s .destroy { s with workers := CondVar.notifyAll () s.workers, dtor := .join 0 }
  | join {k : Nat} (hd : s.dtor = .join k) (hk : k < n) (hw : s.workers ⟨k, hk⟩ = .exited) :
      Steps s .destroy { s with dtor := .join (k + 1) }
  | joined {k : Nat} (hd : s.dtor = .join k) (hk : n ≤ k) :
      Steps s .destroy { s with dtor := .done }

theorem enter_steps {s : Pool n S J} {c : Caller n S} {id : Nat} (hc : s.submits c = .entry id) :
    Steps s (.enter c) (s.enter c id) := by
  unfold Pool.enter
  split
  · rename_i hstop
    exact .refused hc hstop
  · rename_i hstop
    exact .accepted hc (by simpa using hstop)

theorem lock_steps {s : Pool n S J} {w : Fin n} {wt : Wait} (hw : s.workers w = .wait wt)
    (hwt : wt ≠ .parked) : Steps s (.lock w) (s.lock w) := by
  unfold Pool.lock
  split
  · rename_i hready
    split
    · rename_i hq
      exact .exit hw hwt (by simpa [hq] using hready) hq
    · rename_i job rest hq
      exact .dequeue hw hwt hq
  · rename_i hready
    simp only [Bool.or_eq_true, Bool.not_eq_true', not_or, Bool.not_eq_true,
      Bool.not_eq_false] at hready
    exact .park hw hwt hready.1 (List.isEmpty_iff.mp hready.2)

theorem runJob_steps {s : Pool n S J} {w : Fin n} {id : Nat} {st : J.St} (env : J.Env)
    (hw : s.workers w = .running id st) : Steps s (.run w env) (s.runJob w id (J.act st env)) := by
  cases hact : J.act st env with
  | ret r => exact .finish hw (.inl ⟨r, hact, rfl⟩)
  | throw e => exact .finish hw (.inr ⟨e, hact, rfl⟩)
  | work st' => exact .work hw hact
  | submit fn args resume => exact .submit hw hact

theorem destroy_steps {s t : Pool n S J} (h : s.destroy = some t) : Steps s .destroy t := by
  unfold Pool.destroy at h
  split at h
  · rename_i hd
    cases h
    exact .stop hd
  · rename_i hd
    cases h
    exact .notifyAll hd
  · rename_i k hd
    split at h
    · rename_i hk
      split at h
      · rename_i hw
        cases h
        exact .join hd hk hw
      · cases h
    · rename_i hk
      cases h
      exact .joined hd (Nat.le_of_not_lt hk)
  · cases h

theorem step_cases {s t : Pool n S J} {a : Action n S J} (h : step s a = some t) :
    Steps s a t := by
  cases a with
  | call i fn args =>
    simp only [step] at h
    split at h
    · rename_i hi
      cases h
      exact .call hi
    · cases h
  | enter c =>
    simp only [step] at h
    split at h
    · rename_i id hc
      cases h
      exact enter_steps hc
    · cases h
  | notify c wakes =>
    simp only [step] at h
    split at h
    · rename_i id hc
      obtain ⟨ws, hn, rfl⟩ := Option.map_eq_some_iff.mp h
      exact .notify hc hn
    · cases h
  | ret i =>
    simp only [step] at h
    split at h
    · rename_i hi
      cases h
      exact .ret hi
    · cases h
  | lock w =>
    simp only [step] at h
    split at h
    · cases h
    · rename_i wt hwt hw
      cases h
      exact lock_steps hw (by rintro rfl; exact hwt rfl)
    · cases h
  | spurious w =>
    simp only [step] at h
    split at h
    · rename_i hw
      cases h
      exact .spurious hw
    · cases h
  | invoke w =>
    simp only [step] at h
    split at h
    · rename_i id hw
      split at h
      · rename_i task ht
        cases h
        exact .invoke hw ht
      · cases h
    · cases h
  | run w env =>
    simp only [step] at h
    split at h
    · rename_i id st hw
      cases h
      exact runJob_steps env hw
    · cases h
  | resume w =>
    simp only [step] at h
    split at h
    · rename_i id resume future hw hs
      cases h
      exact .resume hw hs
    · cases h
  | destroy => exact destroy_steps h

end BackendPatterns.ThreadPool
