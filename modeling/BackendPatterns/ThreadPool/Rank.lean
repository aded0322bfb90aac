import Mathlib.Algebra.Order.BigOperators.Group.Finset
import BackendPatterns.ThreadPool.Liveness

/-! # What the pool still has to do

A rank of the pool counts the steps that the queued and the running jobs, the
calls of `submit` and the destructor can still take. Callables come with a bound
on their own work; what they submit is not part of it, so jobs may go on
submitting each other for ever, until the pool stops. -/

namespace BackendPatterns.ThreadPool
open BackendPatterns.Lib BackendPatterns.Lib.CondVar BackendPatterns.Lib.Threads

variable {n : Nat} {S : Type} {J : Jobs} {cost : J.St → Nat} {k : Nat}

/-- `cost` bounds what a callable still does itself, whatever it reads and
whatever its submits answer. -/
structure Terminates (J : Jobs) (cost : J.St → Nat) : Prop where
  work : ∀ st env st', J.act st env = .work st' → cost st' < cost st
  submit : ∀ st env fn args resume, J.act st env = .submit fn args resume →
    ∀ future, cost (resume future) < cost st

/-- Callables that never call `submit`. -/
def Jobs.Flat (J : Jobs) : Prop :=
  ∀ st env fn args resume, J.act st env ≠ .submit fn args resume

/-- A job from its first step on; the worker then looks for another one. -/
def jobRank (cost : J.St → Nat) (task : Task J) : Nat := 4 * cost (J.invoke task.fn task.args) + 3

def idRank (cost : J.St → Nat) (tasks : List (Task J)) (id : Nat) : Nat :=
  (tasks[id]?).elim 0 (jobRank cost)

/-- A worker, with the call its job may be in. -/
def workerRank (cost : J.St → Nat) (tasks : List (Task J)) : WorkerPc J → SubmitPc → Nat
  | .wait .parked, _ => 1
  | .wait _, _ => 2
  | .holding id, _ => idRank cost tasks id + 1
  | .running _ st, _ => 4 * cost st + 3
  | .submitting _ resume, .entry _ =>
    4 * cost (resume (.error "submit on stopped ThreadPool")) + 5
  | .submitting _ resume, .notify id => 4 * cost (resume (.ok id)) + 4
  | .submitting _ resume, .done future => 4 * cost (resume future) + 4
  | .submitting _ _, .idle => 0
  | .exited, _ => 0

/-- A call, where one that has not locked yet costs `k`. -/
def callRank (k : Nat) : SubmitPc → Nat
  | .entry _ => k
  | .notify _ => 2
  | .idle | .done _ => 0

def dtorRank (n : Nat) : DtorPc → Nat
  | .alive => 2 * n + 4
  | .notify => 2 * n + 3
  | .join i => (n - i) + 1
  | .done => 0

def queueRank (cost : J.St → Nat) (tasks : List (Task J)) (queue : List Nat) : Nat :=
  (queue.map (idRank cost tasks)).sum

def workersRank (cost : J.St → Nat) (tasks : List (Task J)) (workers : Fin n → WorkerPc J)
    (submits : Caller n S → SubmitPc) : Nat :=
  ∑ w, workerRank cost tasks (workers w) (submits (.worker w))

/-! ## How the parts change -/

theorem idRank_eq {tasks : List (Task J)} {id : Nat} (h : id < tasks.length) :
    idRank cost tasks id = jobRank cost tasks[id] := by
  rw [idRank, List.getElem?_eq_getElem h]
  rfl

theorem idRank_append {tasks : List (Task J)} {id : Nat} (task : Task J)
    (h : id < tasks.length) : idRank cost (tasks ++ [task]) id = idRank cost tasks id := by
  rw [idRank, idRank, List.getElem?_append_left h]

theorem workerRank_append {tasks : List (Task J)} {p : WorkerPc J} (task : Task J) (c : SubmitPc)
    (h : ∀ id, p = .holding id → id < tasks.length) :
    workerRank cost (tasks ++ [task]) p c = workerRank cost tasks p c := by
  cases p with
  | holding id =>
    show idRank cost (tasks ++ [task]) id + 1 = idRank cost tasks id + 1
    rw [idRank_append task (h id rfl)]
  | wait wt => cases wt <;> rfl
  | running => rfl
  | submitting => cases c <;> rfl
  | exited => rfl

variable (cost)

/-- A new task changes the rank of nothing that has been made. -/
theorem Made.queueRank {s : Pool n S J} (h : Made s) (task : Task J) :
    queueRank cost (s.tasks ++ [task]) s.queue = queueRank cost s.tasks s.queue := by
  unfold ThreadPool.queueRank
  congr 1
  exact List.map_congr_left fun id hid => idRank_append task (h.queue id hid)

theorem Made.workersRank {s : Pool n S J} (h : Made s) (task : Task J)
    (submits : Caller n S → SubmitPc) :
    workersRank cost (s.tasks ++ [task]) s.workers submits =
      workersRank cost s.tasks s.workers submits :=
  Finset.sum_congr rfl fun w _ => workerRank_append task _ (h.holding w)

/-- Worker `w` moves. -/
theorem workersRank_update (tasks : List (Task J)) (workers : Fin n → WorkerPc J)
    (submits : Caller n S → SubmitPc) (w : Fin n) (p : WorkerPc J) :
    workersRank cost tasks (Function.update workers w p) submits +
        workerRank cost tasks (workers w) (submits (.worker w)) =
      workersRank cost tasks workers submits + workerRank cost tasks p (submits (.worker w)) := by
  have h := sum_of_ne (i := w)
    (f := fun v => workerRank cost tasks (workers v) (submits (.worker v)))
    (g := fun v => workerRank cost tasks (Function.update workers w p v) (submits (.worker v)))
    fun v hv => by rw [Function.update_of_ne hv]
  rwa [Function.update_self] at h

theorem workerRank_wake (tasks : List (Task J)) (p : WorkerPc J) (c : SubmitPc) :
    workerRank cost tasks (Waiter.wake p) c ≤ workerRank cost tasks p c + 1 := by
  cases p with
  | wait wt => cases wt <;> simp [Waiter.wake, workerRank]
  | _ => exact Nat.le_succ _

theorem workersRank_notifyOne (tasks : List (Task J)) {workers ws : Fin n → WorkerPc J}
    {wakes : Option (Fin n)} (submits : Caller n S → SubmitPc)
    (hn : notifyOne () wakes workers = some ws) :
    workersRank cost tasks ws submits ≤ workersRank cost tasks workers submits + 1 := by
  rcases notifyOne_cases hn with ⟨rfl, _⟩ | ⟨j, _, rfl⟩
  · exact Nat.le_succ _
  · have hsum := workersRank_update cost tasks workers submits j
      (Waiter.wake (workers j))
    have hwake := workerRank_wake cost tasks (workers j) (submits (.worker j))
    omega

theorem workersRank_notifyAll (tasks : List (Task J)) (workers : Fin n → WorkerPc J)
    (submits : Caller n S → SubmitPc) :
    workersRank cost tasks (CondVar.notifyAll () workers) submits ≤
      workersRank cost tasks workers submits + n := by
  have hle : workersRank cost tasks (CondVar.notifyAll () workers) submits ≤
      ∑ w, (workerRank cost tasks (workers w) (submits (.worker w)) + 1) := by
    refine Finset.sum_le_sum fun w _ => ?_
    unfold CondVar.notifyAll
    split
    · exact workerRank_wake cost _ _ _
    · exact Nat.le_succ _
  simpa [Finset.sum_add_distrib, workersRank] using hle

variable [DecidableEq S]

/-- A call outside of the jobs moves. -/
theorem workersRank_submitter (tasks : List (Task J)) (workers : Fin n → WorkerPc J)
    (submits : Caller n S → SubmitPc) (i : S) (p : SubmitPc) :
    workersRank cost tasks workers (Function.update submits (.submitter i) p) =
      workersRank cost tasks workers submits :=
  Finset.sum_congr rfl fun w _ => by rw [Function.update_of_ne (by simp)]

/-- A call goes on: the worker whose job made it, if any, costs no more. -/
theorem workersRank_call {s : Pool n S J} (h : Placed s) {c : Caller n S} {p : SubmitPc}
    (hc : s.submits c ≠ .idle)
    (hle : ∀ id resume, workerRank cost s.tasks (.submitting id resume) p ≤
      workerRank cost s.tasks (.submitting id resume) (s.submits c)) :
    workersRank cost s.tasks s.workers (Function.update s.submits c p) ≤
      workersRank cost s.tasks s.workers s.submits := by
  refine Finset.sum_le_sum fun w _ => ?_
  by_cases hw : .worker w = c
  · subst hw
    obtain hi | ⟨id, resume, hs⟩ := h w
    · exact absurd hi hc
    · rw [Function.update_self, hs]
      exact hle id resume
  · rw [Function.update_of_ne hw]

/-- Worker `w` moves, and the call its job is in. -/
theorem workersRank_job (tasks : List (Task J)) (workers : Fin n → WorkerPc J)
    (submits : Caller n S → SubmitPc) (w : Fin n) (p : WorkerPc J) (c : SubmitPc) :
    workersRank cost tasks (Function.update workers w p)
        (Function.update submits (.worker w) c) +
        workerRank cost tasks (workers w) (submits (.worker w)) =
      workersRank cost tasks workers submits + workerRank cost tasks p c := by
  have h := sum_of_ne (i := w)
    (f := fun v => workerRank cost tasks (workers v) (submits (.worker v)))
    (g := fun v => workerRank cost tasks (Function.update workers w p v)
      (Function.update submits (.worker w) c (.worker v)))
    fun v hv => by
      rw [Function.update_of_ne hv, Function.update_of_ne (by simpa using hv)]
  rwa [Function.update_self, Function.update_self] at h

variable [Fintype S]

def callsRank (k : Nat) (submits : Caller n S → SubmitPc) : Nat := ∑ c, callRank k (submits c)

theorem callsRank_update (submits : Caller n S → SubmitPc) (c : Caller n S) (p : SubmitPc) :
    callsRank k (Function.update submits c p) + callRank k (submits c) =
      callsRank k submits + callRank k p :=
  sum_update (callRank k) submits c p

/-! ## How the whole changes -/

variable {cost}

def Pool.rank (cost : J.St → Nat) (k : Nat) (s : Pool n S J) : Nat :=
  queueRank cost s.tasks s.queue + workersRank cost s.tasks s.workers s.submits +
    callsRank k s.submits + dtorRank n s.dtor

/-- A call that has not locked yet costs enough: to be refused, or for the job it
adds to the queue. -/
def Enough (cost : J.St → Nat) (k : Nat) (s : Pool n S J) : Prop :=
  (s.stopping = true ∧ k = 1) ∨
    (J.Flat ∧ (∀ w id resume, s.workers w ≠ .submitting id resume) ∧
      ∀ task ∈ s.tasks, jobRank cost task + 3 ≤ k)

omit [DecidableEq S] [Fintype S] in
theorem Enough.pos {s : Pool n S J} (h : Enough cost k s) (hids : Ids s) {c : Caller n S}
    {id : Nat} (hc : s.submits c = .entry id) : 0 < k := by
  obtain ⟨-, rfl⟩ | ⟨-, -, hall⟩ := h
  · exact Nat.one_pos
  · have hle := hall _ (List.getElem_mem (hids.entry_lt c id hc))
    omega

omit [DecidableEq S] in
/-- Worker `w` moves outside of calls, and `d` is what leaves the queue. -/
theorem rank_worker {s t : Pool n S J} {w : Fin n} {p : WorkerPc J} {d : Nat}
    (hw : t.workers = Function.update s.workers w p) (hc : t.submits = s.submits)
    (ht : t.tasks = s.tasks) (hd : t.dtor = s.dtor)
    (hq : queueRank cost s.tasks s.queue = queueRank cost s.tasks t.queue + d)
    (hlt : workerRank cost s.tasks p (s.submits (.worker w)) <
      workerRank cost s.tasks (s.workers w) (s.submits (.worker w)) + d) :
    t.rank cost k < s.rank cost k := by
  have hsum := workersRank_update cost s.tasks s.workers s.submits w p
  unfold Pool.rank
  rw [hw, hc, ht, hd]
  omega

/-- Every step of the pool's own lowers the rank. -/
theorem rank_own (hcost : Terminates J cost) {s t : Pool n S J} {a : Action n S J}
    (hpl : Placed s) (hids : Ids s) (hacc : Accounts s) (hk : Enough cost k s)
    (ha : a.own = true) (hs : step s a = some t) : t.rank cost k < s.rank cost k := by
  have hmade := hacc.made hids
  cases step_cases hs with
  | call => cases ha
  | ret => cases ha
  | spurious => cases ha
  | stop => cases ha
  | notifyAll => cases ha
  | join => cases ha
  | joined => cases ha
  | @refused c id hc hstop =>
    have hcalls := callsRank_update (k := k) s.submits c
      (.done (.error "submit on stopped ThreadPool"))
    have hworkers := workersRank_call cost hpl (c := c)
      (p := .done (.error "submit on stopped ThreadPool")) (by rw [hc]; simp)
      fun _ _ => by rw [hc]; exact Nat.le_succ _
    have hpos := hk.pos hids hc
    rw [hc] at hcalls
    change _ + k = _ + 0 at hcalls
    dsimp only [Pool.rank]
    omega
  | @accepted c id hc hstop =>
    obtain ⟨hstop', -⟩ | ⟨-, hflat, hall⟩ := hk
    · rw [hstop] at hstop'
      cases hstop'
    · have hlt := hids.entry_lt c id hc
      have hle := hall _ (List.getElem_mem hlt)
      have hcalls := callsRank_update (k := k) s.submits c (.notify id)
      have hqueue : queueRank cost s.tasks (s.queue ++ [id]) =
          queueRank cost s.tasks s.queue + jobRank cost s.tasks[id] := by
        simp [queueRank, idRank_eq hlt]
      have hworkers : workersRank cost s.tasks s.workers
          (Function.update s.submits c (.notify id)) =
            workersRank cost s.tasks s.workers s.submits := by
        cases c with
        | submitter i => exact workersRank_submitter cost s.tasks s.workers s.submits i (.notify id)
        | worker w =>
          obtain hi | ⟨id', resume, hw⟩ := hpl w
          · rw [hc] at hi
            cases hi
          · exact absurd hw (hflat w id' resume)
      rw [hc] at hcalls
      change _ + k = _ + 2 at hcalls
      dsimp only [Pool.rank]
      omega
  | @notify c id wakes ws hc hn =>
    have hcalls := callsRank_update (k := k) s.submits c (.done (.ok id))
    have hworkers := workersRank_call cost hpl (c := c) (p := .done (.ok id))
      (by rw [hc]; simp) fun _ _ => by rw [hc]; exact Nat.le_refl _
    have hwake := workersRank_notifyOne cost s.tasks
      (Function.update s.submits c (.done (.ok id))) hn
    rw [hc] at hcalls
    change _ + 2 = _ + 0 at hcalls
    dsimp only [Pool.rank]
    omega
  | @park w wt hw hwt =>
    refine rank_worker (w := w) (p := .wait .parked) (d := 0) rfl rfl rfl rfl rfl ?_
    rw [hw]
    cases wt with
    | parked => exact absurd rfl hwt
    | entry => exact Nat.lt_succ_self 1
    | woken => exact Nat.lt_succ_self 1
  | @exit w wt hw hwt =>
    refine rank_worker (w := w) (p := .exited) (d := 0) rfl rfl rfl rfl rfl ?_
    rw [hw]
    cases wt <;> exact Nat.succ_pos _
  | @dequeue w wt job rest hw hwt hq =>
    refine rank_worker (w := w) (p := .holding job) (d := idRank cost s.tasks job) rfl rfl rfl rfl
      ?_ ?_
    · rw [hq]
      simp [queueRank, Nat.add_comm]
    · rw [hw]
      cases wt with
      | parked => exact absurd rfl hwt
      | entry => simp only [workerRank]; omega
      | woken => simp only [workerRank]; omega
  | @invoke w id task hw ht =>
    refine rank_worker (w := w) (p := .running id (J.invoke task.fn task.args)) (d := 0)
      rfl rfl rfl rfl rfl ?_
    rw [hw]
    simp [workerRank, idRank, ht, jobRank]
  | @finish w env id st outcome hw hact =>
    refine rank_worker (w := w) (p := .wait .entry) (d := 0) rfl rfl rfl rfl rfl ?_
    rw [hw]
    simp only [workerRank]
    omega
  | @work w env id st st' hw hact =>
    have hlt := hcost.work st env st' hact
    refine rank_worker (w := w) (p := .running id st') (d := 0) rfl rfl rfl rfl rfl ?_
    rw [hw]
    simp only [workerRank]
    omega
  | @submit w env id st fn args resume hw hact =>
    obtain ⟨-, rfl⟩ | ⟨hflat, -⟩ := hk
    · have hi : s.submits (.worker w) = .idle :=
        (hpl w).resolve_right fun ⟨_, _, hs⟩ => by rw [hw] at hs; cases hs
      have hlt := hcost.submit st env fn args resume hact (.error "submit on stopped ThreadPool")
      have hmade' :
          Made { s with workers := Function.update s.workers w (.submitting id resume) } :=
        ⟨hmade.queue, fun v id' hv => hmade.holding v id' (of_update hv (by simp))⟩
      have hqueue := hmade.queueRank cost ⟨fn, args⟩
      have hworkers := workersRank_job cost s.tasks s.workers s.submits w
        (.submitting id resume) (.entry s.tasks.length)
      rw [← hmade'.workersRank cost ⟨fn, args⟩] at hworkers
      have hcalls := callsRank_update (k := 1) s.submits (.worker w) (.entry s.tasks.length)
      rw [hi] at hcalls hworkers
      rw [hw] at hworkers
      change _ + 0 = _ + 1 at hcalls
      simp only [workerRank] at hworkers
      dsimp only [Pool.rank, Pool.makeTask]
      omega
    · exact absurd hact (hflat st env fn args resume)
  | @resume w id resume future hw hd =>
    have hcalls := callsRank_update (k := k) s.submits (.worker w) .idle
    have hworkers := workersRank_job cost s.tasks s.workers s.submits w
      (.running id (resume future)) .idle
    rw [hd] at hcalls hworkers
    rw [hw] at hworkers
    change _ + 0 = _ + 0 at hcalls
    simp only [workerRank] at hworkers
    dsimp only [Pool.rank, Pool.answer]
    omega

end BackendPatterns.ThreadPool
