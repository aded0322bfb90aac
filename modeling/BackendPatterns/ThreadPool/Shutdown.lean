import BackendPatterns.ThreadPool.Rank

/-! # The destructor of the thread pool returns

Once the destructor has set `stopping_`, no submit is accepted any more: what
jobs submit from inside, be it themselves, is refused. As long as every callable
comes to an end by itself, the pool runs dry and all workers are joined. -/

namespace BackendPatterns.ThreadPool
open BackendPatterns.Lib BackendPatterns.Lib.CondVar BackendPatterns.Lib.Threads

variable {n : Nat} {S : Type} {J : Jobs} {cost : J.St → Nat} {k : Nat} [DecidableEq S]

/-- A step of the pool's own, or of the destructor. -/
def Action.closing : Action n S J → Bool
  | .destroy => true
  | a => a.own

variable [Fintype S]

theorem rank_destroy {s t : Pool n S J} (hs : s.destroy = some t) :
    t.rank cost k < s.rank cost k := by
  cases destroy_steps hs with
  | stop hd =>
    simp only [Pool.rank, hd, dtorRank]
    omega
  | notifyAll hd =>
    have hwake := workersRank_notifyAll cost s.tasks s.workers s.submits
    simp only [Pool.rank, hd, dtorRank]
    omega
  | join hd hk =>
    simp only [Pool.rank, hd, dtorRank]
    omega
  | joined hd =>
    simp only [Pool.rank, hd, dtorRank]
    omega

/-- A caller from outside that gets its future costs nothing. -/
theorem rank_ret {s t : Pool n S J} {i : S} (hs : step s (.ret i) = some t) :
    t.rank cost k = s.rank cost k := by
  cases step_cases hs with
  | @ret i future hi =>
    have hworkers := workersRank_submitter cost s.tasks s.workers s.submits i .idle
    have hcalls := callsRank_update (k := k) s.submits (.submitter i) .idle
    rw [hi] at hcalls
    change _ + 0 = _ + 0 at hcalls
    dsimp only [Pool.rank, Pool.answer]
    omega

/-- A worker that wakes for nothing costs one more look at the predicate. -/
theorem rank_spurious {s t : Pool n S J} {w : Fin n} (hs : step s (.spurious w) = some t) :
    t.rank cost k ≤ s.rank cost k + 1 := by
  cases step_cases hs with
  | spurious hw =>
    have hworkers := workersRank_update cost s.tasks s.workers s.submits w (.wait .woken)
    rw [hw] at hworkers
    simp only [workerRank] at hworkers
    dsimp only [Pool.rank]
    omega

/-- A new call from outside costs `k`, and a worker that wakes for nothing one. -/
theorem rank_outside {s t : Pool n S J} {a : Action n S J} (hmade : Made s)
    (ha : a.closing = false) (hs : step s a = some t) :
    t.rank cost k ≤ s.rank cost k + max k 1 := by
  cases step_cases hs with
  | @call i fn args hi =>
    have hqueue := hmade.queueRank cost ⟨fn, args⟩
    have hworkers := hmade.workersRank cost ⟨fn, args⟩
      (Function.update s.submits (.submitter i) (.entry s.tasks.length))
    rw [workersRank_submitter cost s.tasks] at hworkers
    have hcalls := callsRank_update (k := k) s.submits (.submitter i) (.entry s.tasks.length)
    rw [hi] at hcalls
    change _ + 0 = _ + k at hcalls
    dsimp only [Pool.rank, Pool.makeTask]
    omega
  | ret =>
    rw [rank_ret hs]
    exact Nat.le_add_right _ _
  | spurious =>
    exact (rank_spurious hs).trans (Nat.add_le_add_left (Nat.le_max_right k 1) _)
  | refused => cases ha
  | accepted => cases ha
  | notify => cases ha
  | park => cases ha
  | exit => cases ha
  | dequeue => cases ha
  | invoke => cases ha
  | finish => cases ha
  | work => cases ha
  | submit => cases ha
  | resume => cases ha
  | stop => cases ha
  | notifyAll => cases ha
  | join => cases ha
  | joined => cases ha

end BackendPatterns.ThreadPool
