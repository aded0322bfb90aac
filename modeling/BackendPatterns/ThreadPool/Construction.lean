import BackendPatterns.ThreadPool.WakeUp

/-! # Constructing a pool

Creating a worker's thread may throw. The destructor does not run then, only
those of the members: the vector of threads is the first to go, and a thread in
it that is still joinable ends the program. -/

namespace BackendPatterns.ThreadPool
open BackendPatterns.Lib BackendPatterns.Lib.Machine

/-- The data members, in the order of their declarations. -/
inductive Member
  | mu
  | cv
  | queue
  | stopping
  | workers
  deriving DecidableEq

/-- They are destroyed in the reverse order. -/
def Member.last : List Member := [.workers, .stopping, .queue, .cv, .mu]

/-- A `std::thread` in `workers_`; it stays joinable until somebody joins it. -/
structure StdThread (n : Nat) where
  worker : Fin n
  joinable : Bool

inductive Phase
  | creating (i : Nat)
  | constructed
  | unwinding
  | threw
  | terminated
  deriving DecidableEq

/-- A pool under construction. `alive` are the members not destroyed, the last one
first. `destroyed` lists the destroyed threads, for the statements only. -/
structure Construction (n : Nat) (J : Jobs) where
  pool : Pool n Empty J
  phase : Phase
  threads : List (StdThread n)
  alive : List Member
  destroyed : List (StdThread n)

variable {n : Nat} {J : Jobs}

/-- Before the loop. -/
def Construction.make (n : Nat) (J : Jobs) : Except String (Construction n J) :=
  (ThreadPool.make n Empty J).map fun pool => ⟨pool, .creating 0, [], Member.last, []⟩

/-- The workers whose threads were created. -/
def Construction.started (s : Construction n J) : List (Fin n) :=
  (s.destroyed ++ s.threads).map StdThread.worker

/-- The next step of the constructor, where creating thread `k` throws. -/
def Construction.construct (k : Nat) (s : Construction n J) : Option (Construction n J) :=
  match s.phase with
  | .creating i =>
    if h : i < n then
      if i = k then some { s with phase := .unwinding }
      else some { s with phase := .creating (i + 1), threads := s.threads ++ [⟨⟨i, h⟩, true⟩] }
    else some { s with phase := .constructed }
  | .unwinding =>
    match s.alive, s.threads with
    | .workers :: _, t :: threads =>
      some { s with
        phase := if t.joinable then .terminated else .unwinding
        threads
        destroyed := s.destroyed ++ [t] }
    | _ :: alive, _ => some { s with alive }
    | [], _ => some { s with phase := .threw }
  | _ => none

/-- The worker that takes a step of the pool. -/
def Action.worker : Action n Empty J → Option (Fin n)
  | .lock w => some w
  | .spurious w => some w
  | .invoke w => some w
  | .run w _ => some w
  | .resume w => some w
  | .enter (.worker w) => some w
  | .notify (.worker w) _ => some w
  | _ => none

/-- While the constructor runs, only the workers it has started run beside it. -/
inductive Move (n : Nat) (J : Jobs)
  | construct
  | worker (a : Action n Empty J)

def move (k : Nat) (s : Construction n J) : Move n J → Option (Construction n J)
  | .construct => s.construct k
  | .worker a =>
    match a.worker with
    | some w =>
      if w ∈ s.started ∧ s.phase ≠ .terminated then
        (step s.pool a).map fun pool => { s with pool }
      else none
    | none => none

/-- The exception reaches the caller, and until then every worker that was started
is stopped and joined: no joinable thread is destroyed, and no worker outlives a
member of the pool. -/
structure ExceptionSafe (k : Nat) (start : Construction n J) : Prop where
  throws {s : Construction n J} : Reachable (move k) start s →
    ∃ t, Reachable (move k) s t ∧ t.phase = .threw
  joined {s : Construction n J} : Reachable (move k) start s → s.phase = .threw →
    ∀ w ∈ s.started, s.pool.workers w = .exited ∧ ⟨w, false⟩ ∈ s.destroyed
  destroyed {s : Construction n J} : Reachable (move k) start s →
    ∀ t ∈ s.destroyed, t.joinable = false
  outlived {s : Construction n J} : Reachable (move k) start s → s.alive ≠ Member.last →
    ∀ w ∈ s.started, s.pool.workers w = .exited

/-! ## Steps -/

/-- What a move does, guards included. -/
inductive Moves (k : Nat) (s : Construction n J) : Move n J → Construction n J → Prop
  | create {i : Nat} (hs : s.phase = .creating i) (hi : i < n) (hk : i ≠ k) :
      Moves k s .construct
        { s with phase := .creating (i + 1), threads := s.threads ++ [⟨⟨i, hi⟩, true⟩] }
  | fail (hs : s.phase = .creating k) (hk : k < n) :
      Moves k s .construct { s with phase := .unwinding }
  | done {i : Nat} (hs : s.phase = .creating i) (hi : n ≤ i) :
      Moves k s .construct { s with phase := .constructed }
  | thread {t : StdThread n} {threads : List (StdThread n)} {alive : List Member}
      (hs : s.phase = .unwinding) (ha : s.alive = .workers :: alive)
      (ht : s.threads = t :: threads) :
      Moves k s .construct
        { s with
          phase := if t.joinable then .terminated else .unwinding
          threads
          destroyed := s.destroyed ++ [t] }
  | member {m : Member} {alive : List Member} (hs : s.phase = .unwinding)
      (ha : s.alive = m :: alive) (hm : m = .workers → s.threads = []) :
      Moves k s .construct { s with alive }
  | throw (hs : s.phase = .unwinding) (ha : s.alive = []) :
      Moves k s .construct { s with phase := .threw }
  | worker {a : Action n Empty J} {w : Fin n} {pool : Pool n Empty J} (ha : a.worker = some w)
      (hw : w ∈ s.started) (hs : s.phase ≠ .terminated) (hstep : step s.pool a = some pool) :
      Moves k s (.worker a) { s with pool }

theorem moves_of_move {k : Nat} {s t : Construction n J} {m : Move n J}
    (h : move k s m = some t) : Moves k s m t := by
  cases m with
  | construct =>
    simp only [move, Construction.construct] at h
    split at h
    · rename_i i hs
      split at h
      · rename_i hi
        split at h
        · rename_i hk
          cases h
          subst hk
          exact .fail hs hi
        · rename_i hk
          cases h
          exact .create hs hi hk
      · rename_i hi
        cases h
        exact .done hs (Nat.not_lt.mp hi)
    · rename_i hs
      split at h
      · rename_i ha ht
        cases h
        exact .thread hs ha ht
      · rename_i ha hne
        cases h
        refine .member hs ha fun hm => ?_
        subst hm
        cases ht : s.threads with
        | nil => rfl
        | cons t threads => exact (hne t threads ht rfl).elim
      · rename_i ha
        cases h
        exact .throw hs ha
    · cases h
  | worker a =>
    simp only [move] at h
    split at h
    · rename_i w ha
      split at h
      · rename_i hguard
        obtain ⟨pool, hstep, rfl⟩ := Option.map_eq_some_iff.mp h
        exact .worker ha hguard.1 hguard.2 hstep
      · cases h
    · cases h

/-! ## Where the constructor stands -/

/-- The threads of the first `i` workers, none of them joined. -/
structure Joinable (threads : List (StdThread n)) (i : Nat) : Prop where
  workers : threads.map (fun t => t.worker.val) = List.range i
  joinable : ∀ t ∈ threads, t.joinable = true

/-- With a thread in the vector, unwinding does not get past it. -/
def Construction.Inv (k : Nat) (s : Construction n J) : Prop :=
  match s.phase with
  | .creating i => i ≤ k ∧ i ≤ n ∧ Joinable s.threads i ∧ s.destroyed = [] ∧ s.alive = Member.last
  | .constructed => n ≤ k ∧ Joinable s.threads n ∧ s.destroyed = [] ∧ s.alive = Member.last
  | .unwinding => Joinable s.threads k ∧ s.destroyed = [] ∧ (0 < k → s.alive = Member.last)
  | .threw => k = 0 ∧ s.threads = [] ∧ s.destroyed = []
  | .terminated => 0 < k

variable {k i : Nat} {s t : Construction n J}

theorem Joinable.length {threads : List (StdThread n)} (h : Joinable threads i) :
    threads.length = i := by
  have hlength := congrArg List.length h.workers
  rwa [List.length_map, List.length_range] at hlength

theorem Joinable.snoc {threads : List (StdThread n)} (h : Joinable threads i) (hi : i < n) :
    Joinable (threads ++ [⟨⟨i, hi⟩, true⟩]) (i + 1) where
  workers := by rw [List.map_append, h.workers, List.range_succ]; rfl
  joinable t ht := by
    rw [List.mem_append, List.mem_singleton] at ht
    rcases ht with ht | rfl
    · exact h.joinable t ht
    · rfl

theorem inv_move {m : Move n J} (h : s.Inv k) (hm : Moves k s m t) : t.Inv k := by
  cases hm with
  | create hs hi hk =>
    simp only [Construction.Inv, hs] at h
    obtain ⟨hik, hin, hthreads, hrest⟩ := h
    exact ⟨by omega, hi, hthreads.snoc hi, hrest⟩
  | fail hs hk =>
    simp only [Construction.Inv, hs] at h
    obtain ⟨-, -, hthreads, hdestroyed, ha⟩ := h
    exact ⟨hthreads, hdestroyed, fun _ => ha⟩
  | @done i hs hi =>
    simp only [Construction.Inv, hs] at h
    obtain ⟨hik, hin, hrest⟩ := h
    obtain rfl : i = n := Nat.le_antisymm hin hi
    exact ⟨hik, hrest⟩
  | thread hs ha ht =>
    simp only [Construction.Inv, hs] at h
    obtain ⟨hthreads, -⟩ := h
    have hlength := hthreads.length
    have hjoinable := hthreads.joinable _ (ht ▸ List.mem_cons_self)
    rw [ht, List.length_cons] at hlength
    simp only [Construction.Inv, hjoinable, if_pos]
    omega
  | member hs ha hm =>
    simp only [Construction.Inv, hs] at h
    obtain ⟨hthreads, hdestroyed, hlast⟩ := h
    simp only [Construction.Inv, hs]
    refine ⟨hthreads, hdestroyed, fun hk => ?_⟩
    have hworkers := (List.cons.inj (ha.symm.trans (hlast hk))).1
    have hlength := hthreads.length
    rw [hm hworkers] at hlength
    exact absurd hlength (Nat.ne_of_lt hk)
  | throw hs ha =>
    simp only [Construction.Inv, hs] at h
    obtain ⟨hthreads, hdestroyed, hlast⟩ := h
    have hk : k = 0 := Nat.eq_zero_of_not_pos fun hk => nomatch ha.symm.trans (hlast hk)
    exact ⟨hk, List.eq_nil_of_length_eq_zero (hthreads.length.trans hk), hdestroyed⟩
  | worker ha hw hs hstep => exact h

theorem Construction.make_eq_ok {start : Construction n J}
    (h : Construction.make n J = .ok start) : ∃ pool, ThreadPool.make n Empty J = .ok pool ∧
      start = ⟨pool, .creating 0, [], Member.last, []⟩ := by
  unfold Construction.make at h
  cases hpool : ThreadPool.make n Empty J with
  | error e => rw [hpool] at h; cases h
  | ok pool =>
    rw [hpool] at h
    cases h
    exact ⟨pool, rfl, rfl⟩

theorem inv_reachable {start : Construction n J} (hstart : Construction.make n J = .ok start)
    (h : Reachable (move k) start s) : s.Inv k := by
  refine h.invariant ?_ fun _ hinv hm => inv_move hinv (moves_of_move hm)
  obtain ⟨pool, -, rfl⟩ := Construction.make_eq_ok hstart
  exact ⟨Nat.zero_le k, Nat.zero_le n, ⟨rfl, fun _ h => nomatch h⟩, rfl, rfl⟩

/-! ## The end of the constructor -/

def Phase.Final (phase : Phase) : Prop :=
  phase = .constructed ∨ phase = .threw ∨ phase = .terminated

/-- The steps that the constructor still has, at most. -/
def Construction.left (s : Construction n J) : Nat :=
  match s.phase with
  | .creating i => 2 * (n - i) + s.threads.length + s.alive.length + 3
  | .unwinding => s.threads.length + s.alive.length + 2
  | _ => 0

theorem construct_enabled (h : ¬ s.phase.Final) : (move k s .construct).isSome := by
  unfold Phase.Final at h
  simp only [move, Construction.construct]
  cases hs : s.phase with
  | creating i =>
    dsimp only
    split
    · split
      · rfl
      · rfl
    · rfl
  | unwinding =>
    dsimp only
    split
    · rfl
    · rfl
    · rfl
  | constructed => exact absurd (Or.inl hs) h
  | threw => exact absurd (Or.inr (Or.inl hs)) h
  | terminated => exact absurd (Or.inr (Or.inr hs)) h

theorem left_construct (h : Moves k s .construct t) : t.left < s.left := by
  cases h with
  | create hs hi hk =>
    simp only [Construction.left, hs, List.length_append, List.length_singleton]
    omega
  | fail hs hk => simp only [Construction.left, hs]; omega
  | done hs hi => simp only [Construction.left, hs]; omega
  | @thread t threads alive hs ha ht =>
    simp only [Construction.left, hs, ht, List.length_cons]
    cases t.joinable
    · simp
    · simp
  | member hs ha hm => simp only [Construction.left, hs, ha, List.length_cons]; omega
  | throw hs ha => simp only [Construction.left, hs]; omega

theorem construct_live (h : ¬ s.phase.Final) :
    ∃ m t, m = Move.construct ∧ move k s m = some t := by
  obtain ⟨t, ht⟩ := Option.isSome_iff_exists.mp (construct_enabled (k := k) h)
  exact ⟨.construct, t, rfl, ht⟩

theorem left_lt {m : Move n J} (hm : m = .construct) (h : move k s m = some t) :
    t.left < s.left := by
  subst hm
  exact left_construct (moves_of_move h)

/-- The constructor comes to an end. -/
theorem exists_final {start : Construction n J} (h : Reachable (move k) start s) :
    ∃ t, Reachable (move k) s t ∧ t.phase.Final :=
  Reachable.exists_final Construction.left (fun _ => construct_live) (fun _ => left_lt) h

/-- With no thread created there is nothing to stop. -/
theorem started_eq_nil (h : s.Inv 0) (hn : 0 < n) :
    s.started = [] ∧ s.destroyed = [] ∧ s.phase ≠ .constructed ∧ s.phase ≠ .terminated := by
  have hnil : s.threads = [] → s.destroyed = [] → s.started = [] := fun ht hd => by
    rw [Construction.started, hd, ht]
    rfl
  unfold Construction.Inv at h
  cases hs : s.phase with
  | creating i =>
    simp only [hs] at h
    obtain ⟨hi, -, hthreads, hd, -⟩ := h
    have ht := List.eq_nil_of_length_eq_zero (hthreads.length.trans (Nat.le_zero.mp hi))
    exact ⟨hnil ht hd, hd, nofun, nofun⟩
  | constructed => simp only [hs] at h; omega
  | unwinding =>
    simp only [hs] at h
    obtain ⟨hthreads, hd, -⟩ := h
    exact ⟨hnil (List.eq_nil_of_length_eq_zero hthreads.length) hd, hd, by decide, by decide⟩
  | threw =>
    simp only [hs] at h
    exact ⟨hnil h.2.1 h.2.2, h.2.2, by decide, by decide⟩
  | terminated => simp only [hs] at h; omega

/-- Where creating thread `k` throws, the exception reaches the caller of the
constructor, with all workers stopped and joined, if and only if `k` is the
first. -/
theorem exceptionSafe_iff {start : Construction n J} (hstart : Construction.make n J = .ok start)
    (hk : k < n) : ExceptionSafe k start ↔ k = 0 := by
  constructor
  · intro h
    obtain ⟨t, ht, hthrew⟩ := h.throws .start
    have hinv := inv_reachable hstart ht
    simp only [Construction.Inv, hthrew] at hinv
    exact hinv.1
  · rintro rfl
    have hnone : ∀ {s}, Reachable (move 0) start s → s.started = [] ∧ s.destroyed = [] ∧
        s.phase ≠ .constructed ∧ s.phase ≠ .terminated := fun hr =>
      started_eq_nil (inv_reachable hstart hr) hk
    refine ⟨fun hr => ?_, fun hr _ w hw => ?_, fun hr t ht => ?_, fun hr _ w hw => ?_⟩
    · obtain ⟨t, ht, hfinal⟩ := exists_final hr
      obtain ⟨-, -, hconstructed, hterminated⟩ := hnone (hr.trans ht)
      rcases hfinal with h | h | h
      · exact absurd h hconstructed
      · exact ⟨t, ht, h⟩
      · exact absurd h hterminated
    · rw [(hnone hr).1] at hw
      cases hw
    · rw [(hnone hr).2.1] at ht
      cases ht
    · rw [(hnone hr).1] at hw
      cases hw

/-- The first of two workers cannot be created: the exception is thrown. -/
theorem exceptionSafe_first : ∃ start, Construction.make 2 identity = .ok start ∧
    ExceptionSafe 0 start := by
  have h0 : ∃ start, Construction.make 2 identity = .ok start := ⟨_, rfl⟩
  obtain ⟨start, h0⟩ := h0
  exact ⟨start, h0, (exceptionSafe_iff h0 (by decide)).mpr rfl⟩

/-- The second cannot be created; the first sleeps. -/
def secondFails : List (Move 2 identity) :=
  [.construct, .worker (.lock ⟨0, Nat.zero_lt_two⟩), .construct, .construct]

/-- The thread of the first worker is destroyed while it is joinable, and the
program ends. -/
theorem second_terminates : ∃ start s, Construction.make 2 identity = .ok start ∧
    Machine.run (move 1) start secondFails = some s ∧ s.phase = .terminated ∧
      s.pool.workers 0 = .wait .parked ∧ ⟨0, true⟩ ∈ s.destroyed ∧ ¬ ExceptionSafe 1 start := by
  have hend : ∃ start s, Construction.make 2 identity = .ok start ∧
      Machine.run (move 1) start secondFails = some s ∧ s.phase = .terminated ∧
        s.pool.workers 0 = .wait .parked ∧ ⟨0, true⟩ ∈ s.destroyed :=
    ⟨_, _, rfl, rfl, rfl, rfl, List.mem_cons_self⟩
  obtain ⟨start, s, hstart, hrun, hphase, hworker, hmem⟩ := hend
  refine ⟨start, s, hstart, hrun, hphase, hworker, hmem, fun h => ?_⟩
  have hjoined := h.destroyed (Machine.reachable_of_run hrun) _ hmem
  cases hjoined

end BackendPatterns.ThreadPool
