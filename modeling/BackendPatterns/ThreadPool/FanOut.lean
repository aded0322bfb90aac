import BackendPatterns.ThreadPool.Parse
import BackendPatterns.ThreadPool.Answers
import BackendPatterns.ThreadPool.Shutdown

/-! # The fan-out program

`main` submits one `expensive_parse` for each request, waits for the futures in
the order of the requests, logs the sum of the results and destroys the pool.
The requests and the number of workers are parameters; `main` of the example
parses the requests from 1 to 10 with four workers. -/

namespace BackendPatterns.ThreadPool
open BackendPatterns.Lib BackendPatterns.Lib.CondVar

/-- A call of `expensive_parse`, before the iteration for `i`. -/
structure Parsing where
  requestId : Int
  i : Nat
  acc : Int

/-- An overflow of `int`, which has no defined behaviour. -/
inductive Overflow
  | overflow

abbrev parseJobs : Jobs where
  Fn := Unit
  Args := Int
  St := Parsing
  Result := Int
  Err := Overflow
  Env := Unit
  invoke := fun _ requestId => ⟨requestId, 0, 0⟩
  act := fun st _ =>
    if st.i < 100000 then
      match parseStep st.requestId st.acc st.i with
      | some acc => .work ⟨st.requestId, st.i + 1, acc⟩
      | none => .throw .overflow
    else .ret st.acc

/-- `main`, by the statement it is at. `threw` is an exception that leaves it. -/
inductive MainPc
  | submit (k : Nat)
  | submitting (k : Nat)
  | get (k : Nat)
  | destroy
  | done
  | threw
  deriving DecidableEq

/-- `results` are the futures, by their tasks. A `long long` holds the total of
more than 9 * 10^12 results. -/
structure FanOut (n : Nat) where
  pool : Pool n Unit parseJobs
  main : MainPc
  results : List Nat
  total : Int
  logged : Option Int

variable {n : Nat} {requests : List Int}

def FanOut.make (n : Nat) : Except String (FanOut n) :=
  (ThreadPool.make n Unit parseJobs).map fun pool => ⟨pool, .submit 0, [], 0, none⟩

/-- A step of the pool, or the next statement of `main`. -/
inductive Step (n : Nat)
  | pool (a : Action n Unit parseJobs)
  | main

def mainStep (requests : List Int) (s : FanOut n) : Option (FanOut n) :=
  match s.main with
  | .submit k =>
    match requests[k]? with
    | some requestId => (step s.pool (.call () () requestId)).map fun pool =>
        { s with pool, main := .submitting k }
    | none => some { s with main := .get 0 }
  | .submitting k =>
    match s.pool.submits (.submitter ()) with
    | .done (.ok id) => (step s.pool (.ret ())).map fun pool =>
        { s with pool, main := .submit (k + 1), results := s.results ++ [id] }
    | .done (.error _) => some { s with main := .threw }
    | _ => none
  | .get k =>
    match s.results[k]? with
    | some id =>
      match s.pool.shared id with
      | some (.ok result) => some { s with main := .get (k + 1), total := s.total + result }
      | some (.error _) => some { s with main := .threw }
      | none => none
    | none => some { s with main := .destroy, logged := some s.total }
  | .destroy => s.pool.destroy.map fun pool =>
      { s with pool, main := if pool.dtor = .done then .done else .destroy }
  | .done => none
  | .threw => none

def fanStep (requests : List Int) (s : FanOut n) : Step n → Option (FanOut n)
  | .pool a => if a.inner then (step s.pool a).map fun pool => { s with pool } else none
  | .main => mainStep requests s

/-- What each step does, guards included. -/
inductive FanSteps (requests : List Int) (s : FanOut n) : Step n → FanOut n → Prop
  | pool {a : Action n Unit parseJobs} {pool : Pool n Unit parseJobs} (ha : a.inner = true)
      (hs : step s.pool a = some pool) : FanSteps requests s (.pool a) { s with pool }
  | submit {k : Nat} {requestId : Int} {pool : Pool n Unit parseJobs} (hm : s.main = .submit k)
      (hk : requests[k]? = some requestId)
      (hs : step s.pool (.call () () requestId) = some pool) :
      FanSteps requests s .main { s with pool, main := .submitting k }
  | submitted {k : Nat} (hm : s.main = .submit k) (hk : requests[k]? = none) :
      FanSteps requests s .main { s with main := .get 0 }
  | returned {k id : Nat} {pool : Pool n Unit parseJobs} (hm : s.main = .submitting k)
      (hd : s.pool.submits (.submitter ()) = .done (.ok id))
      (hs : step s.pool (.ret ()) = some pool) :
      FanSteps requests s .main
        { s with pool, main := .submit (k + 1), results := s.results ++ [id] }
  | refused {k : Nat} {what : String} (hm : s.main = .submitting k)
      (hd : s.pool.submits (.submitter ()) = .done (.error what)) :
      FanSteps requests s .main { s with main := .threw }
  | add {k id : Nat} {result : Int} (hm : s.main = .get k) (hk : s.results[k]? = some id)
      (hr : s.pool.shared id = some (.ok result)) :
      FanSteps requests s .main { s with main := .get (k + 1), total := s.total + result }
  | failed {k id : Nat} {e : Overflow} (hm : s.main = .get k) (hk : s.results[k]? = some id)
      (hr : s.pool.shared id = some (.error e)) :
      FanSteps requests s .main { s with main := .threw }
  | log {k : Nat} (hm : s.main = .get k) (hk : s.results[k]? = none) :
      FanSteps requests s .main { s with main := .destroy, logged := some s.total }
  | destroy {pool : Pool n Unit parseJobs} (hm : s.main = .destroy)
      (hs : s.pool.destroy = some pool) :
      FanSteps requests s .main
        { s with pool, main := if pool.dtor = .done then .done else .destroy }

theorem fanStep_cases {s t : FanOut n} {a : Step n} (h : fanStep requests s a = some t) :
    FanSteps requests s a t := by
  cases a with
  | pool a =>
    simp only [fanStep] at h
    split at h
    · rename_i ha
      obtain ⟨pool, hs, rfl⟩ := Option.map_eq_some_iff.mp h
      exact .pool ha hs
    · cases h
  | main =>
    simp only [fanStep, mainStep] at h
    split at h
    · rename_i k hm
      split at h
      · rename_i requestId hk
        obtain ⟨pool, hs, rfl⟩ := Option.map_eq_some_iff.mp h
        exact .submit hm hk hs
      · rename_i hk
        cases h
        exact .submitted hm hk
    · rename_i k hm
      split at h
      · rename_i id hd
        obtain ⟨pool, hs, rfl⟩ := Option.map_eq_some_iff.mp h
        exact .returned hm hd hs
      · rename_i what hd
        cases h
        exact .refused hm hd
      · cases h
    · rename_i k hm
      split at h
      · rename_i id hk
        split at h
        · rename_i result hr
          cases h
          exact .add hm hk hr
        · rename_i e hr
          cases h
          exact .failed hm hk hr
        · cases h
      · rename_i hk
        cases h
        exact .log hm hk
    · rename_i hm
      obtain ⟨pool, hs, rfl⟩ := Option.map_eq_some_iff.mp h
      exact .destroy hm hs
    · cases h
    · cases h

/-- The pool of the program runs as any pool. -/
theorem reachable_pool {s₀ s : FanOut n}
    (h : Machine.Reachable (fanStep requests) s₀ s) :
    Machine.Reachable step s₀.pool s.pool := by
  refine h.simulate (f := FanOut.pool) fun _ hn => ?_
  cases fanStep_cases hn with
  | pool _ hs => exact .inr ⟨_, hs⟩
  | submit _ _ hs => exact .inr ⟨_, hs⟩
  | returned _ _ hs => exact .inr ⟨_, hs⟩
  | destroy _ hs => exact .inr ⟨.destroy, hs⟩
  | _ => exact .inl rfl

theorem fanOut_make_eq_ok {s : FanOut n} (h : FanOut.make n = .ok s) :
    ThreadPool.make n Unit parseJobs = .ok s.pool ∧
      s = ⟨s.pool, .submit 0, [], 0, none⟩ := by
  unfold FanOut.make at h
  cases hm : ThreadPool.make n Unit parseJobs with
  | error what => rw [hm] at h; cases h
  | ok pool => rw [hm] at h; cases h; exact ⟨rfl, rfl⟩

/-! ## What a call of `expensive_parse` comes to -/

theorem parse_flat : parseJobs.Flat := by
  intro st env fn args resume hact
  simp only [parseJobs] at hact
  split at hact
  · split at hact <;> cases hact
  · cases hact

/-- The iterations that a call still has to do. -/
def parseCost (st : Parsing) : Nat := 100000 - st.i

theorem parse_terminates : Terminates parseJobs parseCost := by
  constructor
  · intro st env st' hact
    simp only [parseJobs] at hact
    split at hact
    · rename_i hlt
      split at hact
      · cases hact
        show 100000 - (st.i + 1) < 100000 - st.i
        omega
      · cases hact
    · cases hact
  · intro st env fn args resume hact
    exact absurd hact (parse_flat st env fn args resume)

/-- A running call has done the iterations of `parseLoop`. -/
theorem parse_runs {requestId : Int} {st : parseJobs.St}
    (h : Runs parseJobs (parseJobs.invoke () requestId) st) :
    st.requestId = requestId ∧ st.i ≤ 100000 ∧ parseLoop requestId st.i = some st.acc := by
  induction h with
  | start => exact ⟨rfl, Nat.zero_le _, rfl⟩
  | @work st st' env _ hact ih =>
    obtain ⟨hid, hle, hloop⟩ := ih
    simp only [parseJobs] at hact
    split at hact
    · rename_i hlt
      split at hact
      · rename_i acc hstep
        cases hact
        refine ⟨hid, hlt, ?_⟩
        rw [parseLoop, hloop, Option.bind_some, ← hid]
        exact hstep
      · cases hact
    · cases hact
  | submit _ hact => exact absurd hact (parse_flat _ _ _ _ _)

/-- A call with a request id in range can only return its hash. -/
theorem parse_ends {requestId : Int} {outcome : Except Overflow Int}
    (hid : 0 ≤ requestId ∧ requestId ≤ 2016383386)
    (h : (⟨(), requestId⟩ : Task parseJobs).Ends outcome) :
    outcome = .ok (hash requestId 100000) := by
  obtain ⟨st, env, hruns, hends⟩ := h
  obtain ⟨hsame, hle, hloop⟩ := parse_runs hruns
  rw [parseLoop_eq hid hle, Option.some.injEq] at hloop
  rcases hends with ⟨r, hact, rfl⟩ | ⟨e, hact, rfl⟩
  · simp only [parseJobs] at hact
    split at hact
    · split at hact <;> cases hact
    · rename_i hlt
      have hi : st.i = 100000 := Nat.le_antisymm hle (Nat.le_of_not_lt hlt)
      cases hact
      rw [← hloop, hi]
  · simp only [parseJobs] at hact
    split at hact
    · rename_i hlt
      have hstep : parseStep st.requestId st.acc st.i = some (hash requestId (st.i + 1)) := by
        have hmore := parseLoop_eq hid hlt
        rw [parseLoop, parseLoop_eq hid hle, Option.bind_some] at hmore
        rw [hsame, ← hloop]
        exact hmore
      rw [hstep] at hact
      cases hact
    · cases hact

end BackendPatterns.ThreadPool
