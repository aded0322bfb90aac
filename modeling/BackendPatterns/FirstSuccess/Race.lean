import BackendPatterns.Lib.Machine
import BackendPatterns.Lib.Threads

/-! # Lookups racing for one promise

Each lookup thread runs its function and reports to a shared `FirstSuccess`. Its
steps are the atomic operations on that object; between two of them any other
thread may move. -/

namespace BackendPatterns.FirstSuccess
open BackendPatterns.Lib BackendPatterns.Lib.Threads

/-- What an `exception_ptr` holds here: the exception of a lookup, the one made
by `report_failure`, or the one `std::promise` throws when set twice. -/
inductive Exn (E : Type)
  | lookup (e : E)
  | runtimeError (what : String)
  | promiseAlreadySatisfied
  deriving DecidableEq, Repr

/-- The members of `FirstSuccess`; `promise` is its shared state. `remaining`
starts at the number of lookups and each of them decrements it at most once. -/
structure Shared (V E : Type) where
  promise : Option (Except (Exn E) V)
  done : Bool
  remaining : Int
  lastError : Option (Exn E)

/-- Where a lookup thread stands. -/
inductive Pc (V E : Type)
  | call
  | exchange (v : V)
  | setValue (v : V)
  | record (e : Exn E)
  | fetchSub
  | claim
  | readError
  | setException (e : Exn E)
  | finished
  | terminated

/-- For the statements only: the exchange of `try_set_value`, a write to
`last_error`, a call of `set_value` or `set_exception`. -/
inductive Event (V E : Type)
  | exchange
  | write
  | set (r : Except (Exn E) V)

variable {V E : Type}

/-- `FirstSuccess(n)`. -/
def make (n : Nat) : Shared V E := ⟨none, false, n, none⟩

/-- The next atomic step of `run_lookup`'s thread, whose function ends with `o`.
A `set_value` that throws is caught and reported as a failure; an exception
thrown by `set_exception` leaves the thread and terminates the program. -/
def thread (o : Except E V) (s : Shared V E) :
    Pc V E → Option (Shared V E × Pc V E × List (Event V E))
  | .call =>
    match o with
    | .ok v => some (s, .exchange v, [])
    | .error e => some (s, .record (.lookup e), [])
  | .exchange v =>
    some ({ s with done := true }, if s.done then .finished else .setValue v, [.exchange])
  | .setValue v =>
    match s.promise with
    | none => some ({ s with promise := some (.ok v) }, .finished, [.set (.ok v)])
    | some _ => some (s, .record .promiseAlreadySatisfied, [.set (.ok v)])
  | .record e => some ({ s with lastError := some e }, .fetchSub, [.write])
  | .fetchSub =>
    some ({ s with remaining := s.remaining - 1 },
      if s.remaining = 1 then .claim else .finished, [])
  | .claim => some ({ s with done := true }, if s.done then .finished else .readError, [])
  | .readError =>
    some (s, .setException (s.lastError.getD (.runtimeError "all lookups failed")), [])
  | .setException e =>
    match s.promise with
    | none => some ({ s with promise := some (.error e) }, .finished, [.set (.error e)])
    | some _ => some (s, .terminated, [.set (.error e)])
  | .finished => none
  | .terminated => none

structure Race (n : Nat) (V E : Type) where
  shared : Shared V E
  pc : Fin n → Pc V E
  log : List (Fin n × Event V E)

variable {n : Nat}

def start (n : Nat) : Race n V E := ⟨make n, fun _ => .call, []⟩

def step (outcome : Fin n → Except E V) (s : Race n V E) (i : Fin n) : Option (Race n V E) :=
  (thread (outcome i) s.shared (s.pc i)).map fun r =>
    ⟨r.1, Function.update s.pc i r.2.1, s.log ++ r.2.2.map (i, ·)⟩

/-- What a thread's step does, guards included. -/
inductive Acts (o : Except E V) (s : Shared V E) :
    Pc V E → Shared V E → Pc V E → List (Event V E) → Prop
  | value {v : V} (ho : o = .ok v) : Acts o s .call s (.exchange v) []
  | error {e : E} (ho : o = .error e) : Acts o s .call s (.record (.lookup e)) []
  | won {v : V} (hd : s.done = false) :
      Acts o s (.exchange v) { s with done := true } (.setValue v) [.exchange]
  | lost {v : V} (hd : s.done = true) : Acts o s (.exchange v) s .finished [.exchange]
  | setValue {v : V} (hp : s.promise = none) :
      Acts o s (.setValue v) { s with promise := some (.ok v) } .finished [.set (.ok v)]
  | valueTwice {v : V} {r : Except (Exn E) V} (hp : s.promise = some r) :
      Acts o s (.setValue v) s (.record .promiseAlreadySatisfied) [.set (.ok v)]
  | record {e : Exn E} : Acts o s (.record e) { s with lastError := some e } .fetchSub [.write]
  | lastFailure (hr : s.remaining = 1) :
      Acts o s .fetchSub { s with remaining := s.remaining - 1 } .claim []
  | failure (hr : s.remaining ≠ 1) :
      Acts o s .fetchSub { s with remaining := s.remaining - 1 } .finished []
  | claimed (hd : s.done = false) : Acts o s .claim { s with done := true } .readError []
  | late (hd : s.done = true) : Acts o s .claim s .finished []
  | readError : Acts o s .readError s
      (.setException (s.lastError.getD (.runtimeError "all lookups failed"))) []
  | setException {e : Exn E} (hp : s.promise = none) :
      Acts o s (.setException e) { s with promise := some (.error e) } .finished [.set (.error e)]
  | exceptionTwice {e : Exn E} {r : Except (Exn E) V} (hp : s.promise = some r) :
      Acts o s (.setException e) s .terminated [.set (.error e)]

theorem thread_cases {o : Except E V} {s s' : Shared V E} {p p' : Pc V E} {l : List (Event V E)}
    (h : thread o s p = some (s', p', l)) : Acts o s p s' p' l := by
  cases p with
  | call =>
    simp only [thread] at h
    split at h
    · cases h; exact .value rfl
    · cases h; exact .error rfl
  | exchange v =>
    cases hd : s.done with
    | false =>
      simp only [thread, hd] at h
      cases h
      exact .won hd
    | true =>
      simp only [thread, hd] at h
      cases h
      have hs : ({ s with done := true } : Shared V E) = s := by rw [← hd]
      rw [hs]
      exact .lost hd
  | setValue v =>
    simp only [thread] at h
    split at h
    · rename_i hp; cases h; exact .setValue hp
    · rename_i hp; cases h; exact .valueTwice hp
  | record e => cases h; exact .record
  | fetchSub =>
    by_cases hr : s.remaining = 1
    · simp only [thread, if_pos hr] at h
      cases h
      exact .lastFailure hr
    · simp only [thread, if_neg hr] at h
      cases h
      exact .failure hr
  | claim =>
    cases hd : s.done with
    | false =>
      simp only [thread, hd] at h
      cases h
      exact .claimed hd
    | true =>
      simp only [thread, hd] at h
      cases h
      have hs : ({ s with done := true } : Shared V E) = s := by rw [← hd]
      rw [hs]
      exact .late hd
  | readError => cases h; exact .readError
  | setException e =>
    simp only [thread] at h
    split at h
    · rename_i hp; cases h; exact .setException hp
    · rename_i hp; cases h; exact .exceptionTwice hp
  | finished => cases h
  | terminated => cases h

theorem step_cases {outcome : Fin n → Except E V} {s t : Race n V E} {i : Fin n}
    (h : step outcome s i = some t) : ∃ s' p l, Acts (outcome i) s.shared (s.pc i) s' p l ∧
      t = ⟨s', Function.update s.pc i p, s.log ++ l.map (i, ·)⟩ := by
  obtain ⟨⟨s', p, l⟩, hr, rfl⟩ := Option.map_eq_some_iff.mp h
  exact ⟨s', p, l, thread_cases hr, rfl⟩

end BackendPatterns.FirstSuccess
