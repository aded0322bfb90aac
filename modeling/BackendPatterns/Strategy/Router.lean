import BackendPatterns.Lib.Machine
import BackendPatterns.Lib.MinElement

/-! # Routing requests to backends

A router asks its strategy for a backend and adds the work of the request to it.
Which strategy that is, the router does not know. -/

namespace BackendPatterns.Strategy
open BackendPatterns.Lib

structure Backend where
  name : String
  inFlight : Int
  deriving DecidableEq

/-- A strategy with an object `S`. `chooseBackend` returns a reference into the
vector, as an index, and is undefined where it would be none. It could change the
backends, or return a reference to something else; neither strategy of the file does,
and others are taken not to. -/
structure RoutingStrategy (S : Type) where
  chooseBackend : S → List Backend → Option (Nat × S)

/-- `RoundRobinStrategy`, where the object is `next_`. -/
def roundRobinStrategy : RoutingStrategy UInt64 where
  chooseBackend next backends :=
    if backends.length = 0 then none else some (next.toNat % backends.length, next + 1)

def leastLoadedStrategy : RoutingStrategy Unit where
  chooseBackend _ backends :=
    (minElement (fun a b => decide (a.inFlight < b.inFlight)) backends).map fun i => (i, ())

/-- `+` on two `int`, undefined where it overflows. -/
def plusInt (a b : Int) : Option Int :=
  if -2147483648 ≤ a + b ∧ a + b ≤ 2147483647 then some (a + b) else none

theorem plusInt_eq_some {a b c : Int} (h : plusInt a b = some c) : c = a + b := by
  unfold plusInt at h
  split at h
  · exact (Option.some.inj h).symm
  · cases h

structure Request where
  id : Int
  simulatedWork : Int

/-- The strategy, the backends and what has been logged. -/
structure RequestRouter (S : Type) where
  strategy : S
  backends : List Backend
  lines : List String

variable {S : Type}

def handleRequest (strategy : RoutingStrategy S) (s : RequestRouter S) (request : Request) :
    Option (RequestRouter S) :=
  (strategy.chooseBackend s.strategy s.backends).bind fun (i, next) =>
  s.backends[i]?.bind fun backend =>
  (plusInt backend.inFlight request.simulatedWork).map fun inFlight =>
    { strategy := next
      backends := s.backends.set i { backend with inFlight }
      lines := s.lines ++ [s!"request={request.id} -> {backend.name} new_in_flight={inFlight}"] }

/-- What a request does: the backend that the strategy chooses has its work more,
and everything else stays. -/
inductive Handles (strategy : RoutingStrategy S) (s : RequestRouter S) (request : Request) :
    RequestRouter S → Prop
  | mk {i : Nat} {next : S} {backend : Backend} {line : String}
      (hchoose : strategy.chooseBackend s.strategy s.backends = some (i, next))
      (hget : s.backends[i]? = some backend) :
      Handles strategy s request
        ⟨next, s.backends.set i ⟨backend.name, backend.inFlight + request.simulatedWork⟩,
          s.lines ++ [line]⟩

theorem handles_of_handleRequest {strategy : RoutingStrategy S} {s t : RequestRouter S}
    {request : Request} (h : handleRequest strategy s request = some t) :
    Handles strategy s request t := by
  unfold handleRequest at h
  obtain ⟨⟨i, next⟩, hchoose, h⟩ := Option.bind_eq_some_iff.mp h
  obtain ⟨backend, hget, h⟩ := Option.bind_eq_some_iff.mp h
  obtain ⟨inFlight, hplus, rfl⟩ := Option.map_eq_some_iff.mp h
  cases plusInt_eq_some hplus
  exact .mk hchoose hget

end BackendPatterns.Strategy
