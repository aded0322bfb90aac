import Mathlib.Logic.Function.Basic
import BackendPatterns.Lib.Bytes

/-! # Feature flags behind caching proxies

A proxy is a service in front of a service, which may be a proxy as well. Callers
may hold any of them, so each one is asked with the caches as the others have left
them. The service at the bottom does not itself call the proxies in front of it. -/

namespace BackendPatterns.Proxy
open BackendPatterns.Lib

/-- A service whose calls work on `W`: what `is_enabled` returns or throws, and
what it leaves. -/
structure FeatureFlagService (W E : Type) where
  isEnabled : W → Bytes → Except E Bool × W

/-- The service has no state and never throws. -/
def remoteFeatureFlagService (E : Type) : FeatureFlagService Unit E where
  isEnabled s flagName := (.ok (flagName = str "new-checkout"), s)

/-- The inner service, and for the statements all that it was asked and has
answered. -/
structure Calls (S E : Type) where
  inner : S
  answers : List (Bytes × Except E Bool)

/-- The cache of each proxy, by its place in the stack, and the inner service. -/
structure World (S E : Type) where
  caches : Nat → Bytes → Option Bool
  calls : Calls S E

variable {S E : Type}

/-- `cache_[flag_name] = enabled` in proxy `i`. -/
def World.store (w : World S E) (i : Nat) (flagName : Bytes) (enabled : Bool) : World S E :=
  { w with
    caches := Function.update w.caches i (Function.update (w.caches i) flagName (some enabled)) }

/-- The inner service in the world of the proxies. -/
def observed (service : FeatureFlagService S E) : FeatureFlagService (World S E) E where
  isEnabled w flagName :=
    let (answer, inner) := service.isEnabled w.calls.inner flagName
    (answer, { w with calls := ⟨inner, w.calls.answers ++ [(flagName, answer)]⟩ })

/-- `CachingFeatureFlagProxy`, where `i` is the object. -/
def cachingFeatureFlagProxy (inner : FeatureFlagService (World S E) E) (i : Nat) :
    FeatureFlagService (World S E) E where
  isEnabled w flagName :=
    match w.caches i flagName with
    | some enabled => (.ok enabled, w)
    | none =>
      match inner.isEnabled w flagName with
      | (.error e, w) => (.error e, w)
      | (.ok enabled, w) => (.ok enabled, w.store i flagName enabled)

/-- Proxy 0 stands in front of the service and every other one in front of the one
before. A stack of `d` proxies is the first `d` of these. The service does not call the
stack back: it works on its own state. -/
def stacked (service : FeatureFlagService S E) : Nat → FeatureFlagService (World S E) E
  | 0 => cachingFeatureFlagProxy (observed service) 0
  | i + 1 => cachingFeatureFlagProxy (stacked service i) (i + 1)

def start (s : S) : World S E := ⟨fun _ _ => none, s, []⟩

/-- A call on a proxy, or a change of the inner service that no call has made. -/
inductive Move (S : Type)
  | isEnabled (layer : Nat) (flagName : Bytes)
  | elapse (s : S)

/-- The caller catches what a call throws. -/
def perform (service : FeatureFlagService S E) (w : World S E) : Move S → World S E
  | .isEnabled layer flagName => ((stacked service layer).isEnabled w flagName).2
  | .elapse s => { w with calls := { w.calls with inner := s } }

def after (service : FeatureFlagService S E) (s : S) (moves : List (Move S)) : World S E :=
  moves.foldl (perform service) (start s)

end BackendPatterns.Proxy
