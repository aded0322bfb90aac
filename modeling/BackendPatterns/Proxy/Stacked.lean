import Mathlib.Data.List.Induction
import BackendPatterns.Lib.ReadThrough
import BackendPatterns.Proxy.FeatureFlags

/-! # A stack of proxies is one proxy

What a proxy has cached, the one below it has cached as well, and the lowest has
cached what the service answered first. So it does not matter which proxy a caller
holds. -/

namespace BackendPatterns.Proxy
open BackendPatterns.Lib BackendPatterns.Lib.ReadThrough

variable {S E : Type}

/-- The first value that was returned for a flag. -/
def firstAnswer (answers : List (Bytes × Except E Bool)) (flagName : Bytes) : Option Bool :=
  answers.findSome? fun asked => if asked.1 = flagName then asked.2.toOption else none

/-- One proxy: it calls the service until that returns. -/
def ask (service : FeatureFlagService S E) (c : Calls S E) (flagName : Bytes) :
    Except E Bool × Calls S E :=
  match firstAnswer c.answers flagName with
  | some enabled => (.ok enabled, c)
  | none =>
    let (answer, inner) := service.isEnabled c.inner flagName
    (answer, ⟨inner, c.answers ++ [(flagName, answer)]⟩)

variable {service : FeatureFlagService S E} {w w' : World S E} {c : Calls S E} {s : S}
  {answers : List (Bytes × Except E Bool)} {flagName : Bytes} {enabled : Bool} {e : E} {i : Nat}

theorem firstAnswer_ok (h : firstAnswer answers flagName = none) :
    firstAnswer (answers ++ [(flagName, .ok enabled)]) =
      Function.update (firstAnswer answers) flagName (some enabled) := by
  funext name
  rw [firstAnswer, List.findSome?_append]
  by_cases hname : name = flagName
  · subst hname
    rw [Function.update_self, ← firstAnswer, h, Option.none_or]
    exact (List.findSome?_singleton ..).trans (if_pos rfl)
  · rw [Function.update_of_ne hname, ← firstAnswer]
    have hother : [(flagName, (.ok enabled : Except E Bool))].findSome?
        (fun asked => if asked.1 = name then asked.2.toOption else none) = none :=
      (List.findSome?_singleton ..).trans (if_neg (Ne.symm hname))
    rw [hother, Option.or_none]

theorem firstAnswer_error :
    firstAnswer (answers ++ [(flagName, .error e)]) = firstAnswer answers := by
  funext name
  have hnone : [(flagName, (.error e : Except E Bool))].findSome?
      (fun asked => if asked.1 = name then asked.2.toOption else none) = none :=
    (List.findSome?_singleton ..).trans (ite_self none)
  rw [firstAnswer, List.findSome?_append, hnone, Option.or_none, firstAnswer]

theorem ask_known (h : firstAnswer c.answers flagName = some enabled) :
    ask service c flagName = (.ok enabled, c) := by
  rw [ask, h]

theorem ask_unknown (h : firstAnswer c.answers flagName = none) {answer : Except E Bool}
    (hs : service.isEnabled c.inner flagName = (answer, s)) :
    ask service c flagName = (answer, ⟨s, c.answers ++ [(flagName, answer)]⟩) := by
  rw [ask, h, hs]

/-! ## One call on a proxy -/

section Proxy

variable {inner : FeatureFlagService (World S E) E}

theorem isEnabled_hit (h : w.caches i flagName = some enabled) :
    (cachingFeatureFlagProxy inner i).isEnabled w flagName = (.ok enabled, w) := by
  simp only [cachingFeatureFlagProxy, h]

theorem isEnabled_ok (h : w.caches i flagName = none)
    (hin : inner.isEnabled w flagName = (.ok enabled, w')) :
    (cachingFeatureFlagProxy inner i).isEnabled w flagName =
      (.ok enabled, w'.store i flagName enabled) := by
  simp only [cachingFeatureFlagProxy, h, hin]

theorem isEnabled_error (h : w.caches i flagName = none)
    (hin : inner.isEnabled w flagName = (.error e, w')) :
    (cachingFeatureFlagProxy inner i).isEnabled w flagName = (.error e, w') := by
  simp only [cachingFeatureFlagProxy, h, hin]

end Proxy

@[simp] theorem store_calls : (w.store i flagName enabled).calls = w.calls := rfl

theorem store_self : (w.store i flagName enabled).caches i =
    Function.update (w.caches i) flagName (some enabled) := Function.update_self ..

theorem store_ne {j : Nat} (h : j ≠ i) : (w.store i flagName enabled).caches j = w.caches j :=
  Function.update_of_ne h ..

/-! ## The caches -/

/-- Adjacent caches agree, and the lowest has the first answers. -/
structure Agree (w : World S E) : Prop where
  first : w.caches 0 = firstAnswer w.calls.answers
  below : ∀ i, Coherent (w.caches (i + 1)) (w.caches i)

theorem agree_start : Agree (start s : World S E) := by
  refine ⟨rfl, fun i flagName enabled h => ?_⟩
  cases h

theorem Agree.coherent (h : Agree w) (i : Nat) :
    Coherent (w.caches i) (firstAnswer w.calls.answers) := by
  induction i with
  | zero =>
    rw [← h.first]
    exact fun _ _ hv => hv
  | succ i ih => exact (h.below i).trans ih

/-- The lowest proxy caches a new answer. -/
theorem Agree.answered (h : Agree w) (hnew : firstAnswer w.calls.answers flagName = none) (s : S) :
    Agree (World.store ⟨w.caches, s, w.calls.answers ++ [(flagName, .ok enabled)]⟩
      0 flagName enabled) := by
  refine ⟨?_, ?_⟩
  · rw [store_self, store_calls, firstAnswer_ok hnew, h.first]
  · intro i
    cases i with
    | zero =>
      rw [store_self, store_ne (Nat.succ_ne_zero 0)]
      refine (h.below 0).learnSource fun u hu => ?_
      have hfirst := h.coherent 1 flagName u hu
      rw [hnew] at hfirst
      cases hfirst
    | succ i =>
      rw [store_ne (Nat.succ_ne_zero _), store_ne (Nat.succ_ne_zero _)]
      exact h.below (i + 1)

/-- A proxy caches what the one below it has returned. -/
theorem Agree.store (h : Agree w) (hbelow : w.caches i flagName = some enabled) :
    Agree (w.store (i + 1) flagName enabled) := by
  refine ⟨?_, ?_⟩
  · rw [store_ne (Nat.succ_ne_zero i).symm, store_calls, h.first]
  · intro j
    by_cases hji : j = i
    · subst hji
      rw [store_self, store_ne (Nat.succ_ne_self j).symm]
      exact (h.below j).learn hbelow
    · rw [store_ne (show j + 1 ≠ i + 1 by omega)]
      by_cases hj : j = i + 1
      · subst hj
        rw [store_self]
        refine (h.below (i + 1)).learnSource fun u hu => ?_
        have hu := h.coherent _ _ _ hu
        rw [h.coherent _ _ _ hbelow] at hu
        exact (Option.some.inj hu).symm
      · rw [store_ne hj]
        exact h.below j

/-! ## Runs -/

/-- A call on proxy `i` does what one proxy does, and caches it. -/
structure Asks (service : FeatureFlagService S E) (w : World S E) (i : Nat) (flagName : Bytes)
    (r : Except E Bool × World S E) : Prop where
  asks : (r.1, r.2.calls) = ask service w.calls flagName
  agree : Agree r.2
  cached : ∀ enabled, r.1 = .ok enabled → r.2.caches i flagName = some enabled
  unchanged : ∀ e, r.1 = .error e → r.2.caches = w.caches

theorem asks_hit (h : Agree w) (hc : w.caches i flagName = some enabled) :
    Asks service w i flagName (.ok enabled, w) := by
  refine ⟨?_, h, ?_, ?_⟩
  · rw [ask_known (h.coherent i _ _ hc)]
  · intro v hv
    cases hv
    exact hc
  · intro e he
    cases he

/-- Entering at any proxy, by induction on how many are below it. -/
theorem asks_stacked (h : Agree w) (i : Nat) (flagName : Bytes) :
    Asks service w i flagName ((stacked service i).isEnabled w flagName) := by
  induction i with
  | zero =>
    cases hc : w.caches 0 flagName with
    | some enabled =>
      rw [stacked, isEnabled_hit hc]
      exact asks_hit h hc
    | none =>
      have hnew : firstAnswer w.calls.answers flagName = none := h.first ▸ hc
      rcases hs : service.isEnabled w.calls.inner flagName with ⟨answer, s⟩
      have hask := ask_unknown hnew hs
      cases answer with
      | error e =>
        have hin : (observed service).isEnabled w flagName =
            (.error e, ⟨w.caches, s, w.calls.answers ++ [(flagName, .error e)]⟩) := by
          simp only [observed, hs]
        rw [stacked, isEnabled_error hc hin]
        refine ⟨hask.symm, ⟨?_, h.below⟩, ?_, fun _ _ => rfl⟩
        · rw [firstAnswer_error]
          exact h.first
        · intro v hv
          cases hv
      | ok enabled =>
        have hin : (observed service).isEnabled w flagName =
            (.ok enabled, ⟨w.caches, s, w.calls.answers ++ [(flagName, .ok enabled)]⟩) := by
          simp only [observed, hs]
        rw [stacked, isEnabled_ok hc hin]
        refine ⟨hask.symm, h.answered hnew s, ?_, ?_⟩
        · intro v hv
          cases hv
          rw [store_self, Function.update_self]
        · intro e he
          cases he
  | succ i ih =>
    cases hc : w.caches (i + 1) flagName with
    | some enabled =>
      rw [stacked, isEnabled_hit hc]
      exact asks_hit h hc
    | none =>
      rcases hin : (stacked service i).isEnabled w flagName with ⟨answer, w'⟩
      rw [hin] at ih
      cases answer with
      | error e =>
        rw [stacked, isEnabled_error hc hin]
        refine ⟨ih.asks, ih.agree, fun v hv => ?_, ih.unchanged⟩
        cases hv
      | ok enabled =>
        rw [stacked, isEnabled_ok hc hin]
        refine ⟨ih.asks, ih.agree.store (ih.cached enabled rfl), ?_, ?_⟩
        · intro v hv
          cases hv
          rw [store_self, Function.update_self]
        · intro e he
          cases he

theorem Agree.perform (h : Agree w) (move : Move S) : Agree (perform service w move) := by
  cases move with
  | isEnabled layer flagName => exact (asks_stacked h layer flagName).agree
  | elapse s => exact ⟨h.first, h.below⟩

theorem agree_after (service : FeatureFlagService S E) (s : S) (moves : List (Move S)) :
    Agree (after service s moves) :=
  List.foldlRecOn moves _ agree_start fun _ h move _ => h.perform move

/-- The same move by a caller who holds proxy 0. -/
def Move.lowest : Move S → Move S
  | .isEnabled _ flagName => .isEnabled 0 flagName
  | .elapse s => .elapse s

theorem calls_perform (h : Agree w) (h' : Agree w') (heq : w.calls = w'.calls) (move : Move S) :
    (perform service w move).calls = (perform service w' move.lowest).calls := by
  cases move with
  | isEnabled layer flagName =>
    have hasks := (asks_stacked h layer flagName : Asks service ..).asks
    rw [heq, ← (asks_stacked h' 0 flagName).asks] at hasks
    exact congrArg Prod.snd hasks
  | elapse s =>
    show Calls.mk s w.calls.answers = ⟨s, w'.calls.answers⟩
    rw [heq]

/-- The inner service cannot tell a stack from one proxy. -/
theorem calls_after (service : FeatureFlagService S E) (s : S) (moves : List (Move S)) :
    (after service s moves).calls = (after service s (moves.map Move.lowest)).calls := by
  induction moves using List.reverseRecOn with
  | nil => rfl
  | append_singleton moves move ih =>
    rw [after, after, List.map_append, List.foldl_append, List.foldl_append]
    exact calls_perform (agree_after service s moves)
      (agree_after service s (moves.map Move.lowest)) ih move

/-- After any calls on any proxies of a stack, a call on any of them returns or
throws what a single proxy would after the same calls. What it returns is the first
value that the service returned for the flag; the service is called, once, if and
only if it has not returned for the flag before; and if it throws, so does the call,
and no cache has changed. -/
theorem stacked_agree (service : FeatureFlagService S E) (s : S) (moves : List (Move S))
    (layer : Nat) (flagName : Bytes) :
    let w := after service s moves
    let r := (stacked service layer).isEnabled w flagName
    let answer := (service.isEnabled w.calls.inner flagName).1
    r.1 = ((stacked service 0).isEnabled (after service s (moves.map Move.lowest)) flagName).1 ∧
    (∀ enabled, r.1 = .ok enabled → firstAnswer r.2.calls.answers flagName = some enabled) ∧
    (∀ enabled, firstAnswer w.calls.answers flagName = some enabled →
      r.1 = .ok enabled ∧ r.2.calls = w.calls) ∧
    (firstAnswer w.calls.answers flagName = none →
      r.2.calls.answers = w.calls.answers ++ [(flagName, answer)] ∧
      ∀ e, answer = .error e → r.1 = .error e ∧ r.2.caches = w.caches) := by
  intro w r answer
  have hr : Asks service w layer flagName r :=
    asks_stacked (agree_after service s moves) layer flagName
  refine ⟨?_, ?_, ?_, ?_⟩
  · have hone : Asks service .. :=
      asks_stacked (agree_after service s (moves.map Move.lowest)) 0 flagName
    have hasks := hr.asks.trans (congrArg (ask service · flagName) (calls_after service s moves))
    exact (Prod.mk.inj (hasks.trans hone.asks.symm)).1
  · intro enabled hv
    exact hr.agree.coherent layer flagName enabled (hr.cached enabled hv)
  · intro enabled hfirst
    exact Prod.mk.inj (hr.asks.trans (ask_known hfirst))
  · intro hnew
    have hask := hr.asks.trans (ask_unknown hnew rfl)
    refine ⟨congrArg (fun asked => asked.2.answers) hask, fun e he => ?_⟩
    have hthrown : r.1 = .error e := (congrArg Prod.fst hask).trans he
    exact ⟨hthrown, hr.unchanged e hthrown⟩

/-- The second call on the upper proxy is a hit, so the service is asked twice. -/
example : (after (remoteFeatureFlagService Empty) () [.isEnabled 0 (str "new-checkout"),
    .isEnabled 1 (str "beta-search"), .isEnabled 1 (str "new-checkout")]).calls.answers =
      [(str "new-checkout", .ok true), (str "beta-search", .ok false)] := rfl

end BackendPatterns.Proxy
