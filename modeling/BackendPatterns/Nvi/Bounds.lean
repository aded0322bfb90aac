import BackendPatterns.Lib.Trace
import BackendPatterns.Nvi.CacheService

/-! # The bounds of the stored entries

A `put` stores what it has validated. A direct call of `put_impl` stores anything,
so the bounds hold in a run exactly when its callers validate for themselves. -/

namespace BackendPatterns.Nvi
open BackendPatterns.Lib BackendPatterns.Lib.Trace

/-- What `put` lets through. -/
def Valid (key value : Bytes) : Prop :=
  key ≠ [] ∧ key.length ≤ 256 ∧ value.length ≤ 1024 * 1024

/-- Every entry is within the bounds. -/
def Bounded (c : InMemoryCache) : Prop := ∀ key value, c.cache key = some value → Valid key value

/-- A direct call of `put_impl` respects the bounds that `put` checks. -/
def Call.Validated : Call → Prop
  | .putImpl key value => Valid key value
  | _ => True

theorem validateKey_ok {key : Bytes} (h : validateKey key = .ok ()) :
    key ≠ [] ∧ key.length ≤ 256 := by
  unfold validateKey at h
  split at h
  · cases h
  split at h
  · cases h
  · exact ⟨‹_›, by omega⟩

theorem validateValue_ok {value : Bytes} (h : validateValue value = .ok ()) :
    value.length ≤ 1024 * 1024 := by
  unfold validateValue at h
  split at h
  · cases h
  · omega

theorem validate_put {key value : Bytes}
    (h : (do validateKey key; validateValue value) = .ok ()) : Valid key value := by
  cases hk : validateKey key with
  | error e =>
    rw [hk] at h
    cases h
  | ok u =>
    rw [hk] at h
    obtain ⟨hne, hlen⟩ := validateKey_ok hk
    exact ⟨hne, hlen, validateValue_ok h⟩

theorem bounded_make : Bounded .make := by
  intro key value h
  cases h

/-- Counting hits and misses stores nothing. -/
theorem Bounded.getImpl {c : InMemoryCache} (h : Bounded c) (key : Bytes) :
    Bounded (c.getImpl key) := by
  rw [Bounded, InMemoryCache.getImpl_cache]
  exact h

theorem Bounded.putImpl {c : InMemoryCache} (h : Bounded c) {key value : Bytes}
    (hv : Valid key value) : Bounded (c.putImpl key value) := by
  intro key' value' hget
  rw [InMemoryCache.putImpl_cache] at hget
  by_cases hk : key' = key
  · subst hk
    rw [Function.update_self] at hget
    cases hget
    exact hv
  · rw [Function.update_of_ne hk] at hget
    exact h key' value' hget

theorem Bounded.removeImpl {c : InMemoryCache} (h : Bounded c) (key : Bytes) :
    Bounded (c.removeImpl key) := by
  intro key' value' hget
  rw [InMemoryCache.removeImpl_cache] at hget
  by_cases hk : key' = key
  · subst hk
    rw [Function.update_self] at hget
    cases hget
  · rw [Function.update_of_ne hk] at hget
    exact h key' value' hget

/-- A request keeps what the override keeps for arguments that pass the check. -/
theorem Bounded.request {c : InMemoryCache} (h : Bounded c) {check : Except String Unit}
    {operation : String} {impl : InMemoryCache → InMemoryCache}
    (hi : check = .ok () → Bounded (impl c)) :
    Bounded (CacheService.request check operation impl c).cache := by
  unfold CacheService.request
  split
  · exact h
  · exact hi rfl

theorem Bounded.call {c : InMemoryCache} (h : Bounded c) {call : Call} (hv : call.Validated) :
    Bounded (c.call call).cache := by
  cases call with
  | get key => exact h.request fun _ => h.getImpl key
  | put key value => exact h.request fun hok => h.putImpl (validate_put hok)
  | remove key => exact h.request fun _ => h.removeImpl key
  | getImpl key => exact h.getImpl key
  | putImpl key value => exact h.putImpl hv
  | removeImpl key => exact h.removeImpl key
  | hits => exact h
  | misses => exact h

variable {ι : Type} [DecidableEq ι]

/-- The calls on the caches are validated. -/
def Action.Validated : Action ι → Prop
  | .call _ c => c.Validated
  | .assign _ _ => True

theorem bounded_step {s : ι → InMemoryCache} (h : ∀ i, Bounded (s i)) {a : Action ι}
    (hv : a.Validated) (i : ι) : Bounded (step s a i) := by
  cases a with
  | call j c =>
    by_cases hij : i = j
    · subst hij
      rw [step, Function.update_self]
      exact (h i).call hv
    · rw [step, Function.update_of_ne hij]
      exact h i
  | assign j k =>
    by_cases hij : i = j
    · subst hij
      rw [step, Function.update_self]
      exact h k
    · rw [step, Function.update_of_ne hij]
      exact h i

/-- What `put_impl` is given is stored. -/
theorem validated_of_bounded {s : ι → InMemoryCache} {a : Action ι}
    (h : ∀ i, Bounded (step s a i)) : a.Validated := by
  cases a with
  | assign => trivial
  | call i c =>
    cases c with
    | putImpl key value =>
      have hget : (step s (.call i (.putImpl key value)) i).cache key = some value := by
        rw [step, Function.update_self]
        exact Function.update_self ..
      exact h i key value hget
    | _ => trivial

/-- The stored entries are within the bounds in every state of a run if and only
if no call of `put_impl` in it passes a key or a value that `put` would reject. -/
theorem bounds_kept_iff (calls : List (Action ι)) :
    (∀ n ≤ calls.length, ∀ i, Bounded (stateAt step start calls n i)) ↔
      ∀ a ∈ calls, a.Validated := by
  constructor
  · intro h a ha
    obtain ⟨n, hget⟩ := List.getElem?_of_mem ha
    have hn : n < calls.length := (List.getElem?_eq_some_iff.mp hget).1
    have hsucc : stateAt step start calls (n + 1) = step (stateAt step start calls n) a :=
      stateAt_succ hget
    refine @validated_of_bounded _ _ (stateAt step start calls n) a fun i => ?_
    rw [← hsucc]
    exact h (n + 1) hn i
  · intro h n hn
    refine @carry _ _ step start calls (fun s => ∀ i, Bounded (s i)) 0 n (Nat.zero_le n) hn
      (fun i => bounded_make) ?_
    intro m a s _ _ hget hs
    exact bounded_step hs (h a (List.mem_of_getElem? hget))

/-- An empty key, stored by a call of the override on the object. -/
def bypass : List (Action Unit) := [.call () (.putImpl [] (str "value"))]

theorem putImpl_stores_empty_key :
    (stateAt step start bypass 1 ()).cache [] = some (str "value") ∧
      ¬ Bounded (stateAt step start bypass 1 ()) := by
  have hget : (stateAt step start bypass 1 ()).cache [] = some (str "value") := rfl
  exact ⟨hget, fun h => (h [] _ hget).1 rfl⟩

end BackendPatterns.Nvi
