import Mathlib.Data.List.Basic
import Mathlib.Tactic.TypeStar

/-! # Reading through a cache

A cache is a partial map in front of a source. A key is looked up in the cache
first; what the source answers is then kept in the cache. -/

namespace BackendPatterns.Lib.ReadThrough

variable {κ ν : Type*} [DecidableEq κ]

/-- What a lookup answers. -/
def lookup (cache source : κ → Option ν) (k : κ) : Option ν := (cache k).or (source k)

/-- The cache after lookups of all the keys. -/
def warm (cache source : κ → Option ν) (ks : List κ) : κ → Option ν :=
  fun k => if k ∈ ks then lookup cache source k else cache k

/-- Each entry of the cache is the source's. -/
def Coherent (cache source : κ → Option ν) : Prop := ∀ k v, cache k = some v → source k = some v

/-- Looked up in the cache with success. -/
def hit (cache : κ → Option ν) (k : κ) : Bool := (cache k).isSome

/-- Found in the source only. -/
def load (cache source : κ → Option ν) (k : κ) : Bool := !hit cache k && (source k).isSome

/-- Found nowhere. -/
def miss (cache source : κ → Option ν) (k : κ) : Bool := !hit cache k && !(source k).isSome

variable {cache source : κ → Option ν} {k : κ}

section Answers

omit [DecidableEq κ]

theorem lookup_hit {v : ν} (h : cache k = some v) : lookup cache source k = some v := by
  simp [lookup, h]

theorem lookup_none (h : cache k = none) : lookup cache source k = source k := by
  simp [lookup, h]

theorem Coherent.lookup (h : Coherent cache source) (k : κ) :
    lookup cache source k = source k := by
  cases hk : cache k with
  | none => exact lookup_none hk
  | some v => rw [lookup_hit hk, h k v hk]

theorem Coherent.trans {cache' : κ → Option ν} (h : Coherent cache cache')
    (h' : Coherent cache' source) : Coherent cache source := fun k v hv => h' k v (h k v hv)

/-- Every lookup is counted once. -/
theorem hit_load_miss (ks : List κ) :
    ks.countP (hit cache) + ks.countP (load cache source) + ks.countP (miss cache source) =
      ks.length := by
  induction ks with
  | nil => rfl
  | cons k ks ih =>
    simp only [List.countP_cons, List.length_cons]
    by_cases hk : hit cache k = true <;> by_cases hs : (source k).isSome = true <;>
      simp [load, miss, hk, hs] <;> omega

end Answers

theorem warm_nil : warm cache source [] = cache := by
  funext k
  simp [warm]

theorem warm_of_mem {ks : List κ} (h : k ∈ ks) : warm cache source ks k = lookup cache source k :=
  if_pos h

theorem warm_of_not_mem {ks : List κ} (h : k ∉ ks) : warm cache source ks k = cache k := if_neg h

/-- What the cache learns is what the source would have answered. -/
theorem lookup_warm (ks : List κ) (k : κ) :
    lookup (warm cache source ks) source k = lookup cache source k := by
  by_cases hk : k ∈ ks
  · rw [lookup, warm_of_mem hk]
    cases hc : cache k with
    | none => rw [lookup_none hc, Option.or_self]
    | some v => rw [lookup_hit hc, Option.some_or]
  · rw [lookup, warm_of_not_mem hk, lookup]

/-- Two batches of lookups warm the cache as one does. -/
theorem warm_append (ks ks' : List κ) :
    warm (warm cache source ks) source ks' = warm cache source (ks ++ ks') := by
  funext k
  by_cases hk' : k ∈ ks'
  · rw [warm_of_mem hk', lookup_warm, warm_of_mem (List.mem_append_right _ hk')]
  · by_cases hk : k ∈ ks
    · rw [warm_of_not_mem hk', warm_of_mem hk, warm_of_mem (List.mem_append_left _ hk)]
    · rw [warm_of_not_mem hk', warm_of_not_mem hk, warm_of_not_mem (by simp [hk, hk'])]

theorem Coherent.warm (h : Coherent cache source) (ks : List κ) :
    Coherent (warm cache source ks) source := by
  intro k v hv
  by_cases hk : k ∈ ks
  · rwa [warm_of_mem hk, h.lookup] at hv
  · rw [warm_of_not_mem hk] at hv
    exact h k v hv

/-- The cache learns what the source has. -/
theorem Coherent.learn (h : Coherent cache source) {v : ν} (hk : source k = some v) :
    Coherent (Function.update cache k (some v)) source := by
  intro k' v' hv
  by_cases heq : k' = k
  · subst heq
    rw [Function.update_self] at hv
    exact hk.trans hv
  · rw [Function.update_of_ne heq] at hv
    exact h k' v' hv

/-- The source learns what the cache does not contradict. -/
theorem Coherent.learnSource (h : Coherent cache source) {v : ν}
    (hk : ∀ u, cache k = some u → u = v) :
    Coherent cache (Function.update source k (some v)) := by
  intro k' v' hv
  by_cases heq : k' = k
  · subst heq
    rw [Function.update_self, hk v' hv]
  · rw [Function.update_of_ne heq]
    exact h k' v' hv

/-- A key becomes a hit when it was loaded before. -/
theorem hit_warm (ks : List κ) (k : κ) :
    hit (ReadThrough.warm cache source ks) k =
      (hit cache k || (load cache source k && decide (k ∈ ks))) := by
  by_cases hk : k ∈ ks
  · rw [hit, warm_of_mem hk]
    cases hc : cache k <;> simp [lookup, hit, load, hc, hk]
  · rw [hit, warm_of_not_mem hk]
    simp [hit, hk]

/-- The second batch has a hit for every key that the first has loaded. -/
theorem countP_hit_warm (ks ks' : List κ) :
    ks'.countP (hit (ReadThrough.warm cache source ks)) =
      ks'.countP (hit cache) + ks'.countP (fun k => load cache source k && decide (k ∈ ks)) := by
  induction ks' with
  | nil => rfl
  | cons k ks' ih =>
    simp only [List.countP_cons, hit_warm, ih]
    by_cases hc : hit cache k = true <;> simp [load, hc] <;> omega

/-- Nothing becomes found that was not. -/
theorem miss_warm (ks : List κ) :
    miss (ReadThrough.warm cache source ks) source = miss cache source := by
  funext k
  rw [miss, hit_warm, miss, load]
  cases hit cache k <;> cases (source k).isSome <;> simp

/-- The second batch loads what the first has not. -/
theorem countP_load_warm (ks ks' : List κ) :
    ks'.countP (load (ReadThrough.warm cache source ks) source) +
        ks'.countP (fun k => load cache source k && decide (k ∈ ks)) =
      ks'.countP (load cache source) := by
  have hwarm := @hit_load_miss _ _ (ReadThrough.warm cache source ks) source ks'
  have hcold := @hit_load_miss _ _ cache source ks'
  rw [countP_hit_warm, miss_warm] at hwarm
  omega

end BackendPatterns.Lib.ReadThrough
