import Mathlib.Data.List.AList
import Mathlib.Data.List.Dedup

/-! # Interning

A table has one object for each key it was asked for, made when it was asked for
the first time. An object is its place in the order in which they were made. -/

namespace BackendPatterns.Lib

variable {κ β : Type*} [DecidableEq κ]

/-- Each key that was requested has an object that was made for it, and no two keys
have the same. -/
structure Interns (make : κ → β) (requests : List κ) (table : AList fun _ : κ => Nat)
    (objects : List β) : Prop where
  requested : ∀ k, k ∈ table ↔ k ∈ requests
  made : ∀ k id, table.lookup k = some id → objects[id]? = some (make k)
  unique : ∀ k k' id, table.lookup k = some id → table.lookup k' = some id → k = k'

/-- What was in the table is in it still, and the objects are what they were. -/
structure Extends (table table' : AList fun _ : κ => Nat) (objects objects' : List β) : Prop where
  table : ∀ k id, table.lookup k = some id → table'.lookup k = some id
  objects : objects <+: objects'

variable {make : κ → β} {requests : List κ} {table table' table'' : AList fun _ : κ => Nat}
  {objects objects' objects'' : List β} {k k' : κ} {id : Nat}

theorem Extends.refl : Extends table table objects objects := ⟨fun _ _ h => h, List.prefix_rfl⟩

theorem Extends.trans (h : Extends table table' objects objects')
    (h' : Extends table' table'' objects' objects'') : Extends table table'' objects objects'' :=
  ⟨fun k id hk => h'.table k id (h.table k id hk), h.objects.trans h'.objects⟩

theorem extends_miss (hk : table.lookup k = none) (b : β) :
    Extends table (table.insert k objects.length) objects (objects ++ [b]) := by
  refine ⟨fun k' id hid => ?_, List.prefix_append _ _⟩
  have hne : k' ≠ k := by
    rintro rfl
    rw [hk] at hid
    cases hid
  rw [AList.lookup_insert_ne hne, hid]

namespace Interns

theorem empty : Interns make [] (∅ : AList fun _ : κ => Nat) [] := by
  refine ⟨?_, ?_, ?_⟩
  · intro k
    simp [AList.notMem_empty]
  · intro k id h
    cases h
  · intro k k' id h
    cases h

theorem lt_length (h : Interns make requests table objects) (hk : table.lookup k = some id) :
    id < objects.length := (List.getElem?_eq_some_iff.mp (h.made k id hk)).1

/-- A key that was requested before. -/
theorem hit (h : Interns make requests table objects) (hk : table.lookup k = some id) :
    Interns make (requests ++ [k]) table objects := by
  refine ⟨fun k' => ?_, h.made, h.unique⟩
  rw [List.mem_append, List.mem_singleton, h.requested]
  refine ⟨.inl, fun hor => hor.elim (fun hmem => hmem) fun heq => ?_⟩
  rw [heq, ← h.requested, ← AList.lookup_isSome, hk]
  rfl

/-- A new key gets a new object. -/
theorem miss (h : Interns make requests table objects) (k : κ) :
    Interns make (requests ++ [k]) (table.insert k objects.length) (objects ++ [make k]) := by
  have hlookup : ∀ k' id, (table.insert k objects.length).lookup k' = some id →
      (k' = k ∧ id = objects.length) ∨ (table.lookup k' = some id ∧ id < objects.length) := by
    intro k' id hid
    by_cases hk : k' = k
    · subst hk
      rw [AList.lookup_insert] at hid
      exact .inl ⟨rfl, (Option.some.inj hid).symm⟩
    · rw [AList.lookup_insert_ne hk] at hid
      exact .inr ⟨hid, h.lt_length hid⟩
  refine ⟨?_, ?_, ?_⟩
  · intro k'
    rw [AList.mem_insert, List.mem_append, List.mem_singleton, h.requested, or_comm]
  · intro k' id hid
    rcases hlookup k' id hid with ⟨rfl, rfl⟩ | ⟨hold, hlt⟩
    · exact List.getElem?_concat_length
    · rw [List.getElem?_append_left hlt]
      exact h.made k' id hold
  · intro k' k'' id hid hid'
    rcases hlookup k' id hid with ⟨hk, hnew⟩ | ⟨hold, hlt⟩
    · rcases hlookup k'' id hid' with ⟨hk', -⟩ | ⟨-, hlt'⟩
      · rw [hk, hk']
      · omega
    · rcases hlookup k'' id hid' with ⟨-, hnew⟩ | ⟨hold', -⟩
      · omega
      · exact h.unique k' k'' id hold hold'

/-- As many objects as there were different keys. -/
theorem length_keys (h : Interns make requests table objects) :
    table.keys.length = requests.dedup.length := by
  refine List.Perm.length_eq ?_
  refine (List.perm_ext_iff_of_nodup table.keys_nodup (List.nodup_dedup _)).mpr fun k => ?_
  rw [← AList.mem_keys, List.mem_dedup, h.requested]

end Interns

end BackendPatterns.Lib
