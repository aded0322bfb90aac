import Mathlib.Tactic.TypeStar

/-! # Growing storage

A vector keeps its elements in storage of some capacity and moves them to new
storage when it is full. The generation counts these moves, and whatever else ends
the life of iterators; an iterator is good for the generation it was made in. -/

namespace BackendPatterns.Lib

variable {α : Type*}

/-- How a full vector chooses its next capacity. -/
structure Growth where
  next : Nat → Nat
  lt : ∀ capacity, capacity < next capacity

/-- Twice the capacity, from one on. -/
def Growth.doubling : Growth := ⟨fun capacity => max 1 (2 * capacity), fun capacity => by omega⟩

structure Storage (α : Type*) where
  items : List α
  capacity : Nat
  generation : Nat
  fits : items.length ≤ capacity

/-- A position in the storage of one generation. -/
structure Iter where
  generation : Nat
  pos : Nat
  deriving DecidableEq

def Iter.next (it : Iter) : Iter := { it with pos := it.pos + 1 }

namespace Storage

def empty : Storage α := ⟨[], 0, 0, Nat.le_refl 0⟩

def Full (v : Storage α) : Prop := v.items.length = v.capacity

instance (v : Storage α) : Decidable v.Full := inferInstanceAs (Decidable (_ = _))

theorem fits_push {v : Storage α} (x : α) {capacity : Nat} (h : v.items.length < capacity) :
    (v.items ++ [x]).length ≤ capacity := by
  rw [List.length_append]
  exact h

/-- `push_back`, which reallocates when the storage is full. -/
def pushBack (g : Growth) (v : Storage α) (x : α) : Storage α :=
  if h : v.Full then
    ⟨v.items ++ [x], g.next v.capacity, v.generation + 1,
      fits_push x (Nat.lt_of_le_of_lt v.fits (g.lt v.capacity))⟩
  else ⟨v.items ++ [x], v.capacity, v.generation, fits_push x (Nat.lt_of_le_of_ne v.fits h)⟩

/-- `clear` keeps the storage, but no iterator into it. -/
def clear (v : Storage α) : Storage α := ⟨[], v.capacity, v.generation + 1, Nat.zero_le _⟩

def first (v : Storage α) : Iter := ⟨v.generation, 0⟩

def last (v : Storage α) : Iter := ⟨v.generation, v.items.length⟩

/-- Reading through an iterator; `none` where that is undefined. -/
def deref (v : Storage α) (it : Iter) : Option α :=
  if it.generation = v.generation then v.items[it.pos]? else none

variable {g : Growth} {v : Storage α} {x : α}

@[simp] theorem pushBack_items : (v.pushBack g x).items = v.items ++ [x] := by
  unfold pushBack
  split <;> rfl

theorem pushBack_full (h : v.Full) : (v.pushBack g x).generation = v.generation + 1 := by
  simp only [pushBack, dif_pos h]

theorem pushBack_not_full (h : ¬ v.Full) : (v.pushBack g x).generation = v.generation := by
  simp only [pushBack, dif_neg h]

theorem generation_le_pushBack : v.generation ≤ (v.pushBack g x).generation := by
  by_cases h : v.Full
  · rw [pushBack_full h]
    exact Nat.le_succ _
  · exact Nat.le_of_eq (pushBack_not_full h).symm

theorem deref_eq {it : Iter} (h : it.generation = v.generation) : v.deref it = v.items[it.pos]? :=
  if_pos h

/-- What can be read is in the vector. -/
theorem mem_of_deref {it : Iter} (h : v.deref it = some x) : x ∈ v.items := by
  unfold deref at h
  split at h
  · exact List.mem_of_getElem? h
  · cases h

end Storage

end BackendPatterns.Lib
