import Mathlib.Logic.Equiv.Basic
import Mathlib.Data.List.Basic
import Mathlib.Tactic.TypeStar

/-! # A heap of blocks

Blocks have an address and a content. Freeing a block that is not live and
reaching outside of one are undefined. Objects own the live blocks when each block
is the one that exactly one of them points at. -/

namespace BackendPatterns.Lib

variable {α β ι : Type*}

/-- Overwrite a part of a block. -/
def splice (b : List β) (offset : Nat) (data : List β) : List β :=
  b.take offset ++ data ++ b.drop (offset + data.length)

theorem length_splice {b data : List β} {offset : Nat} (h : offset + data.length ≤ b.length) :
    (splice b offset data).length = b.length := by
  simp only [splice, List.length_append, List.length_take, List.length_drop]
  omega

/-- The new bytes stand where they were written, the old ones everywhere else. -/
theorem getElem?_splice {b data : List β} {offset : Nat} (h : offset + data.length ≤ b.length)
    (k : Nat) : (splice b offset data)[k]? =
      if offset ≤ k ∧ k < offset + data.length then data[k - offset]? else b[k]? := by
  have htake : (b.take offset).length = offset := List.length_take_of_le (by omega)
  rw [splice, List.append_assoc]
  obtain hk | hk := Nat.lt_or_ge k offset
  · rw [List.getElem?_append_left (by omega), List.getElem?_take_of_lt hk, if_neg (by omega)]
  · rw [List.getElem?_append_right (by omega), htake]
    obtain hk' | hk' := Nat.lt_or_ge k (offset + data.length)
    · rw [List.getElem?_append_left (by omega), if_pos ⟨hk, hk'⟩]
    · rw [List.getElem?_append_right (by omega), List.getElem?_drop, if_neg (by omega)]
      congr 1
      omega

theorem splice_all {b data : List β} (h : data.length = b.length) : splice b 0 data = data := by
  rw [splice, List.take_zero, List.nil_append, Nat.zero_add, h, List.drop_length, List.append_nil]

structure Heap (α β : Type*) where
  block : α → Option (List β)

namespace Heap

variable [DecidableEq α]

def empty : Heap α β := ⟨fun _ => none⟩

def alloc (h : Heap α β) (p : α) (b : List β) : Heap α β := ⟨Function.update h.block p (some b)⟩

def release (h : Heap α β) (p : α) : Heap α β := ⟨Function.update h.block p none⟩

/-- Undefined unless the block is live. -/
def free (h : Heap α β) (p : α) : Option (Heap α β) :=
  if (h.block p).isSome then some (h.release p) else none

/-- Undefined unless the part is inside a live block. -/
def load (h : Heap α β) (p : α) (offset len : Nat) : Option (List β) :=
  (h.block p).bind fun b =>
    if offset + len ≤ b.length then some ((b.drop offset).take len) else none

/-- Undefined unless the part is inside a live block. -/
def store (h : Heap α β) (p : α) (offset : Nat) (data : List β) : Option (Heap α β) :=
  (h.block p).bind fun b =>
    if offset + data.length ≤ b.length then some (h.alloc p (splice b offset data)) else none

variable {h : Heap α β} {p q : α} {b : List β}

@[simp] theorem alloc_self : (h.alloc p b).block p = some b := Function.update_self ..

theorem alloc_ne (hq : q ≠ p) : (h.alloc p b).block q = h.block q := Function.update_of_ne hq ..

/-- Writing a block twice is writing it once. -/
theorem alloc_alloc {b' : List β} : (h.alloc p b).alloc p b' = h.alloc p b' := by
  simp only [alloc, Function.update_idem]

@[simp] theorem release_self : (h.release p).block p = none := Function.update_self ..

theorem release_ne (hq : q ≠ p) : (h.release p).block q = h.block q := Function.update_of_ne hq ..

/-- What is not live need not be released. -/
theorem release_eq_self (hp : h.block p = none) : h.release p = h := by
  rw [release, ← hp, Function.update_eq_self]

theorem free_eq (hp : h.block p = some b) : h.free p = some (h.release p) := by
  rw [free, hp]
  rfl

omit [DecidableEq α] in
theorem load_eq {offset len : Nat} (hp : h.block p = some b) (hin : offset + len ≤ b.length) :
    h.load p offset len = some ((b.drop offset).take len) := by
  rw [load, hp, Option.bind_some, if_pos hin]

theorem store_eq {offset : Nat} {data : List β} (hp : h.block p = some b)
    (hin : offset + data.length ≤ b.length) :
    h.store p offset data = some (h.alloc p (splice b offset data)) := by
  rw [store, hp, Option.bind_some, if_pos hin]

end Heap

/-! ## Ownership -/

/-- The live blocks are those the objects point at, each by one object. -/
structure Owns (h : Heap α β) (ptr : ι → Option α) : Prop where
  live : ∀ i p, ptr i = some p → ∃ b, h.block p = some b
  unique : ∀ i j p, ptr i = some p → ptr j = some p → i = j
  covered : ∀ p b, h.block p = some b → ∃ i, ptr i = some p

namespace Owns

variable [DecidableEq α] [DecidableEq ι] {h : Heap α β} {ptr : ι → Option α} {i j : ι} {p : α}
  {b : List β}

omit [DecidableEq α] [DecidableEq ι] in
theorem empty : Owns (Heap.empty : Heap α β) (fun _ : ι => none) := by
  refine ⟨?_, ?_, ?_⟩
  · intro i p hi
    cases hi
  · intro i j p hi
    cases hi
  · intro p b hb
    cases hb

omit [DecidableEq α] [DecidableEq ι] in
/-- An address that is not live is not pointed at. -/
theorem not_ptr (ho : Owns h ptr) (hp : h.block p = none) (i : ι) : ptr i ≠ some p := by
  intro hi
  obtain ⟨b, hb⟩ := ho.live i p hi
  rw [hp] at hb
  cases hb

/-- An object that owns nothing takes a fresh block. -/
theorem alloc (ho : Owns h ptr) (hp : h.block p = none) (hi : ptr i = none) (b : List β) :
    Owns (h.alloc p b) (Function.update ptr i (some p)) := by
  have hptr : ∀ k q, Function.update ptr i (some p) k = some q →
      (k = i ∧ q = p) ∨ (k ≠ i ∧ q ≠ p ∧ ptr k = some q) := by
    intro k q hk
    by_cases hki : k = i
    · subst hki
      rw [Function.update_self] at hk
      exact .inl ⟨rfl, (Option.some.inj hk).symm⟩
    · rw [Function.update_of_ne hki] at hk
      exact .inr ⟨hki, fun hq => ho.not_ptr hp k (hq ▸ hk), hk⟩
  refine ⟨?_, ?_, ?_⟩
  · intro k q hk
    obtain ⟨-, hq⟩ | ⟨-, hq, hk⟩ := hptr k q hk
    · rw [hq]
      exact ⟨b, Heap.alloc_self⟩
    · rw [Heap.alloc_ne hq]
      exact ho.live k q hk
  · intro k l q hk hl
    obtain ⟨hk, hq⟩ | ⟨-, hq, hk⟩ := hptr k q hk
    · obtain ⟨hl, -⟩ | ⟨-, hq', -⟩ := hptr l q hl
      · rw [hk, hl]
      · exact absurd hq hq'
    · obtain ⟨-, hq'⟩ | ⟨-, -, hl⟩ := hptr l q hl
      · exact absurd hq' hq
      · exact ho.unique k l q hk hl
  · intro q c hq
    by_cases hqp : q = p
    · rw [hqp]
      exact ⟨i, Function.update_self ..⟩
    · rw [Heap.alloc_ne hqp] at hq
      obtain ⟨k, hk⟩ := ho.covered q c hq
      refine ⟨k, ?_⟩
      rw [Function.update_of_ne, hk]
      intro hki
      rw [hki, hi] at hk
      cases hk

/-- An object gives its block back. -/
theorem free (ho : Owns h ptr) (hi : ptr i = some p) :
    Owns (h.release p) (Function.update ptr i none) := by
  have hptr : ∀ k q, Function.update ptr i none k = some q → q ≠ p ∧ ptr k = some q := by
    intro k q hk
    by_cases hki : k = i
    · subst hki
      rw [Function.update_self] at hk
      cases hk
    · rw [Function.update_of_ne hki] at hk
      exact ⟨fun hq => hki (ho.unique k i p (hq ▸ hk) hi), hk⟩
  refine ⟨?_, ?_, ?_⟩
  · intro k q hk
    obtain ⟨hq, hk⟩ := hptr k q hk
    obtain ⟨b, hb⟩ := ho.live k q hk
    exact ⟨b, (Heap.release_ne hq).trans hb⟩
  · intro k l q hk hl
    exact ho.unique k l q (hptr k q hk).2 (hptr l q hl).2
  · intro q c hq
    by_cases hqp : q = p
    · rw [hqp, Heap.release_self] at hq
      cases hq
    · rw [Heap.release_ne hqp] at hq
      obtain ⟨k, hk⟩ := ho.covered q c hq
      refine ⟨k, ?_⟩
      rw [Function.update_of_ne, hk]
      intro hki
      rw [hki, hi] at hk
      exact hqp (Option.some.inj hk).symm

omit [DecidableEq α] [DecidableEq ι] in
/-- The objects may be renamed, as when two of them exchange what they own. -/
theorem comp (ho : Owns h ptr) (e : Equiv.Perm ι) : Owns h (ptr ∘ e) := by
  refine ⟨fun i p hi => ho.live (e i) p hi, ?_, ?_⟩
  · intro i j p hi hj
    exact e.injective (ho.unique (e i) (e j) p hi hj)
  · intro p b hb
    obtain ⟨i, hi⟩ := ho.covered p b hb
    exact ⟨e.symm i, by rw [Function.comp_apply, e.apply_symm_apply, hi]⟩

omit [DecidableEq ι] in
/-- A live block gets another content. -/
theorem overwrite (ho : Owns h ptr) (hp : h.block p = some b) (b' : List β) :
    Owns (h.alloc p b') ptr := by
  refine ⟨?_, ho.unique, ?_⟩
  · intro i q hi
    by_cases hqp : q = p
    · rw [hqp]
      exact ⟨b', Heap.alloc_self⟩
    · rw [Heap.alloc_ne hqp]
      exact ho.live i q hi
  · intro q c hq
    by_cases hqp : q = p
    · rw [hqp]
      exact ho.covered p b hp
    · rw [Heap.alloc_ne hqp] at hq
      exact ho.covered q c hq

end Owns

end BackendPatterns.Lib
