import Mathlib.Logic.Function.Basic
import Mathlib.Data.List.Nodup
import Mathlib.Tactic.TypeStar

/-! # Handles

A handle is opened under a number that is free, and closed by its number, which may
then be used again. What is closed is an opening of the number, and each opening
must be closed once. -/

namespace BackendPatterns.Lib

variable {α : Type*}

/-- Which opening each open number stands for, how many there have been, and the
opening that each call of `close` has ended, or `none` where there was none. -/
structure Handles (α : Type*) where
  table : α → Option Nat
  opened : Nat
  closes : List (Option Nat)

namespace Handles

def empty : Handles α := ⟨fun _ => none, 0, []⟩

variable [DecidableEq α]

def opens (k : Handles α) (fd : α) : Handles α :=
  { k with table := Function.update k.table fd (some k.opened), opened := k.opened + 1 }

def close (k : Handles α) (fd : α) : Handles α :=
  { k with table := Function.update k.table fd none, closes := k.closes ++ [k.table fd] }

/-- An opening is open under one number or was closed, once. -/
structure Good (k : Handles α) : Prop where
  lt : ∀ fd o, k.table fd = some o → o < k.opened
  inj : ∀ fd fd' o, k.table fd = some o → k.table fd' = some o → fd = fd'
  closed_lt : ∀ o, some o ∈ k.closes → o < k.opened
  pending : ∀ fd o, k.table fd = some o → some o ∉ k.closes
  ended : ∀ o < k.opened, (∀ fd, k.table fd ≠ some o) → some o ∈ k.closes
  once : k.closes.Nodup
  isOpen : none ∉ k.closes

variable {k : Handles α} {fd fd' : α} {o : Nat}

@[simp] theorem close_self : (k.close fd).table fd = none := Function.update_self ..

theorem close_ne (h : fd' ≠ fd) : (k.close fd).table fd' = k.table fd' :=
  Function.update_of_ne h ..

@[simp] theorem opens_self : (k.opens fd).table fd = some k.opened := Function.update_self ..

theorem opens_ne (h : fd' ≠ fd) : (k.opens fd).table fd' = k.table fd' :=
  Function.update_of_ne h ..

/-- Closing leaves the other openings as they are. -/
theorem close_eq_some (h : (k.close fd).table fd' = some o) : fd' ≠ fd ∧ k.table fd' = some o := by
  by_cases heq : fd' = fd
  · rw [heq, close_self] at h
    cases h
  · exact ⟨heq, (close_ne heq).symm.trans h⟩

theorem opens_eq_some (h : (k.opens fd).table fd' = some o) :
    (fd' = fd ∧ o = k.opened) ∨ (fd' ≠ fd ∧ k.table fd' = some o) := by
  by_cases heq : fd' = fd
  · rw [heq, opens_self] at h
    exact .inl ⟨heq, (Option.some.inj h).symm⟩
  · exact .inr ⟨heq, (opens_ne heq).symm.trans h⟩

omit [DecidableEq α] in
theorem good_empty : (empty : Handles α).Good := by
  refine ⟨?_, ?_, ?_, ?_, ?_, List.nodup_nil, List.not_mem_nil⟩
  · intro fd o h
    cases h
  · intro fd fd' o h
    cases h
  · intro o h
    cases h
  · intro fd o h
    cases h
  · intro o h
    cases h

namespace Good

omit [DecidableEq α] in
theorem count_open (h : k.Good) (ho : k.table fd = some o) : k.closes.count (some o) = 0 :=
  List.count_eq_zero.mpr (h.pending fd o ho)

omit [DecidableEq α] in
theorem count_ended (h : k.Good) (ho : o < k.opened) (hnot : ∀ fd, k.table fd ≠ some o) :
    k.closes.count (some o) = 1 := List.count_eq_one_of_mem h.once (h.ended o ho hnot)

theorem opens (h : k.Good) (hfd : k.table fd = none) : (k.opens fd).Good := by
  have hnew : ∀ fd' o, k.table fd' = some o → o ≠ k.opened := fun fd' o ho =>
    Nat.ne_of_lt (h.lt fd' o ho)
  refine ⟨?_, ?_, ?_, ?_, ?_, h.once, h.isOpen⟩
  · intro fd' o ho
    rcases opens_eq_some ho with ⟨-, rfl⟩ | ⟨-, ho⟩
    · exact Nat.lt_succ_self _
    · exact Nat.lt_succ_of_lt (h.lt fd' o ho)
  · intro fd₁ fd₂ o h₁ h₂
    rcases opens_eq_some h₁ with ⟨rfl, hn⟩ | ⟨-, h₁⟩
    · rcases opens_eq_some h₂ with ⟨rfl, -⟩ | ⟨-, h₂⟩
      · rfl
      · exact absurd hn (hnew _ _ h₂)
    · rcases opens_eq_some h₂ with ⟨-, hn⟩ | ⟨-, h₂⟩
      · exact absurd hn (hnew _ _ h₁)
      · exact h.inj fd₁ fd₂ o h₁ h₂
  · intro o ho
    exact Nat.lt_succ_of_lt (h.closed_lt o ho)
  · intro fd' o ho
    rcases opens_eq_some ho with ⟨-, rfl⟩ | ⟨-, ho⟩
    · exact fun hmem => Nat.lt_irrefl _ (h.closed_lt _ hmem)
    · exact h.pending fd' o ho
  · intro o ho hnot
    have hne : o ≠ k.opened := fun heq => hnot fd (heq ▸ opens_self)
    refine h.ended o (Nat.lt_of_le_of_ne (Nat.le_of_lt_succ ho) hne) fun fd' ho' => hnot fd' ?_
    have hfd' : fd' ≠ fd := by
      rintro rfl
      rw [hfd] at ho'
      cases ho'
    rw [opens_ne hfd', ho']

theorem close (h : k.Good) (hfd : k.table fd = some o) : (k.close fd).Good := by
  have hcloses : (k.close fd).closes = k.closes ++ [some o] := by rw [← hfd]; rfl
  refine ⟨?_, ?_, ?_, ?_, ?_, ?_, ?_⟩
  · intro fd' o' ho
    exact h.lt fd' o' (close_eq_some ho).2
  · intro fd₁ fd₂ o' h₁ h₂
    exact h.inj fd₁ fd₂ o' (close_eq_some h₁).2 (close_eq_some h₂).2
  · intro o' ho
    rw [hcloses, List.mem_append, List.mem_singleton] at ho
    rcases ho with ho | ho
    · exact h.closed_lt o' ho
    · exact h.lt fd o' (hfd.trans ho.symm)
  · intro fd' o' ho
    obtain ⟨hne, ho⟩ := close_eq_some ho
    rw [hcloses, List.mem_append, List.mem_singleton]
    rintro (hmem | heq)
    · exact h.pending fd' o' ho hmem
    · exact hne (h.inj fd' fd o' ho (hfd.trans heq.symm))
  · intro o' ho hnot
    rw [hcloses, List.mem_append, List.mem_singleton]
    by_cases heq : o' = o
    · exact .inr (congrArg some heq)
    · refine .inl (h.ended o' ho fun fd' ho' => hnot fd' ?_)
      rw [close_ne, ho']
      rintro rfl
      exact heq (Option.some.inj (ho'.symm.trans hfd))
  · rw [hcloses]
    refine List.nodup_append.mpr ⟨h.once, List.nodup_singleton _, fun c hc c' hc' heq => ?_⟩
    rw [List.mem_singleton] at hc'
    exact h.pending fd o hfd (hc' ▸ heq ▸ hc)
  · rw [hcloses, List.mem_append, List.mem_singleton]
    rintro (hmem | heq)
    · exact h.isOpen hmem
    · cases heq

end Good

end Handles

end BackendPatterns.Lib
