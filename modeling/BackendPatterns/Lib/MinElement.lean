import Mathlib.Order.Lattice
import Mathlib.Data.List.Basic

/-! # The first of the smallest elements

`std::min_element` over a list, where a reference to an element is its index. -/

namespace BackendPatterns.Lib

variable {α κ : Type*}

/-- The loop: the smallest element so far and its index, and the index of the next. -/
def minLoop (less : α → α → Bool) (best : α) (smallest it : Nat) : List α → Nat
  | [] => smallest
  | x :: xs =>
    if less x best then minLoop less x it (it + 1) xs else minLoop less best smallest (it + 1) xs

/-- `std::min_element`; `none` is the end of an empty range. -/
def minElement (less : α → α → Bool) : List α → Option Nat
  | [] => none
  | x :: xs => some (minLoop less x 0 1 xs)

/-- `x` stands at `i`, none is smaller, and those before are larger. -/
structure FirstMin [LinearOrder κ] (key : α → κ) (l : List α) (i : Nat) (x : α) : Prop where
  get : l[i]? = some x
  le : ∀ y ∈ l, key x ≤ key y
  first : ∀ j y, j < i → l[j]? = some y → key x < key y

variable [LinearOrder κ] {key : α → κ} {l : List α} {i : Nat} {x y : α}

theorem FirstMin.lt_length (h : FirstMin key l i x) : i < l.length :=
  (List.getElem?_eq_some_iff.mp h.get).1

theorem FirstMin.unique (h : FirstMin key l i x) {j : Nat} (h' : FirstMin key l j y) :
    i = j ∧ x = y := by
  rcases Nat.lt_trichotomy i j with hlt | rfl | hlt
  · exact absurd (h'.first i x hlt h.get) (not_lt.mpr (h.le y (List.mem_of_getElem? h'.get)))
  · exact ⟨rfl, Option.some.inj (h.get.symm.trans h'.get)⟩
  · exact absurd (h.first j y hlt h'.get) (not_lt.mpr (h'.le x (List.mem_of_getElem? h.get)))

/-- A smaller element comes next. -/
theorem FirstMin.smaller (h : FirstMin key l i x) (hlt : key y < key x) :
    FirstMin key (l ++ [y]) l.length y where
  get := List.getElem?_concat_length
  le z hz := by
    rcases List.mem_append.mp hz with hz | hz
    · exact le_of_lt (lt_of_lt_of_le hlt (h.le z hz))
    · rw [List.mem_singleton.mp hz]
  first j z hj hz := by
    rw [List.getElem?_append_left hj] at hz
    exact lt_of_lt_of_le hlt (h.le z (List.mem_of_getElem? hz))

/-- An element comes next that is not smaller. -/
theorem FirstMin.keep (h : FirstMin key l i x) (hle : key x ≤ key y) :
    FirstMin key (l ++ [y]) i x where
  get := by rw [List.getElem?_append_left h.lt_length, h.get]
  le z hz := by
    rcases List.mem_append.mp hz with hz | hz
    · exact h.le z hz
    · rwa [List.mem_singleton.mp hz]
  first j z hj hz := by
    rw [List.getElem?_append_left (Nat.lt_trans hj h.lt_length)] at hz
    exact h.first j z hj hz

theorem minLoop_firstMin (h : FirstMin key l i x) (xs : List α) :
    ∃ y, FirstMin key (l ++ xs)
      (minLoop (fun a b => decide (key a < key b)) x i l.length xs) y := by
  induction xs generalizing l i x with
  | nil =>
    rw [List.append_nil]
    exact ⟨x, h⟩
  | cons y xs ih =>
    have hlength : (l ++ [y]).length = l.length + 1 := List.length_append
    rw [minLoop, ← hlength, List.append_cons]
    by_cases hlt : key y < key x
    · rw [if_pos (decide_eq_true hlt)]
      exact ih (h.smaller hlt)
    · rw [if_neg (by simpa using hlt)]
      exact ih (h.keep (not_lt.mp hlt))

theorem minElement_firstMin (key : α → κ) (hl : l ≠ []) : ∃ i x,
    minElement (fun a b => decide (key a < key b)) l = some i ∧ FirstMin key l i x := by
  cases l with
  | nil => exact absurd rfl hl
  | cons y ys =>
    have hone : FirstMin key [y] 0 y :=
      ⟨rfl, fun z hz => by rw [List.mem_singleton.mp hz],
        fun j z hj => absurd hj (Nat.not_lt_zero j)⟩
    obtain ⟨x, hx⟩ := minLoop_firstMin hone ys
    exact ⟨_, x, rfl, hx⟩

end BackendPatterns.Lib
