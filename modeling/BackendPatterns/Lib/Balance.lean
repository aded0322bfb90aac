import Mathlib.Algebra.Order.Group.Defs
import Mathlib.Data.List.Basic

/-! # Greedy balancing

Loads grow one at a time, always a smallest of them. They never drift further
apart than they were at the start, or than the largest amount that was added. -/

namespace BackendPatterns.Lib.Balance

variable {α : Type*} [AddCommGroup α] [LinearOrder α] [IsOrderedAddMonoid α]

/-- No two loads are more than `d` apart. -/
def Within (d : α) (loads : List α) : Prop := ∀ x ∈ loads, ∀ y ∈ loads, x ≤ y + d

/-- A smallest load gets `w` more. -/
inductive Adds (w : α) (loads : List α) : List α → Prop
  | mk {i : Nat} {x : α} : loads[i]? = some x → (∀ y ∈ loads, x ≤ y) →
      Adds w loads (loads.set i (x + w))

variable {d e w : α} {loads loads' : List α}

theorem Within.mono (h : Within d loads) (hde : d ≤ e) : Within e loads := fun x hx y hy =>
  (h x hx y hy).trans (add_le_add_right hde y)

/-- What is added to a smallest load does not take it further than `d` from the
others. -/
theorem Within.adds (h : Within d loads) (h0 : 0 ≤ w) (hw : w ≤ d) (ha : Adds w loads loads') :
    Within d loads' := by
  obtain ⟨hget, hmin⟩ := ha
  rename_i i x
  have hx : x ∈ loads := List.mem_of_getElem? hget
  intro a ha b hb
  rcases List.mem_or_eq_of_mem_set ha with ha | rfl
  · rcases List.mem_or_eq_of_mem_set hb with hb | rfl
    · exact h a ha b hb
    · calc a ≤ x + d := h a ha x hx
        _ ≤ x + w + d := add_le_add_left (le_add_of_nonneg_right h0) d
  · rcases List.mem_or_eq_of_mem_set hb with hb | rfl
    · exact add_le_add (hmin b hb) hw
    · exact le_add_of_nonneg_right (h0.trans hw)

/-- Some amounts, one after the other. -/
inductive Runs : List α → List α → List α → Prop
  | nil {loads : List α} : Runs [] loads loads
  | cons {w : α} {ws loads loads₁ loads₂ : List α} : Adds w loads loads₁ →
      Runs ws loads₁ loads₂ → Runs (w :: ws) loads loads₂

omit [IsOrderedAddMonoid α] in
theorem Runs.ne_nil {ws : List α} (hr : Runs ws loads loads') (h : loads ≠ []) : loads' ≠ [] := by
  induction hr with
  | nil => exact h
  | cons ha _ ih =>
    cases ha
    exact ih (by simpa using h)

theorem Within.runs {ws : List α} (h : Within d loads) (hws : ∀ w ∈ ws, 0 ≤ w)
    (hr : Runs ws loads loads') : Within (ws.foldl max d) loads' := by
  induction hr generalizing d with
  | nil => exact h
  | cons ha _ ih =>
    rw [List.forall_mem_cons] at hws
    exact ih ((h.mono (le_max_left d _)).adds hws.1 (le_max_right d _) ha) hws.2

/-! ## Largest and smallest -/

/-- How far the largest load is from the smallest. -/
def spread (loads : List α) : α :=
  match loads.max?, loads.min? with
  | some largest, some smallest => largest - smallest
  | _, _ => 0

theorem spread_le_iff (h : loads ≠ []) : spread loads ≤ d ↔ Within d loads := by
  obtain ⟨largest, hlargest⟩ : ∃ largest, loads.max? = some largest :=
    Option.ne_none_iff_exists'.mp (mt List.max?_eq_none_iff.mp h)
  obtain ⟨smallest, hsmallest⟩ : ∃ smallest, loads.min? = some smallest :=
    Option.ne_none_iff_exists'.mp (mt List.min?_eq_none_iff.mp h)
  have hspread : spread loads = largest - smallest := by rw [spread, hlargest, hsmallest]
  obtain ⟨hmax, hle⟩ := List.max?_eq_some_iff.mp hlargest
  obtain ⟨hmin, hge⟩ := List.min?_eq_some_iff.mp hsmallest
  rw [hspread, sub_le_iff_le_add']
  constructor
  · intro hd x hx y hy
    exact (hle x hx).trans (hd.trans (add_le_add_left (hge y hy) d))
  · exact fun hd => hd largest hmax smallest hmin

end BackendPatterns.Lib.Balance
