import Mathlib.Algebra.BigOperators.Group.Finset.Basic
import Mathlib.Data.Fintype.BigOperators

/-! # Counting threads by position

The threads of a machine stand at positions `f : ι → π`. An interleaving step
moves one thread, so a count changes by what that thread contributed before
and after. -/

namespace BackendPatterns.Lib.Threads

variable {ι π ρ : Type*} [Fintype ι]

/-- How many threads stand at a position that satisfies `P`. -/
def count (P : π → Prop) [DecidablePred P] (f : ι → π) : Nat :=
  (Finset.univ.filter fun i => P (f i)).card

theorem count_pos_iff {P : π → Prop} [DecidablePred P] {f : ι → π} :
    0 < count P f ↔ ∃ i, P (f i) := by
  simp [count, Finset.card_pos, Finset.Nonempty]

theorem count_eq_zero_iff {P : π → Prop} [DecidablePred P] {f : ι → π} :
    count P f = 0 ↔ ∀ i, ¬ P (f i) := by
  simp [count, Finset.filter_eq_empty_iff]

theorem count_congr {P : π → Prop} {Q : ρ → Prop} [DecidablePred P] [DecidablePred Q]
    {f : ι → π} {g : ι → ρ} (h : ∀ i, P (f i) ↔ Q (g i)) : count P f = count Q g := by
  unfold count
  simp only [h]

variable [DecidableEq ι]

omit [Fintype ι] in
/-- A thread that stands where the moved thread did not go was there before. -/
theorem of_update {f : ι → π} {i j : ι} {b q : π} (h : Function.update f i b j = q)
    (hb : b ≠ q) : f j = q := by
  by_cases hji : j = i
  · subst hji
    rw [Function.update_self] at h
    exact absurd h hb
  · rwa [Function.update_of_ne hji] at h

/-- Two sums over all threads that differ in one summand. -/
theorem sum_of_ne {M : Type*} [AddCommMonoid M] {f g : ι → M} {i : ι}
    (h : ∀ j, j ≠ i → g j = f j) : ∑ j, g j + f i = ∑ j, f j + g i := by
  have hf := Fintype.sum_eq_add_sum_compl i f
  have hg := Fintype.sum_eq_add_sum_compl i g
  have hrest : ∑ j ∈ {i}ᶜ, g j = ∑ j ∈ {i}ᶜ, f j :=
    Finset.sum_congr rfl fun j hj => h j (by simpa using hj)
  rw [hf, hg, hrest, add_comm (g i), add_assoc, add_comm (g i), ← add_assoc, add_comm (f i)]

/-- One summand grows and the sum grows with it. -/
theorem sum_add_of_ne {M : Type*} [AddCancelCommMonoid M] {f g : ι → M} {i : ι} {x : M}
    (h : ∀ j, j ≠ i → g j = f j) (hi : g i = f i + x) : ∑ j, g j = ∑ j, f j + x := by
  have hs := sum_of_ne h
  rw [hi, add_comm (f i), ← add_assoc] at hs
  exact add_right_cancel hs

/-- Sum a weight over all threads: one moved thread changes one summand. -/
theorem sum_update {M : Type*} [AddCommMonoid M] (w : π → M) (f : ι → π) (i : ι) (b : π) :
    ∑ j, w (Function.update f i b j) + w (f i) = ∑ j, w (f j) + w b := by
  have h := sum_of_ne (f := fun j => w (f j)) (g := fun j => w (Function.update f i b j))
    (i := i) fun j hj => by rw [Function.update_of_ne hj]
  rwa [Function.update_self] at h

theorem count_update (P : π → Prop) [DecidablePred P] (f : ι → π) (i : ι) (b : π) :
    count P (Function.update f i b) + (if P (f i) then 1 else 0) =
      count P f + (if P b then 1 else 0) := by
  simp only [count, Finset.card_filter]
  exact sum_update (fun p => if P p then 1 else 0) f i b

end BackendPatterns.Lib.Threads
