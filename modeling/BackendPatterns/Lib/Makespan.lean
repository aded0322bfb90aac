import Mathlib.Algebra.BigOperators.Group.List.Basic
import Mathlib.Algebra.Order.Monoid.Unbundled.Pow
import Mathlib.Algebra.Order.BigOperators.Group.List
import BackendPatterns.Lib.Balance

/-! # How good greedy balancing is

Whoever places the same amounts in any other way, knowing all of them in
advance, ends with a largest load of at least `n / (2n - 1)` of the greedy one,
where `n` is the number of loads. -/

namespace BackendPatterns.Lib.Balance

variable {α : Type*} [AddCommGroup α]

/-- Some load gets `w` more. -/
inductive Places (w : α) (loads : List α) : List α → Prop
  | mk {i : Nat} {x : α} : loads[i]? = some x → Places w loads (loads.set i (x + w))

/-- Some amounts, placed one after the other. -/
inductive Schedule : List α → List α → List α → Prop
  | nil {loads : List α} : Schedule [] loads loads
  | cons {w : α} {ws loads loads₁ loads₂ : List α} : Places w loads loads₁ →
      Schedule ws loads₁ loads₂ → Schedule (w :: ws) loads loads₂

variable {w x : α} {ws loads loads' : List α}

theorem Places.sum (h : Places w loads loads') : loads'.sum = loads.sum + w := by
  obtain ⟨hget⟩ := h
  obtain ⟨hlt, rfl⟩ := List.getElem?_eq_some_iff.mp hget
  rw [List.sum_set', dif_pos hlt, neg_add_cancel_left]

theorem Places.length (h : Places w loads loads') : loads'.length = loads.length := by
  obtain ⟨-⟩ := h
  exact List.length_set

theorem Schedule.sum (h : Schedule ws loads loads') : loads'.sum = loads.sum + ws.sum := by
  induction h with
  | nil => rw [List.sum_nil, add_zero]
  | cons hp _ ih => rw [ih, hp.sum, List.sum_cons, add_assoc]

theorem Schedule.length (h : Schedule ws loads loads') : loads'.length = loads.length := by
  induction h with
  | nil => rfl
  | cons hp _ ih => exact ih.trans hp.length

variable [LinearOrder α] [IsOrderedAddMonoid α]

omit [IsOrderedAddMonoid α] in
theorem Adds.places (h : Adds w loads loads') : Places w loads loads' := by
  obtain ⟨hget, -⟩ := h
  exact .mk hget

omit [IsOrderedAddMonoid α] in
theorem Runs.schedule (h : Runs ws loads loads') : Schedule ws loads loads' := by
  induction h with
  | nil => exact .nil
  | cons ha _ ih => exact .cons ha.places ih

/-- No load shrinks. -/
theorem Places.grows (h : Places w loads loads') (hw : 0 ≤ w) {i : Nat} (hi : loads[i]? = some x) :
    ∃ y, loads'[i]? = some y ∧ x ≤ y := by
  obtain ⟨hget⟩ := h
  rename_i j z
  obtain ⟨hlt, -⟩ := List.getElem?_eq_some_iff.mp hi
  by_cases hij : j = i
  · subst hij
    cases hget.symm.trans hi
    exact ⟨x + w, List.getElem?_set_self hlt, le_add_of_nonneg_right hw⟩
  · exact ⟨x, (List.getElem?_set_ne hij).trans hi, le_rfl⟩

theorem Schedule.grows (h : Schedule ws loads loads') (hws : ∀ w ∈ ws, 0 ≤ w) {i : Nat}
    (hi : loads[i]? = some x) : ∃ y, loads'[i]? = some y ∧ x ≤ y := by
  induction h generalizing x with
  | nil => exact ⟨x, hi, le_rfl⟩
  | cons hp _ ih =>
    rw [List.forall_mem_cons] at hws
    obtain ⟨y, hy, hxy⟩ := hp.grows hws.1 hi
    obtain ⟨z, hz, hyz⟩ := ih hws.2 hy
    exact ⟨z, hz, hxy.trans hyz⟩

theorem Places.nonneg (h : Places w loads loads') (hw : 0 ≤ w) (h0 : ∀ x ∈ loads, 0 ≤ x) :
    ∀ x ∈ loads', 0 ≤ x := by
  obtain ⟨hget⟩ := h
  rename_i j z
  intro x hx
  rcases List.mem_or_eq_of_mem_set hx with hx | rfl
  · exact h0 x hx
  · exact add_nonneg (h0 z (List.mem_of_getElem? hget)) hw

/-- Some load holds each amount. -/
theorem Schedule.holds (h : Schedule ws loads loads') (hws : ∀ w ∈ ws, 0 ≤ w)
    (h0 : ∀ x ∈ loads, 0 ≤ x) (hw : w ∈ ws) : ∃ y ∈ loads', w ≤ y := by
  induction h with
  | nil => cases hw
  | @cons w₁ ws loads loads₁ loads₂ hp hs ih =>
    rw [List.forall_mem_cons] at hws
    rcases List.mem_cons.mp hw with rfl | hw
    · obtain ⟨hget⟩ := hp
      rename_i j z
      obtain ⟨hlt, -⟩ := List.getElem?_eq_some_iff.mp hget
      obtain ⟨y, hy, hle⟩ := hs.grows hws.2 (List.getElem?_set_self (a := z + w) hlt)
      refine ⟨y, List.mem_of_getElem? hy, ?_⟩
      exact (le_add_of_nonneg_left (h0 z (List.mem_of_getElem? hget))).trans hle
    · exact ih hws.2 (hp.nonneg hws.1 h0) hw

/-- A load that greedy balancing has touched was smallest when it got its last
amount. -/
theorem Runs.last (h : Runs ws loads loads') (hws : ∀ w ∈ ws, 0 ≤ w) {i : Nat}
    (hi : loads'[i]? = some x) : loads[i]? = some x ∨
      ∃ w ∈ ws, loads.length • x + w ≤ loads'.sum + loads.length • w := by
  induction h with
  | nil => exact .inl hi
  | @cons w ws loads loads₁ loads₂ ha hr ih =>
    rw [List.forall_mem_cons] at hws
    have hlen : loads₁.length = loads.length := ha.places.length
    obtain hold | ⟨w', hw', hle⟩ := ih hws.2 hi
    · have hsum₁ := ha.places.sum
      obtain ⟨hget, hmin⟩ := ha
      rename_i j z
      obtain ⟨hlt, -⟩ := List.getElem?_eq_some_iff.mp hget
      by_cases hij : j = i
      · subst hij
        rw [List.getElem?_set_self hlt] at hold
        cases hold
        refine .inr ⟨w, List.mem_cons_self .., ?_⟩
        have hsmall : loads.length • z ≤ loads.sum := List.card_nsmul_le_sum loads z hmin
        have hgrow : loads.sum + w ≤ loads₂.sum := by
          rw [← hsum₁, hr.schedule.sum]
          exact le_add_of_nonneg_right (List.sum_nonneg hws.2)
        calc loads.length • (z + w) + w = loads.length • z + w + loads.length • w := by
              rw [nsmul_add, add_right_comm]
          _ ≤ loads.sum + w + loads.length • w := by gcongr
          _ ≤ loads₂.sum + loads.length • w := by gcongr
      · exact .inl ((List.getElem?_set_ne hij).symm.trans hold)
    · rw [hlen] at hle
      exact .inr ⟨w', List.mem_cons_of_mem w hw', hle⟩

/-- Greedy balancing against any other way to place the same amounts, whose
loads stay below `b`. -/
theorem Runs.competitive {other : List α} {b : α} (h : Runs ws loads loads')
    (ho : Schedule ws loads other) (hws : ∀ w ∈ ws, 0 ≤ w) (h0 : ∀ x ∈ loads, 0 ≤ x)
    (hb : ∀ y ∈ other, y ≤ b) (hx : x ∈ loads') :
    loads.length • x + b ≤ (2 * loads.length) • b := by
  obtain ⟨i, hi⟩ := List.mem_iff_getElem?.mp hx
  have hlt := (List.getElem?_eq_some_iff.mp hi).1
  rw [h.schedule.length] at hlt
  obtain ⟨n, hn⟩ : ∃ n, loads.length = n + 1 := Nat.exists_eq_succ_of_ne_zero (by omega)
  rw [Nat.two_mul, add_nsmul]
  obtain hold | ⟨w, hw, hle⟩ := h.last hws hi
  · -- what was there at the start, nobody can move
    obtain ⟨y, hy, hxy⟩ := ho.grows hws hold
    have hxb : x ≤ b := hxy.trans (hb y (List.mem_of_getElem? hy))
    have hb0 : 0 ≤ b := (h0 x (List.mem_of_getElem? hold)).trans hxb
    refine add_le_add (nsmul_le_nsmul_right hxb _) ?_
    rw [hn, succ_nsmul]
    exact le_add_of_nonneg_left (nsmul_nonneg hb0 n)
  · obtain ⟨z, hz, hwz⟩ := ho.holds hws h0 hw
    have hwb : w ≤ b := hwz.trans (hb z hz)
    have hsum : loads'.sum ≤ loads.length • b := by
      rw [h.schedule.sum, ← ho.sum, ← ho.length]
      exact List.sum_le_card_nsmul other b hb
    have hlast : loads.length • x ≤ loads'.sum + n • w := by
      rw [hn, succ_nsmul w, ← add_assoc, ← hn] at hle
      exact le_of_add_le_add_right hle
    calc loads.length • x + b ≤ loads'.sum + n • w + b := by gcongr
      _ ≤ loads.length • b + n • b + b := by gcongr
      _ = loads.length • b + loads.length • b := by rw [add_assoc, ← succ_nsmul, ← hn]

end BackendPatterns.Lib.Balance
