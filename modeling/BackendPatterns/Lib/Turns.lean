import Mathlib.Algebra.BigOperators.Group.List.Basic
import Mathlib.Data.Int.CardIntervalMod

/-! # Taking turns

Turn `k` of `n` participants is that of `k % n`. Any `n` turns in a row are one of
each, and from turn 0 on nobody gets ahead by more than one. -/

namespace BackendPatterns.Lib.Turns

/-- Whose turns the `len` turns from `start` on are. -/
def turns (n start len : Nat) : List Nat := (List.range' start len).map (· % n)

variable {n i j start len : Nat}

theorem length_turns : (turns n start len).length = len := by
  rw [turns, List.length_map, List.length_range']

theorem turns_succ : turns n start (len + 1) = start % n :: turns n (start + 1) len := rfl

theorem drop_turns (k : Nat) : (turns n start len).drop k = turns n (start + k) (len - k) := by
  rw [turns, turns, ← List.map_drop, List.drop_range', Nat.mul_one]

theorem take_turns {k : Nat} (hk : k ≤ len) :
    (turns n start len).take k = turns n start k := by
  rw [turns, turns, ← List.map_take, List.take_range'_of_length_ge hk]

theorem count_turns :
    (turns n start len).count j = Nat.count (fun k => (start + k) % n = j) len := by
  rw [turns, List.range'_eq_map_range, List.map_map, List.count, List.countP_map, Nat.count]
  rfl

theorem count_turns_zero (hj : j < n) :
    (turns n 0 len).count j = len / n + if j < len % n then 1 else 0 := by
  have hmod : ∀ k, (0 + k) % n = j ↔ k ≡ j [MOD n] := by
    intro k
    rw [Nat.zero_add, Nat.ModEq, Nat.mod_eq_of_lt hj]
  rw [count_turns]
  simp only [hmod]
  rw [Nat.count_modEq_card _ (Nat.zero_lt_of_lt hj), Nat.mod_eq_of_lt hj]

/-- A round has one turn of each, wherever it starts. -/
theorem count_round (hj : j < n) (start : Nat) : (turns n start n).count j = 1 := by
  have hsplit := Nat.count_add (fun k => (0 + k) % n = j) start n
  rw [← count_turns, ← count_turns, count_turns_zero hj, count_turns_zero hj,
    Nat.add_div_right _ (Nat.zero_lt_of_lt hj), Nat.add_mod_right] at hsplit
  rw [count_turns]
  simp only [Nat.zero_add] at hsplit
  omega

/-- Nobody is more than one turn ahead. -/
theorem count_le_succ (hi : i < n) (hj : j < n) :
    (turns n 0 len).count i ≤ (turns n 0 len).count j + 1 := by
  rw [count_turns_zero hi, count_turns_zero hj]
  split <;> split <;> omega

/-! ## What the turns are worth -/

variable {M : Type*} [AddMonoid M]

/-- What participant `j` gets when the turns from `start` on are worth `worths`. -/
def share (n start j : Nat) (worths : List M) : M :=
  (((worths.zipIdx start).filter fun w => w.2 % n = j).map Prod.fst).sum

@[simp] theorem share_nil : share n start j ([] : List M) = 0 := rfl

theorem share_own (h : start % n = j) (w : M) (ws : List M) :
    share n start j (w :: ws) = w + share n (start + 1) j ws := by
  rw [share, List.zipIdx_cons, List.filter_cons_of_pos (by simpa using h), List.map_cons,
    List.sum_cons, share]

theorem share_other (h : start % n ≠ j) (w : M) (ws : List M) :
    share n start j (w :: ws) = share n (start + 1) j ws := by
  rw [share, List.zipIdx_cons, List.filter_cons_of_neg (by simpa using h), share]

end BackendPatterns.Lib.Turns
