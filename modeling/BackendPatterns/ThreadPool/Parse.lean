import BackendPatterns.Lib.Horner

/-! # The parsing job

`expensive_parse` is a polynomial hash that is reduced in every iteration. The largest
`int` is exactly large enough for the largest request id. -/

namespace BackendPatterns.ThreadPool
open BackendPatterns.Lib

/-- What an `int` can hold. -/
def IsInt (x : Int) : Prop := -2147483648 ≤ x ∧ x ≤ 2147483647

instance (x : Int) : Decidable (IsInt x) := inferInstanceAs (Decidable (_ ∧ _))

/-- The result of an operation on `int`, undefined where it overflows. -/
def toInt (x : Int) : Option Int := if IsInt x then some x else none

/-- `acc = (acc * 131 + request_id + i) % 1'000'003` -/
def parseStep (requestId acc i : Int) : Option Int := do
  let product ← toInt (acc * 131)
  let sum ← toInt (product + requestId)
  let sum ← toInt (sum + i)
  toInt (sum.tmod 1000003)

/-- `acc` after the iterations for `i < n`. -/
def parseLoop (requestId : Int) : Nat → Option Int
  | 0 => some 0
  | n + 1 => (parseLoop requestId n).bind fun acc => parseStep requestId acc n

def expensiveParse (requestId : Int) : Option Int := parseLoop requestId 100000

variable {requestId acc i : Int} {n : Nat}

theorem toInt_eq {x : Int} (h : IsInt x) : toInt x = some x := if_pos h

/-- The values of one iteration, from left to right. -/
structure Fits (requestId acc i : Int) : Prop where
  product : IsInt (acc * 131)
  sum : IsInt (acc * 131 + requestId)
  total : IsInt (acc * 131 + requestId + i)

theorem fits (hid : 0 ≤ requestId ∧ requestId ≤ 2016383386) (hacc : 0 ≤ acc ∧ acc < 1000003)
    (hi : 0 ≤ i ∧ i < 100000) : Fits requestId acc i := by
  refine ⟨?_, ?_, ?_⟩ <;> unfold IsInt <;> omega

theorem parseStep_eq (h : Fits requestId acc i) (hnonneg : 0 ≤ acc * 131 + requestId + i) :
    parseStep requestId acc i = some ((acc * 131 + requestId + i) % 1000003) := by
  have hmod : IsInt ((acc * 131 + requestId + i) % 1000003) := by
    unfold IsInt
    omega
  simp only [parseStep, toInt_eq h.product, toInt_eq h.sum, toInt_eq h.total,
    Option.bind_eq_bind, Option.bind_some, Int.tmod_eq_emod_of_nonneg hnonneg, toInt_eq hmod]

/-- The remainder of the polynomial in `131` with the coefficients so far. -/
def hash (requestId : Int) (n : Nat) : Int :=
  Horner.value 131 (fun i => requestId + (i : Int)) n % 1000003

theorem hash_range (requestId : Int) (n : Nat) :
    0 ≤ hash requestId n ∧ hash requestId n < 1000003 := by
  unfold hash
  omega

theorem hash_succ (requestId : Int) (n : Nat) :
    hash requestId (n + 1) = (hash requestId n * 131 + requestId + n) % 1000003 := by
  rw [hash, Horner.value_succ_emod, ← hash, Int.add_assoc]

theorem fits_hash (hid : 0 ≤ requestId ∧ requestId ≤ 2016383386) (hn : n < 100000) :
    Fits requestId (hash requestId n) n :=
  fits hid (hash_range requestId n) ⟨Int.natCast_nonneg n, by omega⟩

theorem parseLoop_eq (hid : 0 ≤ requestId ∧ requestId ≤ 2016383386) (hn : n ≤ 100000) :
    parseLoop requestId n = some (hash requestId n) := by
  induction n with
  | zero => rfl
  | succ n ih =>
    have hnonneg : 0 ≤ hash requestId n * 131 + requestId + n := by
      have hrange := hash_range requestId n
      omega
    rw [parseLoop, ih (by omega), Option.bind_some, parseStep_eq (fits_hash hid hn) hnonneg,
      hash_succ]

/-- For every request id up to 2016383386: all intermediate values of all iterations
are `int`s, `acc` stays below 1000003, and the result is the remainder of the whole
sum. -/
theorem expensiveParse_hash (hid : 0 ≤ requestId ∧ requestId ≤ 2016383386) :
    (∀ n ≤ 100000, ∃ acc, parseLoop requestId n = some acc ∧ 0 ≤ acc ∧ acc < 1000003 ∧
      (n < 100000 → IsInt (acc * 131) ∧ IsInt (acc * 131 + requestId) ∧
        IsInt (acc * 131 + requestId + n))) ∧
    expensiveParse requestId = some
      ((∑ i ∈ Finset.range 100000, (requestId + (i : Int)) * 131 ^ (99999 - i)) % 1000003) := by
  refine ⟨fun n hn => ?_, parseLoop_eq hid (Nat.le_refl _)⟩
  obtain ⟨hnonneg, hlt⟩ := hash_range requestId n
  refine ⟨hash requestId n, parseLoop_eq hid hn, hnonneg, hlt, fun hmore => ?_⟩
  obtain ⟨hproduct, hsum, htotal⟩ := fits_hash hid hmore
  exact ⟨hproduct, hsum, htotal⟩

/-- The largest request id there is no overflow for. -/
theorem expensiveParse_hash_largest : ∃ acc, parseLoop 2016383386 99999 = some acc ∧
    acc * 131 + 2016383386 + 99999 ≤ 2147483647 := by
  obtain ⟨hsteps, -⟩ := @expensiveParse_hash 2016383386 (by decide)
  obtain ⟨acc, hacc, -, -, hfits⟩ := hsteps 99999 (by decide)
  exact ⟨acc, hacc, (hfits (by decide)).2.2.2⟩

end BackendPatterns.ThreadPool
