import Mathlib.Data.List.Basic
import BackendPatterns.Lib.Bytes

/-! # Decimal numerals

A numeral is the digits of a number, after a minus sign if it is negative. Whatever
stands in front of a numeral, a byte that no numeral has shows where it begins. -/

namespace BackendPatterns.Lib

def digits (n : Nat) : Bytes := (Nat.toDigits 10 n).map fun c => UInt8.ofNat c.toNat

def minus : UInt8 := 45

/-- `std::to_string` of an `int`. -/
def decimal : Int → Bytes
  | .ofNat n => digits n
  | .negSucc n => minus :: digits (n + 1)

def IsNumeral (b : UInt8) : Prop := b = minus ∨ 48 ≤ b.toNat ∧ b.toNat ≤ 57

instance (b : UInt8) : Decidable (IsNumeral b) :=
  inferInstanceAs (Decidable (b = minus ∨ 48 ≤ b.toNat ∧ b.toNat ≤ 57))

variable {α : Type*} {m n : Nat} {i j : Int} {b : UInt8}

theorem toNat_digit {c : Char} (h : c ∈ Nat.toDigits 10 n) :
    (UInt8.ofNat c.toNat).toNat = c.toNat ∧ 48 ≤ c.toNat ∧ c.toNat ≤ 57 := by
  have hdigit : '0'.toNat ≤ c.toNat ∧ c.toNat ≤ '9'.toNat :=
    Char.isDigit_iff_toNat.mp (Nat.isDigit_of_mem_toDigits (by decide) (by decide) h)
  have hle : c.toNat ≤ 57 := hdigit.2
  refine ⟨?_, hdigit.1, hle⟩
  rw [UInt8.toNat_ofNat']
  exact Nat.mod_eq_of_lt (by omega)

theorem mem_digits (h : b ∈ digits n) : 48 ≤ b.toNat ∧ b.toNat ≤ 57 := by
  obtain ⟨c, hc, rfl⟩ := List.mem_map.mp h
  obtain ⟨heq, hrange⟩ := toNat_digit hc
  rw [heq]
  exact hrange

theorem digits_inj (h : digits m = digits n) : m = n := by
  have hchars : ∀ k, (digits k).map (fun b => Char.ofNat b.toNat) = Nat.toDigits 10 k := by
    intro k
    rw [digits, List.map_map]
    refine (List.map_congr_left fun c hc => ?_).trans (List.map_id _)
    rw [Function.comp_apply, (toNat_digit hc).1, Char.ofNat_toNat, id]
  have hdigits : Nat.toDigits 10 m = Nat.toDigits 10 n := by
    rw [← hchars, h, hchars]
  have hvalue := congrArg (fun ds => Nat.ofDigitChars 10 ds 0) hdigits
  simpa using hvalue

theorem mem_decimal (h : b ∈ decimal i) : IsNumeral b := by
  cases i with
  | ofNat n => exact .inr (mem_digits h)
  | negSucc n =>
    rcases List.mem_cons.mp h with hminus | hdigit
    · exact .inl hminus
    · exact .inr (mem_digits hdigit)

theorem minus_not_mem_digits : minus ∉ digits n := by
  intro h
  exact absurd (mem_digits h).1 (by decide)

theorem digits_ne_minus (ds : Bytes) : digits n ≠ minus :: ds := by
  intro h
  refine @minus_not_mem_digits n ?_
  rw [h]
  exact List.mem_cons_self

theorem decimal_inj (h : decimal i = decimal j) : i = j := by
  cases i with
  | ofNat m =>
    cases j with
    | ofNat n => rw [digits_inj h]
    | negSucc n => exact absurd h (digits_ne_minus _)
  | negSucc m =>
    cases j with
    | ofNat n => exact absurd h.symm (digits_ne_minus _)
    | negSucc n =>
      have htail := digits_inj (List.tail_eq_of_cons_eq h)
      rw [Nat.succ.inj htail]

/-! ## Delimiters -/

variable {d : α} {s t x y : List α}

theorem eq_nil_of_delimiter (hx : d ∉ x) {r : List α} (h : d :: x = r ++ d :: y) : r = [] := by
  cases r with
  | nil => rfl
  | cons e r =>
    refine absurd ?_ hx
    rw [(List.cons.inj h).2]
    exact List.mem_append_right r List.mem_cons_self

/-- The last delimiter splits a list in one way. -/
theorem append_delimiter_inj (hx : d ∉ x) (hy : d ∉ y) (h : s ++ d :: x = t ++ d :: y) :
    s = t ∧ x = y := by
  rcases List.append_eq_append_iff.mp h with ⟨r, ht, hr⟩ | ⟨r, hs, hr⟩
  · cases eq_nil_of_delimiter hx hr
    rw [List.append_nil] at ht
    exact ⟨ht.symm, (List.cons.inj hr).2⟩
  · cases eq_nil_of_delimiter hy hr
    rw [List.append_nil] at hs
    exact ⟨hs, (List.cons.inj hr).2.symm⟩

/-- A text and a numeral, with a delimiter between them that no numeral has. -/
theorem append_decimal_inj {d : UInt8} {s t rest : Bytes} (hd : ¬ IsNumeral d)
    (h : s ++ d :: decimal i ++ rest = t ++ d :: decimal j ++ rest) : s = t ∧ i = j := by
  obtain ⟨hs, hdecimal⟩ := append_delimiter_inj (mt mem_decimal hd) (mt mem_decimal hd)
    (List.append_cancel_right h)
  exact ⟨hs, decimal_inj hdecimal⟩

end BackendPatterns.Lib
