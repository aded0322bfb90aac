import BackendPatterns.Lib.Bytes

/-! # JSON texts

The grammar of RFC 8259 over the bytes of UTF-8, rule by rule under the names it
has there. Beside it stands a scanner that only looks for string literals, and
that a text of the grammar never stops. -/

namespace BackendPatterns.Lib.Json

/-! ## UTF-8 -/

/-- The bytes of some Unicode text. -/
def Utf8 (s : Bytes) : Prop := ∃ text : List Char, s = text.flatMap String.utf8EncodeChar

/-- A character below 128 is one byte, any other only has bytes above. -/
theorem utf8EncodeChar_cases (c : Char) :
    (∃ b : UInt8, String.utf8EncodeChar c = [b] ∧ b.toNat = c.toNat) ∨
      (128 ≤ c.toNat ∧ ∀ b ∈ String.utf8EncodeChar c, 128 ≤ b.toNat) := by
  unfold String.utf8EncodeChar
  by_cases hone : c.val.toNat ≤ 0x7f
  · left
    rw [if_pos hone]
    refine ⟨_, rfl, ?_⟩
    rw [UInt8.toNat_ofNat']
    exact Nat.mod_eq_of_lt (by omega)
  · right
    rw [if_neg hone]
    refine ⟨Nat.lt_of_not_le hone, ?_⟩
    split
    · simp; omega
    split
    · simp; omega
    · simp; omega

theorem toNat_of_mem {c : Char} {b : UInt8} (h : b ∈ String.utf8EncodeChar c) :
    b.toNat = c.toNat ∨ 128 ≤ b.toNat := by
  rcases utf8EncodeChar_cases c with ⟨b', hone, heq⟩ | ⟨-, habove⟩
  · rw [hone, List.mem_singleton] at h
    exact Or.inl (h ▸ heq)
  · exact Or.inr (habove b h)

/-! ## The grammar -/

def quote : UInt8 := 0x22

def backslash : UInt8 := 0x5C

def IsWs (b : UInt8) : Prop := b = 0x20 ∨ b = 0x09 ∨ b = 0x0A ∨ b = 0x0D

instance (b : UInt8) : Decidable (IsWs b) :=
  inferInstanceAs (Decidable (b = 0x20 ∨ b = 0x09 ∨ b = 0x0A ∨ b = 0x0D))

/-- A structural character and the white space around it. -/
inductive Structural (b : UInt8) : Bytes → Prop
  | mk {before after : Bytes} : (∀ x ∈ before, IsWs x) → (∀ x ∈ after, IsWs x) →
      Structural b (before ++ b :: after)

def IsDigit (b : UInt8) : Prop := 0x30 ≤ b ∧ b ≤ 0x39

def IsHexDigit (b : UInt8) : Prop :=
  IsDigit b ∨ (0x41 ≤ b ∧ b ≤ 0x46) ∨ (0x61 ≤ b ∧ b ≤ 0x66)

instance (b : UInt8) : Decidable (IsDigit b) :=
  inferInstanceAs (Decidable (0x30 ≤ b ∧ b ≤ 0x39))

instance (b : UInt8) : Decidable (IsHexDigit b) :=
  inferInstanceAs (Decidable (IsDigit b ∨ (0x41 ≤ b ∧ b ≤ 0x46) ∨ (0x61 ≤ b ∧ b ≤ 0x66)))

/-- One `DIGIT` at least. -/
inductive Digits : Bytes → Prop
  | mk {b : UInt8} {s : Bytes} : IsDigit b → (∀ x ∈ s, IsDigit x) → Digits (b :: s)

inductive IntPart : Bytes → Prop
  | zero : IntPart [0x30]
  | digits {b : UInt8} {s : Bytes} : IsDigit b → b ≠ 0x30 → (∀ x ∈ s, IsDigit x) → IntPart (b :: s)

inductive Frac : Bytes → Prop
  | none : Frac []
  | some {s : Bytes} : Digits s → Frac (0x2E :: s)

inductive Exp : Bytes → Prop
  | none : Exp []
  | some {e : UInt8} {sign s : Bytes} : e = 0x65 ∨ e = 0x45 → sign = [] ∨ sign = [0x2D] ∨
      sign = [0x2B] → Digits s → Exp (e :: (sign ++ s))

inductive Number : Bytes → Prop
  | mk {minus int frac exp : Bytes} : minus = [] ∨ minus = [0x2D] → IntPart int → Frac frac →
      Exp exp → Number (minus ++ (int ++ (frac ++ exp)))

inductive CharText : Bytes → Prop
  | unescaped {c : Char} : 0x20 ≤ c.toNat → c ≠ '"' → c ≠ '\\' → CharText (String.utf8EncodeChar c)
  | escaped {b : UInt8} : b ∈ str "\"\\/bfnrt" → CharText [backslash, b]
  | unicode {b₁ b₂ b₃ b₄ : UInt8} : IsHexDigit b₁ → IsHexDigit b₂ → IsHexDigit b₃ → IsHexDigit b₄ →
      CharText [backslash, 0x75, b₁, b₂, b₃, b₄]

inductive Chars : Bytes → Prop
  | nil : Chars []
  | cons {s t : Bytes} : CharText s → Chars t → Chars (s ++ t)

inductive StringText : Bytes → Prop
  | mk {s : Bytes} : Chars s → StringText (quote :: (s ++ [quote]))

/-- The rules that refer to one another. -/
inductive Rule
  | value
  | object
  | members
  | member
  | array
  | elements

/-- The texts of a rule. -/
inductive Derives : Rule → Bytes → Prop
  | null : Derives .value (str "null")
  | true : Derives .value (str "true")
  | false : Derives .value (str "false")
  | number {s : Bytes} : Number s → Derives .value s
  | string {s : Bytes} : StringText s → Derives .value s
  | object {s : Bytes} : Derives .object s → Derives .value s
  | array {s : Bytes} : Derives .array s → Derives .value s
  | member {key colon value : Bytes} : StringText key → Structural 0x3A colon →
      Derives .value value → Derives .member (key ++ (colon ++ value))
  | oneMember {s : Bytes} : Derives .member s → Derives .members s
  | moreMembers {s comma t : Bytes} : Derives .member s → Structural 0x2C comma →
      Derives .members t → Derives .members (s ++ (comma ++ t))
  | emptyObject {opening closing : Bytes} : Structural 0x7B opening → Structural 0x7D closing →
      Derives .object (opening ++ closing)
  | members {opening s closing : Bytes} : Structural 0x7B opening → Derives .members s →
      Structural 0x7D closing → Derives .object (opening ++ (s ++ closing))
  | oneElement {s : Bytes} : Derives .value s → Derives .elements s
  | moreElements {s comma t : Bytes} : Derives .value s → Structural 0x2C comma →
      Derives .elements t → Derives .elements (s ++ (comma ++ t))
  | emptyArray {opening closing : Bytes} : Structural 0x5B opening → Structural 0x5D closing →
      Derives .array (opening ++ closing)
  | elements {opening s closing : Bytes} : Structural 0x5B opening → Derives .elements s →
      Structural 0x5D closing → Derives .array (opening ++ (s ++ closing))

theorem Structural.one (b : UInt8) : Structural b [b] :=
  @Structural.mk b [] [] (fun _ h => nomatch h) (fun _ h => nomatch h)

theorem Chars.one {s : Bytes} (h : CharText s) : Chars s :=
  List.append_nil s ▸ .cons h .nil

theorem Chars.append {s t : Bytes} (hs : Chars s) (ht : Chars t) : Chars (s ++ t) := by
  induction hs with
  | nil => exact ht
  | cons htext _ ih => rw [List.append_assoc]; exact .cons htext ih

/-! ## String literals -/

/-- Where a scanner stands. -/
inductive Mode
  | outside
  | inside
  | escaped
  deriving DecidableEq

def Mode.next (mode : Mode) (b : UInt8) : Mode :=
  match mode with
  | .outside => if b = quote then .inside else .outside
  | .inside => if b = backslash then .escaped else if b = quote then .outside else .inside
  | .escaped => .inside

/-- Stops at a control character in a string literal. -/
def scan (mode : Mode) : Bytes → Option Mode
  | [] => some mode
  | b :: s => if mode ≠ .outside ∧ b < 0x20 then none else scan (mode.next b) s

theorem scan_append (mode : Mode) (s t : Bytes) :
    scan mode (s ++ t) = (scan mode s).bind fun mode' => scan mode' t := by
  induction s generalizing mode with
  | nil => rfl
  | cons b s ih =>
    rw [List.cons_append, scan, scan]
    split
    · rfl
    · exact ih _

theorem scan_trans {mode mode' : Mode} {s : Bytes} (h : scan mode s = some mode') (t : Bytes) :
    scan mode (s ++ t) = scan mode' t := by
  rw [scan_append, h, Option.bind_some]

theorem scan_outside {s : Bytes} (h : quote ∉ s) : scan .outside s = some .outside := by
  induction s with
  | nil => rfl
  | cons b s ih =>
    rw [List.mem_cons, not_or] at h
    have hnext : Mode.outside.next b = .outside := if_neg (Ne.symm h.1)
    rw [scan, if_neg (fun hb => hb.1 rfl), hnext]
    exact ih h.2

theorem scan_inside {s : Bytes} (h : ∀ b ∈ s, 0x20 ≤ b ∧ b ≠ quote ∧ b ≠ backslash) :
    scan .inside s = some .inside := by
  induction s with
  | nil => rfl
  | cons b s ih =>
    obtain ⟨hcontrol, hquote, hbackslash⟩ := h b List.mem_cons_self
    have hnext : Mode.inside.next b = .inside := by
      rw [Mode.next, if_neg hbackslash, if_neg hquote]
    rw [scan, if_neg (fun hb => absurd hb.2 (UInt8.not_lt.mpr hcontrol)), hnext]
    exact ih fun x hx => h x (List.mem_cons_of_mem _ hx)

/-! Outside its string literals a text has no quotes. -/

theorem IsWs.ne_quote {b : UInt8} (h : IsWs b) : b ≠ quote := by
  rintro rfl
  exact absurd h (by decide)

theorem IsDigit.ne_quote {b : UInt8} (h : IsDigit b) : b ≠ quote := by
  rintro rfl
  exact absurd h (by decide)

theorem Structural.quote_not_mem {b : UInt8} {s : Bytes} (h : Structural b s) (hb : b ≠ quote) :
    quote ∉ s := by
  obtain ⟨hbefore, hafter⟩ := h
  intro hmem
  rw [List.mem_append, List.mem_cons] at hmem
  rcases hmem with hmem | rfl | hmem
  · exact (hbefore _ hmem).ne_quote rfl
  · exact hb rfl
  · exact (hafter _ hmem).ne_quote rfl

theorem Digits.quote_not_mem {s : Bytes} (h : Digits s) : quote ∉ s := by
  obtain ⟨hb, hs⟩ := h
  intro hmem
  rcases List.mem_cons.mp hmem with rfl | hmem
  · exact hb.ne_quote rfl
  · exact (hs _ hmem).ne_quote rfl

theorem IntPart.quote_not_mem {s : Bytes} (h : IntPart s) : quote ∉ s := by
  cases h with
  | zero => decide
  | digits hb _ hs => exact (Digits.mk hb hs).quote_not_mem

theorem Frac.quote_not_mem {s : Bytes} (h : Frac s) : quote ∉ s := by
  cases h with
  | none => decide
  | some hs => exact List.not_mem_cons_of_ne_of_not_mem (by decide) hs.quote_not_mem

theorem Exp.quote_not_mem {s : Bytes} (h : Exp s) : quote ∉ s := by
  cases h with
  | none => decide
  | some he hsign hs =>
    refine List.not_mem_cons_of_ne_of_not_mem ?_ (List.not_mem_append ?_ hs.quote_not_mem)
    · rcases he with rfl | rfl <;> decide
    · rcases hsign with rfl | rfl | rfl <;> decide

theorem Number.quote_not_mem {s : Bytes} (h : Number s) : quote ∉ s := by
  obtain ⟨hminus, hint, hfrac, hexp⟩ := h
  refine List.not_mem_append ?_ (List.not_mem_append hint.quote_not_mem
    (List.not_mem_append hfrac.quote_not_mem hexp.quote_not_mem))
  rcases hminus with rfl | rfl <;> decide

/-- A backslash takes the next character with it. -/
theorem scan_backslash {b : UInt8} (h : 0x20 ≤ b) (s : Bytes) :
    scan .inside (backslash :: b :: s) = scan .inside s := by
  have hpair : scan .inside [backslash, b] = some .inside := by
    rw [scan, if_neg (by decide), show Mode.inside.next backslash = .escaped from rfl, scan,
      if_neg (fun hb => absurd hb.2 (UInt8.not_lt.mpr h))]
    rfl
  exact scan_trans hpair s

theorem IsHexDigit.scannable {b : UInt8} (h : IsHexDigit b) :
    0x20 ≤ b ∧ b ≠ quote ∧ b ≠ backslash := by
  refine ⟨?_, ?_, ?_⟩
  · rcases h with ⟨hlow, -⟩ | ⟨hlow, -⟩ | ⟨hlow, -⟩
    · exact UInt8.le_trans (by decide) hlow
    · exact UInt8.le_trans (by decide) hlow
    · exact UInt8.le_trans (by decide) hlow
  · rintro rfl
    exact absurd h (by decide)
  · rintro rfl
    exact absurd h (by decide)

theorem CharText.scan {s : Bytes} (h : CharText s) : scan .inside s = some .inside := by
  cases h with
  | @unescaped c hcontrol hquote hbackslash =>
    refine scan_inside fun b hb => ?_
    have hchar := toNat_of_mem hb
    refine ⟨?_, ?_, ?_⟩
    · rw [UInt8.le_iff_toNat_le]
      have h32 : (0x20 : UInt8).toNat = 32 := rfl
      omega
    · rintro rfl
      rcases hchar with heq | habove
      · exact hquote (Char.toNat_inj.mp heq.symm)
      · exact absurd habove (by decide)
    · rintro rfl
      rcases hchar with heq | habove
      · exact hbackslash (Char.toNat_inj.mp heq.symm)
      · exact absurd habove (by decide)
  | @escaped b hb =>
    have hprintable : (str "\"\\/bfnrt").all (0x20 ≤ ·) := by decide
    exact scan_backslash (of_decide_eq_true (List.all_eq_true.mp hprintable b hb)) []
  | unicode h₁ h₂ h₃ h₄ =>
    rw [scan_backslash (by decide)]
    refine scan_inside fun b hb => IsHexDigit.scannable ?_
    simp only [List.mem_cons, List.not_mem_nil, or_false] at hb
    rcases hb with rfl | rfl | rfl | rfl <;> assumption

theorem Chars.scan {s : Bytes} (h : Chars s) : scan .inside s = some .inside := by
  induction h with
  | nil => rfl
  | cons htext _ ih => rw [scan_trans htext.scan, ih]

theorem StringText.scan {s : Bytes} (h : StringText s) : scan .outside s = some .outside := by
  obtain ⟨hchars⟩ := h
  have hopen : Json.scan .outside [quote] = some .inside := rfl
  rw [← List.singleton_append, scan_trans hopen, scan_trans hchars.scan]
  rfl

theorem Structural.scan {b : UInt8} {s : Bytes} (h : Structural b s) (hb : b ≠ quote) :
    scan .outside s = some .outside := scan_outside (h.quote_not_mem hb)

/-- A text of the grammar has no control character in a string literal, and all
its string literals end. -/
theorem Derives.scan {rule : Rule} {s : Bytes} (h : Derives rule s) :
    scan .outside s = some .outside := by
  induction h with
  | null => exact scan_outside (by decide)
  | true => exact scan_outside (by decide)
  | false => exact scan_outside (by decide)
  | number hs => exact scan_outside hs.quote_not_mem
  | string hs => exact hs.scan
  | object _ ih => exact ih
  | array _ ih => exact ih
  | member hkey hcolon _ ih =>
    rw [scan_trans hkey.scan, scan_trans (hcolon.scan (by decide)), ih]
  | oneMember _ ih => exact ih
  | moreMembers _ hcomma _ ih ih' =>
    rw [scan_trans ih, scan_trans (hcomma.scan (by decide)), ih']
  | emptyObject hopening hclosing =>
    rw [scan_trans (hopening.scan (by decide)), hclosing.scan (by decide)]
  | members hopening _ hclosing ih =>
    rw [scan_trans (hopening.scan (by decide)), scan_trans ih, hclosing.scan (by decide)]
  | oneElement _ ih => exact ih
  | moreElements _ hcomma _ ih ih' =>
    rw [scan_trans ih, scan_trans (hcomma.scan (by decide)), ih']
  | emptyArray hopening hclosing =>
    rw [scan_trans (hopening.scan (by decide)), hclosing.scan (by decide)]
  | elements hopening _ hclosing ih =>
    rw [scan_trans (hopening.scan (by decide)), scan_trans ih, hclosing.scan (by decide)]

end BackendPatterns.Lib.Json
