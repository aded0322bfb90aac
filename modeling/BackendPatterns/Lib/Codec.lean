import Mathlib.Data.List.Basic
import Mathlib.Tactic.TypeStar

/-! # Self-delimiting codes

A decoder takes a code off the front of its input and returns the rest. A code
that some decoder takes off whatever follows is self-delimiting: codes can be
written one after the other without lengths. -/

namespace BackendPatterns.Lib.Codec

variable {α β γ : Type*}

/-- Takes a value of `α` off a stream of `β`. -/
abbrev Decoder (α β : Type*) := List β → Option (α × List β)

/-- The decoder takes off the code of any value in `P`, whatever follows it. -/
def Decodes (decode : Decoder α β) (encode : α → List β) (P : α → Prop) : Prop :=
  ∀ x, P x → ∀ rest, decode (encode x ++ rest) = some (x, rest)

theorem Decodes.inj {decode : Decoder α β} {encode : α → List β} {P : α → Prop}
    (h : Decodes decode encode P) {x y : α} (hx : P x) (hy : P y) {rest rest' : List β}
    (heq : encode x ++ rest = encode y ++ rest') : x = y ∧ rest = rest' := by
  have hboth := (h x hx rest).symm.trans ((congrArg decode heq).trans (h y hy rest'))
  cases hboth
  exact ⟨rfl, rfl⟩

/-- No code is a prefix of another. -/
theorem Decodes.eq_of_isPrefix {decode : Decoder α β} {encode : α → List β} {P : α → Prop}
    (h : Decodes decode encode P) {x y : α} (hx : P x) (hy : P y)
    (he : encode x <+: encode y) : x = y := by
  obtain ⟨rest, hrest⟩ := he
  refine (@Decodes.inj _ _ decode encode P h x y hx hy rest [] ?_).1
  rw [hrest, List.append_nil]

/-! ## Decoders -/

/-- Nothing to read. -/
def done : Decoder Unit β := fun l => some ((), l)

/-- One expected symbol. -/
def literal [DecidableEq β] (x : β) : Decoder Unit β
  | [] => none
  | y :: l => if y = x then some ((), l) else none

/-- As many symbols as told. -/
def fixed (n : Nat) (f : List β → α) : Decoder α β := fun l =>
  if n ≤ l.length then some (f (l.take n), l.drop n) else none

/-- All symbols up to a delimiter. -/
def delimited [DecidableEq β] (d : β) : Decoder (List β) β
  | [] => none
  | x :: l => if x = d then some ([], l) else (delimited d l).map fun r => (x :: r.1, r.2)

def pair (p : Decoder α β) (q : Decoder γ β) : Decoder (α × γ) β := fun l =>
  (p l).bind fun r => (q r.2).map fun r' => ((r.1, r'.1), r'.2)

def map (f : α → γ) (p : Decoder α β) : Decoder γ β := fun l =>
  (p l).map fun r => (f r.1, r.2)

theorem done_decodes : Decodes (done : Decoder Unit β) (fun _ => []) fun _ => True :=
  fun _ _ _ => rfl

theorem literal_decodes [DecidableEq β] (x : β) :
    Decodes (literal x) (fun _ => [x]) fun _ => True := fun _ _ _ => if_pos rfl

theorem fixed_decodes {n : Nat} {encode : α → List β} {f : List β → α}
    (hlen : ∀ x, (encode x).length = n) (hf : ∀ x, f (encode x) = x) :
    Decodes (fixed n f) encode fun _ => True := by
  intro x _ rest
  have hle : n ≤ (encode x ++ rest).length := by
    rw [List.length_append, hlen]
    exact Nat.le_add_right _ _
  rw [fixed, if_pos hle, List.take_left' (hlen x), List.drop_left' (hlen x), hf]

theorem delimited_decodes [DecidableEq β] (d : β) :
    Decodes (delimited d) (fun s => s ++ [d]) fun s => d ∉ s := by
  intro s hs rest
  induction s with
  | nil => exact if_pos rfl
  | cons x s ih =>
    have hx : x ≠ d := fun heq => hs (heq ▸ List.mem_cons_self)
    have ih := ih fun hmem => hs (List.mem_cons_of_mem _ hmem)
    dsimp only at ih ⊢
    rw [List.cons_append, List.cons_append, delimited, if_neg hx, ih]
    rfl

theorem Decodes.pair {p : Decoder α β} {q : Decoder γ β} {e : α → List β} {e' : γ → List β}
    {P : α → Prop} {Q : γ → Prop} (hp : Decodes p e P) (hq : Decodes q e' Q) :
    Decodes (pair p q) (fun x => e x.1 ++ e' x.2) fun x => P x.1 ∧ Q x.2 := by
  intro x hx rest
  rw [Codec.pair, List.append_assoc, hp x.1 hx.1, Option.bind_some, hq x.2 hx.2, Option.map_some]

/-- A value that is determined by what is encoded of it. -/
theorem Decodes.map {p : Decoder α β} {e : α → List β} {P : α → Prop} (h : Decodes p e P)
    {f : α → γ} {g : γ → α} (hf : ∀ y, f (g y) = y) :
    Decodes (map f p) (fun y => e (g y)) fun y => P (g y) := by
  intro y hy rest
  rw [Codec.map, h (g y) hy, Option.map_some, hf]

end BackendPatterns.Lib.Codec
