import Mathlib.Data.List.Pairwise
import BackendPatterns.Lib.Codec

/-! # What a log tells

A machine puts out some symbols for each input. A reader that keeps track of the
state, and takes what one input has put out off whatever follows, reads a whole
output back, and accepts nothing that is not one. -/

namespace BackendPatterns.Lib.Transcript
open BackendPatterns.Lib.Codec

variable {σ α β : Type*}

section
variable (next : σ → α → σ) (emit : σ → α → List β) (read : σ → Decoder α β)

def outputs : σ → List α → List β
  | _, [] => []
  | s, a :: as => emit s a ++ outputs (next s a) as

/-- Each input is in `P` of the state it meets. -/
def Along (P : σ → α → Prop) : σ → List α → Prop
  | _, [] => True
  | s, a :: as => P s a ∧ Along P (next s a) as

/-- Reads at most so many inputs. -/
def readBack : Nat → σ → List β → Option (List α)
  | _, _, [] => some []
  | 0, _, _ :: _ => none
  | n + 1, s, b :: l =>
    (read s (b :: l)).bind fun r => (readBack n (next s r.1) r.2).map fun as => r.1 :: as

/-- The reader reads every input in `P`, and takes nothing else for one. -/
structure Reads (P : σ → α → Prop) : Prop where
  decodes : ∀ s, Decodes (read s) (emit s) (P s)
  exact : ∀ s l a rest, read s l = some (a, rest) → P s a ∧ l = emit s a ++ rest
  nonempty : ∀ s a, emit s a ≠ []

end

variable {next : σ → α → σ} {emit : σ → α → List β} {read : σ → Decoder α β}
  {P : σ → α → Prop}

theorem Reads.readBack_outputs (h : Reads emit read P) {n : Nat} {s : σ} {as : List α}
    (hP : Along next P s as) (hn : (outputs next emit s as).length ≤ n) :
    readBack next read n s (outputs next emit s as) = some as := by
  induction as generalizing n s with
  | nil => cases n <;> rfl
  | cons a as ih =>
    obtain ⟨b, l, hemit⟩ := List.exists_cons_of_ne_nil (h.nonempty s a)
    have hread := h.decodes s a hP.1 (outputs next emit (next s a) as)
    rw [outputs, hemit] at hn
    rw [hemit] at hread
    rw [outputs, hemit]
    cases n with
    | zero => cases hn
    | succ n =>
      have hle : (outputs next emit (next s a) as).length ≤ n := by
        simp only [List.cons_append, List.length_cons, List.length_append] at hn
        omega
      rw [List.cons_append] at hread ⊢
      rw [readBack, hread, Option.bind_some, ih hP.2 hle, Option.map_some]

theorem Reads.outputs_of_readBack (h : Reads emit read P) {n : Nat} {s : σ} {l : List β}
    {as : List α} (hread : readBack next read n s l = some as) :
    Along next P s as ∧ outputs next emit s as = l := by
  induction n generalizing s l as with
  | zero =>
    cases l with
    | nil =>
      cases hread
      exact ⟨trivial, rfl⟩
    | cons b l => cases hread
  | succ n ih =>
    cases l with
    | nil =>
      cases hread
      exact ⟨trivial, rfl⟩
    | cons b l =>
      obtain ⟨⟨a, rest⟩, ha, hrest⟩ := Option.bind_eq_some_iff.mp hread
      obtain ⟨as, hback, rfl⟩ := Option.map_eq_some_iff.mp hrest
      obtain ⟨hP, hl⟩ := h.exact s _ a rest ha
      obtain ⟨halong, hout⟩ := ih hback
      refine ⟨⟨hP, halong⟩, ?_⟩
      rw [outputs, hout]
      exact hl.symm

/-- Exactly the outputs are accepted, each for its inputs. -/
theorem Reads.readBack_eq_some_iff (h : Reads emit read P) {s : σ} {l : List β} {as : List α} :
    readBack next read l.length s l = some as ↔
      Along next P s as ∧ outputs next emit s as = l := by
  refine ⟨h.outputs_of_readBack, ?_⟩
  rintro ⟨hP, rfl⟩
  exact h.readBack_outputs hP (Nat.le_refl _)

/-! ## Lines from templates -/

/-- How lines begin, and what they mean by what follows. -/
abbrev Template (α β : Type*) := List β × (List β → Option α)

/-- The first template that the line begins with. -/
def readLine [DecidableEq β] (templates : List (Template α β)) (line : List β) : Option α :=
  (templates.find? fun t => t.1.isPrefixOf line).bind fun t => t.2 (line.drop t.1.length)

/-- No line can begin with two of them. -/
def Apart (openings : List (List β)) : Prop :=
  openings.Pairwise fun o o' => ¬ o <+: o' ∧ ¬ o' <+: o

variable [DecidableEq β] {templates : List (Template α β)}

instance (openings : List (List β)) : Decidable (Apart openings) :=
  inferInstanceAs (Decidable (List.Pairwise _ _))

theorem begins_of_find? {line : List β} {t : Template α β}
    (h : (templates.find? fun t => t.1.isPrefixOf line) = some t) : t.1 <+: line := by
  have hbegins : t.1.isPrefixOf line = true :=
    List.find?_some (p := fun t : Template α β => t.1.isPrefixOf line) h
  exact List.isPrefixOf_iff_prefix.mp hbegins

theorem readLine_append (h : Apart (templates.map Prod.fst)) {o : List β}
    {f : List β → Option α} (hmem : (o, f) ∈ templates) (x : List β) :
    readLine templates (o ++ x) = f x := by
  have hfound : (templates.find? fun t => t.1.isPrefixOf (o ++ x)).isSome := by
    refine List.find?_isSome.mpr ⟨_, hmem, ?_⟩
    exact List.isPrefixOf_iff_prefix.mpr (List.prefix_append o x)
  obtain ⟨t, ht⟩ := Option.isSome_iff_exists.mp hfound
  have hbegins : t.1 <+: o ++ x := begins_of_find? ht
  have hsame : t = (o, f) := by
    by_contra hne
    have hsymm : Std.Symm fun t u : Template α β => ¬ t.1 <+: u.1 ∧ ¬ u.1 <+: t.1 :=
      ⟨fun _ _ htu => htu.symm⟩
    obtain ⟨hto, hot⟩ := (List.pairwise_map.mp h).forall (List.mem_of_find?_eq_some ht) hmem hne
    exact (List.prefix_or_prefix_of_prefix hbegins (List.prefix_append o x)).elim hto hot
  rw [readLine, ht, hsame, Option.bind_some, List.drop_left]

theorem exists_of_readLine {line : List β} {a : α} (h : readLine templates line = some a) :
    ∃ o f x, (o, f) ∈ templates ∧ line = o ++ x ∧ f x = some a := by
  obtain ⟨t, ht, ha⟩ := Option.bind_eq_some_iff.mp h
  obtain ⟨x, hx⟩ := begins_of_find? ht
  rw [← hx, List.drop_left] at ha
  exact ⟨t.1, t.2, x, List.mem_of_find?_eq_some ht, hx.symm, ha⟩

end BackendPatterns.Lib.Transcript
