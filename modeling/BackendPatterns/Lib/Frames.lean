import Mathlib.Tactic.TypeStar

/-! # Messages in a stream

A stream carries messages, each ended by a delimiter. Reading it back splits it
at the delimiters; what follows the last one is a message only if it is not
empty. -/

namespace BackendPatterns.Lib.Frames

variable {α : Type*} [DecidableEq α]

/-- A last piece without its delimiter. -/
def fragment (piece : List α) : List (List α) := if piece = [] then [] else [piece]

/-- The messages of a stream. -/
def frames (d : α) (l : List α) : List (List α) :=
  (l.splitOn d).dropLast ++ fragment ((l.splitOn d).getLast?.getD [])

/-- The stream that carries the messages. -/
def unframe (d : α) (ms : List (List α)) : List α := (ms.map (· ++ [d])).flatten

omit [DecidableEq α] in
@[simp] theorem unframe_nil (d : α) : unframe d [] = [] := rfl

omit [DecidableEq α] in
@[simp] theorem unframe_cons (d : α) (m : List α) (ms : List (List α)) :
    unframe d (m :: ms) = m ++ d :: unframe d ms := by
  simp [unframe]

omit [DecidableEq α] in
@[simp] theorem unframe_append (d : α) (ms ms' : List (List α)) :
    unframe d (ms ++ ms') = unframe d ms ++ unframe d ms' := by
  simp [unframe]

theorem frames_fragment {d : α} {l : List α} (h : d ∉ l) : frames d l = fragment l := by
  simp [frames, List.splitOn_eq_singleton h]

/-- The first delimiter ends the first message. -/
theorem frames_append_cons {d : α} {m : List α} (h : d ∉ m) (l : List α) :
    frames d (m ++ d :: l) = m :: frames d l := by
  have hne : l.splitOn d ≠ [] := List.splitOn_ne_nil d l
  rw [frames, List.splitOn_append_cons_self_of_not_mem h, List.dropLast_cons_of_ne_nil hne,
    List.getLast?_cons_of_ne_nil hne]
  rfl

/-- Messages without delimiters are read back as they were sent. -/
theorem frames_unframe_append {d : α} {ms : List (List α)} {rest : List α} (h : ∀ m ∈ ms, d ∉ m)
    (hrest : d ∉ rest) : frames d (unframe d ms ++ rest) = ms ++ fragment rest := by
  induction ms with
  | nil => exact frames_fragment hrest
  | cons m ms ih =>
    have hm : d ∉ m := h m (by simp)
    have ih := ih fun x hx => h x (List.mem_cons_of_mem _ hx)
    rw [unframe_cons, List.append_assoc, List.cons_append, frames_append_cons hm, ih,
      List.cons_append]

theorem frames_unframe {d : α} {ms : List (List α)} (h : ∀ m ∈ ms, d ∉ m) :
    frames d (unframe d ms) = ms := by
  have happ := @frames_unframe_append _ _ d ms [] h (by simp)
  simpa [fragment] using happ

/-- Only messages without delimiters are read back as they were sent. -/
theorem frames_unframe_iff {d : α} {ms : List (List α)} :
    frames d (unframe d ms) = ms ↔ ∀ m ∈ ms, d ∉ m := by
  refine ⟨fun h => ?_, frames_unframe⟩
  induction ms with
  | nil => simp
  | cons m ms ih =>
    by_cases hm : d ∈ m
    · -- the first message read back ends at its first delimiter
      obtain ⟨a, b, hab, ha⟩ := List.eq_append_cons_of_mem hm
      rw [unframe_cons, hab, List.append_assoc, List.cons_append, frames_append_cons ha,
        List.cons.injEq] at h
      have hlen := congrArg List.length h.1
      simp at hlen
    · rw [unframe_cons, frames_append_cons hm, List.cons.injEq] at h
      intro x hx
      obtain hx | hx := List.mem_cons.mp hx
      · rw [hx]
        exact hm
      · exact ih h.2 x hx

end BackendPatterns.Lib.Frames
