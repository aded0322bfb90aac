import BackendPatterns.Lib.History

/-! # A bounded FIFO that can be closed, as a sequential object

What a blocking queue is for, without threads: pushes append while there is
room, pops take from the front, and closing refuses pushes but lets the content
drain. An operation without an answer has to wait. -/

namespace BackendPatterns.Lib
open BackendPatterns.Lib.History

structure Fifo (T : Type*) (cap : Nat) where
  items : List T
  closed : Bool
  bounded : items.length ≤ cap

namespace Fifo

inductive Op (T : Type*)
  | push (value : T)
  | pop
  | close
  deriving DecidableEq, Repr

inductive Res (T : Type*)
  | pushed (ok : Bool)
  | popped (value : Option T)
  | closed
  deriving DecidableEq, Repr

variable {T : Type*} {cap : Nat}

def empty (T : Type*) (cap : Nat) : Fifo T cap := ⟨[], false, Nat.zero_le _⟩

def apply (f : Fifo T cap) : Op T → Option (Res T × Fifo T cap)
  | .push v =>
    if f.closed then some (.pushed false, f)
    else if h : f.items.length < cap then
      some (.pushed true, ⟨f.items ++ [v], f.closed, by simp; omega⟩)
    else none
  | .pop =>
    match hf : f.items with
    | x :: rest =>
      some (.popped (some x), ⟨rest, f.closed, by have := f.bounded; simp [hf] at this; omega⟩)
    | [] => if f.closed then some (.popped none, f) else none
  | .close => some (.closed, { f with closed := true })

/-- The values of the pushes that enqueued. -/
def accepted (l : List (Op T × Res T)) : List T := l.filterMap fun e => match e with
  | (.push v, .pushed true) => some v
  | _ => none

/-- The values the pops took. -/
def taken (l : List (Op T × Res T)) : List T := l.filterMap fun e => match e with
  | (.pop, .popped v) => v
  | _ => none

@[simp] theorem accepted_append (l l' : List (Op T × Res T)) :
    accepted (l ++ l') = accepted l ++ accepted l' := List.filterMap_append

@[simp] theorem taken_append (l l' : List (Op T × Res T)) :
    taken (l ++ l') = taken l ++ taken l' := List.filterMap_append

/-- The only things an operation can do. -/
theorem apply_cases {f g : Fifo T cap} {op : Op T} {r : Res T} (h : apply f op = some (r, g)) :
    (∃ v, op = .push v ∧ r = .pushed true ∧ f.closed = false ∧ f.items.length < cap ∧
      g.items = f.items ++ [v] ∧ g.closed = false) ∨
    (∃ v, op = .push v ∧ r = .pushed false ∧ f.closed = true ∧ g = f) ∨
    (∃ v, op = .pop ∧ r = .popped (some v) ∧ f.items = v :: g.items ∧ g.closed = f.closed) ∨
    (op = .pop ∧ r = .popped none ∧ f.items = [] ∧ f.closed = true ∧ g = f) ∨
    (op = .close ∧ r = .closed ∧ g.items = f.items ∧ g.closed = true) := by
  cases op with
  | push v =>
    simp only [apply] at h
    split at h
    · rename_i hc
      cases h
      exact .inr (.inl ⟨v, rfl, rfl, hc, rfl⟩)
    · rename_i hc
      split at h
      · rename_i hl
        cases h
        exact .inl ⟨v, rfl, rfl, by simpa using hc, hl, rfl, by simpa using hc⟩
      · cases h
  | pop =>
    simp only [apply] at h
    split at h
    · rename_i x rest hf
      cases h
      exact .inr (.inr (.inl ⟨x, rfl, rfl, hf, rfl⟩))
    · rename_i hf
      split at h
      · rename_i hc
        cases h
        exact .inr (.inr (.inr (.inl ⟨rfl, rfl, hf, hc, rfl⟩)))
      · cases h
  | close =>
    cases h
    exact .inr (.inr (.inr (.inr ⟨rfl, rfl, rfl, rfl⟩)))

/-- First in, first out, nothing lost and nothing twice: what was in the queue
and what was accepted is what was taken and what is left. -/
theorem fifo {f g : Fifo T cap} {l : List (Op T × Res T)} (h : Replays apply f l g) :
    f.items ++ accepted l = taken l ++ g.items := by
  induction l generalizing f with
  | nil => cases h; simp [accepted, taken]
  | cons e l ih =>
    obtain ⟨op, r⟩ := e
    obtain ⟨u, hu, h⟩ := h
    have ih := ih h
    rcases apply_cases hu with ⟨v, rfl, rfl, _, _, hi, _⟩ | ⟨v, rfl, rfl, _, rfl⟩ |
      ⟨v, rfl, rfl, hi, _⟩ | ⟨rfl, rfl, _, _, rfl⟩ | ⟨rfl, rfl, hi, _⟩
    · rw [hi] at ih
      simpa [accepted, taken] using ih
    · simpa [accepted, taken] using ih
    · rw [hi]
      simpa [accepted, taken] using ih
    · simpa [accepted, taken] using ih
    · rw [hi] at ih
      simpa [accepted, taken] using ih

/-- A closed queue stays closed and accepts nothing. -/
theorem closed_stays {f g : Fifo T cap} {l : List (Op T × Res T)} (h : Replays apply f l g)
    (hc : f.closed = true) : g.closed = true ∧ accepted l = [] := by
  induction l generalizing f with
  | nil => cases h; exact ⟨hc, rfl⟩
  | cons e l ih =>
    obtain ⟨op, r⟩ := e
    obtain ⟨u, hu, h⟩ := h
    rcases apply_cases hu with ⟨v, rfl, rfl, ho, _⟩ | ⟨v, rfl, rfl, _, rfl⟩ |
      ⟨v, rfl, rfl, _, hk⟩ | ⟨rfl, rfl, _, _, rfl⟩ | ⟨rfl, rfl, _, hk⟩
    · rw [hc] at ho; cases ho
    · simpa [accepted] using ih h hc
    · simpa [accepted] using ih h (hk.trans hc)
    · simpa [accepted] using ih h hc
    · simpa [accepted] using ih h hk

/-- The queue is closed exactly when a close took effect. -/
theorem closed_iff {f g : Fifo T cap} {l : List (Op T × Res T)} (h : Replays apply f l g) :
    g.closed = true ↔ f.closed = true ∨ (.close, .closed) ∈ l := by
  induction l generalizing f with
  | nil => cases h; simp
  | cons e l ih =>
    obtain ⟨op, r⟩ := e
    obtain ⟨u, hu, h⟩ := h
    rw [ih h]
    rcases apply_cases hu with ⟨v, rfl, rfl, hc, _, _, hk⟩ | ⟨v, rfl, rfl, _, rfl⟩ |
      ⟨v, rfl, rfl, _, hk⟩ | ⟨rfl, rfl, _, _, rfl⟩ | ⟨rfl, rfl, _, hk⟩
    · simp [hc, hk]
    · simp
    · simp [hk]
    · simp
    · simp [hk]

/-- A closed and drained queue gives nothing any more. -/
theorem drained_stays {f g : Fifo T cap} {l : List (Op T × Res T)} (h : Replays apply f l g)
    (hc : f.closed = true) (hi : f.items = []) : taken l = [] := by
  have hf := fifo h
  rw [hi, (closed_stays h hc).2] at hf
  exact (List.append_eq_nil_iff.mp hf.symm).1

/-- An operation inside a replay was answered in some state between. -/
theorem replay_split {f g : Fifo T cap} {l l₁ l₂ : List (Op T × Res T)} {op : Op T} {r : Res T}
    (h : Replays apply f l g) (hl : l = l₁ ++ (op, r) :: l₂) :
    ∃ u v, Replays apply f l₁ u ∧ apply u op = some (r, v) ∧ Replays apply v l₂ g := by
  subst hl
  obtain ⟨u, hu, v, hv, h⟩ := replays_append.mp h
  exact ⟨u, v, hu, hv, h⟩

/-- After a close, nothing is accepted. -/
theorem accepted_after_close {f g : Fifo T cap} {l l₁ l₂ : List (Op T × Res T)}
    (h : Replays apply f l g) (hl : l = l₁ ++ (.close, .closed) :: l₂) : accepted l₂ = [] := by
  obtain ⟨u, v, _, hv, h⟩ := replay_split h hl
  cases hv
  exact (closed_stays h rfl).2

/-- A pop is told that the queue is drained only when it is closed and empty,
and from then on no pop gets a value. -/
theorem drained {f g : Fifo T cap} {l l₁ l₂ : List (Op T × Res T)}
    (h : Replays apply f l g) (hl : l = l₁ ++ (.pop, .popped none) :: l₂) :
    (∃ u, Replays apply f l₁ u ∧ u.closed = true ∧ u.items = []) ∧ taken l₂ = [] := by
  obtain ⟨u, v, hu, hv, h⟩ := replay_split h hl
  rcases apply_cases hv with ⟨_, ho, _⟩ | ⟨_, ho, _⟩ | ⟨_, _, hr, _⟩ | ⟨_, _, hi, hc, rfl⟩ | ⟨ho, _⟩
  · cases ho
  · cases ho
  · cases hr
  · exact ⟨⟨v, hu, hc, hi⟩, drained_stays h hc hi⟩
  · cases ho

end Fifo
end BackendPatterns.Lib
