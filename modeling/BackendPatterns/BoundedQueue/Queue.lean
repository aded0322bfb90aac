import BackendPatterns.Lib.Fifo

/-! # The blocking queue, one critical section at a time

Each member function holds `mu_` from its predicate check to its return or to
the moment it parks, so between two lock acquisitions it is a function of the
members the mutex guards. -/

namespace BackendPatterns
open BackendPatterns.Lib BackendPatterns.Lib.Fifo

/-- The members of `BoundedQueue<T>` that `mu_` guards. The constructor refuses
capacity zero, so no object has it. -/
structure BoundedQueue (T : Type) where
  q : List T
  capacity : Nat
  closed : Bool
  capacity_pos : 0 < capacity

namespace BoundedQueue

/-- The condition variables `not_empty_` and `not_full_`. -/
inductive Cv
  | notEmpty
  | notFull
  deriving DecidableEq, Repr

def make {T : Type} (capacity : Nat) : Except String (BoundedQueue T) :=
  if h : capacity = 0 then .error "capacity must be > 0"
  else .ok ⟨[], capacity, false, Nat.pos_of_ne_zero h⟩

/-- A critical section that ran to its `return`: the result, what it left in
the members, and the `notify_one` it issued before releasing the lock. -/
structure Section (T : Type) where
  res : Res T
  queue : BoundedQueue T
  notify : Option Cv

variable {T : Type}

/-- `none` is `not_full_.wait` finding its predicate false. -/
def push (b : BoundedQueue T) (value : T) : Option (Section T) :=
  if b.closed || decide (b.q.length < b.capacity) then
    if b.closed then some ⟨.pushed false, b, none⟩
    else some ⟨.pushed true, { b with q := b.q ++ [value] }, some .notEmpty⟩
  else none

/-- `none` is `not_empty_.wait` finding its predicate false. -/
def pop (b : BoundedQueue T) : Option (Section T) :=
  if b.closed || !b.q.isEmpty then
    match b.q with
    | [] => some ⟨.popped none, b, none⟩
    | out :: rest => some ⟨.popped (some out), { b with q := rest }, some .notFull⟩
  else none

/-- The locked block of `close`; its two `notify_all` come after the lock is
released and are steps of their own. -/
def close (b : BoundedQueue T) : Section T :=
  ⟨.closed, { b with closed := true }, none⟩

def enter (b : BoundedQueue T) : Op T → Option (Section T)
  | .push v => b.push v
  | .pop => b.pop
  | .close => some b.close

/-- The predicate an operation waits for. -/
def ready (b : BoundedQueue T) : Op T → Bool
  | .push _ => b.closed || decide (b.q.length < b.capacity)
  | .pop => b.closed || !b.q.isEmpty
  | .close => true

/-- An operation parks exactly when its predicate is false. -/
theorem enter_eq_none_iff {b : BoundedQueue T} {op : Op T} :
    b.enter op = none ↔ b.ready op = false := by
  cases op with
  | push v =>
    simp only [enter, push, ready]
    split
    · rename_i h
      rw [h]
      split <;> simp
    · rename_i h
      simpa using h
  | pop =>
    simp only [enter, pop, ready]
    split
    · rename_i h
      rw [h]
      split <;> simp
    · rename_i h
      simpa using h
  | close => simp [enter, ready]

/-- Everything a completed critical section can have done. -/
theorem enter_cases {b : BoundedQueue T} {op : Op T} {c : Section T} (h : b.enter op = some c) :
    (∃ v, op = .push v ∧ b.closed = false ∧ b.q.length < b.capacity ∧
      c = ⟨.pushed true, { b with q := b.q ++ [v] }, some .notEmpty⟩) ∨
    (∃ v, op = .push v ∧ b.closed = true ∧ c = ⟨.pushed false, b, none⟩) ∨
    (∃ v rest, op = .pop ∧ b.q = v :: rest ∧
      c = ⟨.popped (some v), { b with q := rest }, some .notFull⟩) ∨
    (op = .pop ∧ b.q = [] ∧ b.closed = true ∧ c = ⟨.popped none, b, none⟩) ∨
    (op = .close ∧ c = ⟨.closed, { b with closed := true }, none⟩) := by
  cases op with
  | push v =>
    simp only [enter, push, Bool.or_eq_true, decide_eq_true_eq] at h
    split at h
    · rename_i hready
      split at h
      · rename_i hc
        cases h
        exact .inr (.inl ⟨v, rfl, hc, rfl⟩)
      · rename_i hc
        cases h
        exact .inl ⟨v, rfl, by simpa using hc, hready.resolve_left hc, rfl⟩
    · cases h
  | pop =>
    simp only [enter, pop] at h
    split at h
    · rename_i hready
      split at h
      · rename_i hq
        cases h
        exact .inr (.inr (.inr (.inl ⟨rfl, hq, by simpa [hq] using hready, rfl⟩)))
      · rename_i out rest hq
        cases h
        exact .inr (.inr (.inl ⟨out, rest, rfl, hq, rfl⟩))
    · cases h
  | close =>
    cases h
    exact .inr (.inr (.inr (.inr ⟨rfl, rfl⟩)))

/-- The queue as the sequential FIFO it implements. -/
def Represents {cap : Nat} (b : BoundedQueue T) (f : Fifo T cap) : Prop :=
  b.capacity = cap ∧ f.items = b.q ∧ f.closed = b.closed

/-- A critical section answers as the sequential FIFO does. -/
theorem enter_refines {cap : Nat} {b : BoundedQueue T} {f : Fifo T cap} {op : Op T}
    {c : Section T} (hr : Represents b f) (h : b.enter op = some c) :
    ∃ g, apply f op = some (c.res, g) ∧ Represents c.queue g := by
  obtain ⟨hcap, hi, hk⟩ := hr
  rcases enter_cases h with ⟨v, rfl, hc, hl, rfl⟩ | ⟨v, rfl, hc, rfl⟩ | ⟨v, rest, rfl, hq, rfl⟩ |
    ⟨rfl, hq, hc, rfl⟩ | ⟨rfl, rfl⟩
  · have hroom : f.items.length < cap := by rw [hi, ← hcap]; exact hl
    refine ⟨⟨f.items ++ [v], f.closed, by simp; omega⟩, ?_, hcap, by simp [hi], hk⟩
    simp [apply, hk, hc, hroom]
  · exact ⟨f, by simp [apply, hk, hc], hcap, hi, hk⟩
  · have hf : f.items = v :: rest := hi.trans hq
    have hlen : rest.length ≤ cap := by
      have := f.bounded
      simp only [hf, List.length_cons] at this
      omega
    refine ⟨⟨rest, f.closed, hlen⟩, ?_, hcap, rfl, hk⟩
    obtain ⟨items, closed, bounded⟩ := f
    subst hf
    rfl
  · refine ⟨f, ?_, hcap, hi, hk⟩
    obtain ⟨items, closed, bounded⟩ := f
    cases hi.trans hq
    cases hk.trans hc
    rfl
  · exact ⟨{ f with closed := true }, rfl, hcap, hi, rfl⟩

end BoundedQueue
end BackendPatterns
