import BackendPatterns.Lib.Handles
import BackendPatterns.Reactor.Loop

/-! # Owners of descriptors

A `UniqueFd` keeps a number and closes it by hand. Other code opens descriptors and
gives them to owners; what it may not do is give away one that is owned already, or
close it. -/

namespace BackendPatterns.Reactor
open BackendPatterns.Lib

/-- The open descriptors, with `::open` and `::close`. -/
abbrev Kernel := Handles Int

namespace UniqueFd

def reset (u : UniqueFd) (fd : Int) (k : Kernel) : UniqueFd × Kernel :=
  (⟨fd⟩, if u.fd ≠ -1 then k.close u.fd else k)

/-- `UniqueFd(UniqueFd&& other)`: the new owner, and what is left of the other. -/
def moveFrom (other : UniqueFd) : UniqueFd × UniqueFd := (⟨other.fd⟩, ⟨-1⟩)

/-- `operator=(UniqueFd&& other)` for another owner: both of them afterwards. -/
def moveAssign (u other : UniqueFd) (k : Kernel) : (UniqueFd × UniqueFd) × Kernel :=
  let (_, k) := u.reset (-1) k
  ((⟨other.fd⟩, ⟨-1⟩), k)

/-- `~UniqueFd()` -/
def destroy (u : UniqueFd) (k : Kernel) : Kernel := (u.reset (-1) k).2

end UniqueFd

/-- The owners that are alive. Kept for the statements only: the openings that were
given to one. -/
structure Owners (ι : Type) where
  kernel : Kernel
  objects : ι → Option UniqueFd
  adopted : List Nat

namespace Owners

/-- What other code does with descriptors, and the operations of the owners. -/
inductive Action (ι : Type)
  | opens (fd : Int)
  | closes (fd : Int)
  | construct (i : ι) (fd : Int)
  | moveConstruct (i j : ι)
  | moveAssign (i j : ι)
  | reset (i : ι) (fd : Int)
  | destroy (i : ι)

variable {ι : Type} [DecidableEq ι]

def start : Owners ι := ⟨.empty, fun _ => none, []⟩

/-- The openings given away when `fd` is, too. -/
def adopt (s : Owners ι) (fd : Int) : List Nat := s.adopted ++ (s.kernel.table fd).toList

def step (s : Owners ι) : Action ι → Option (Owners ι)
  | .opens fd =>
    if IsFd fd ∧ s.kernel.table fd = none then some { s with kernel := s.kernel.opens fd } else none
  | .closes fd => some { s with kernel := s.kernel.close fd }
  | .construct i fd =>
    match s.objects i with
    | none => some ⟨s.kernel, Function.update s.objects i (some ⟨fd⟩), s.adopt fd⟩
    | some _ => none
  | .moveConstruct i j =>
    match s.objects i, s.objects j with
    | none, some other =>
      let (u, other) := other.moveFrom
      some { s with
        objects := Function.update (Function.update s.objects i (some u)) j (some other) }
    | _, _ => none
  | .moveAssign i j =>
    match s.objects i, s.objects j with
    | some u, some other =>
      if i = j then some s
      else
        let ((u, other), kernel) := u.moveAssign other s.kernel
        some ⟨kernel, Function.update (Function.update s.objects i (some u)) j (some other),
          s.adopted⟩
    | _, _ => none
  | .reset i fd =>
    match s.objects i with
    | some u =>
      let (u, kernel) := u.reset fd s.kernel
      some ⟨kernel, Function.update s.objects i (some u), s.adopt fd⟩
    | none => none
  | .destroy i =>
    match s.objects i with
    | some u => some ⟨u.destroy s.kernel, Function.update s.objects i none, s.adopted⟩
    | none => none

def Holds (s : Owners ι) (i : ι) (fd : Int) : Prop := s.objects i = some ⟨fd⟩

instance (s : Owners ι) (i : ι) (fd : Int) : Decidable (s.Holds i fd) :=
  inferInstanceAs (Decidable (_ = _))

/-- Open, and of no owner. -/
def Free (s : Owners ι) (fd : Int) : Prop := s.kernel.table fd ≠ none ∧ ∀ i, ¬ s.Holds i fd

/-- An owner is given a free descriptor or none, and other code closes only free ones. -/
def Allowed (s : Owners ι) : Action ι → Prop
  | .construct _ fd | .reset _ fd => fd = -1 ∨ s.Free fd
  | .closes fd => s.Free fd
  | .opens _ | .moveConstruct .. | .moveAssign .. | .destroy _ => True

instance [Fintype ι] (s : Owners ι) (fd : Int) : Decidable (s.Free fd) :=
  inferInstanceAs (Decidable (_ ∧ ∀ i, ¬ s.Holds i fd))

instance [Fintype ι] (s : Owners ι) (a : Action ι) : Decidable (s.Allowed a) :=
  match a with
  | .construct _ fd | .reset _ fd => inferInstanceAs (Decidable (fd = -1 ∨ s.Free fd))
  | .closes fd => inferInstanceAs (Decidable (s.Free fd))
  | .opens _ | .moveConstruct .. | .moveAssign .. | .destroy _ =>
    inferInstanceAs (Decidable True)

/-- What a step does. -/
inductive Moves (s : Owners ι) : Action ι → Owners ι → Prop
  | opens {fd : Int} (hfd : IsFd fd) (hnew : s.kernel.table fd = none) :
    Moves s (.opens fd) ⟨s.kernel.opens fd, s.objects, s.adopted⟩
  | closes {fd : Int} : Moves s (.closes fd) ⟨s.kernel.close fd, s.objects, s.adopted⟩
  | construct {i : ι} {fd : Int} (hi : s.objects i = none) : Moves s (.construct i fd)
    ⟨s.kernel, Function.update s.objects i (some ⟨fd⟩), s.adopt fd⟩
  | moveConstruct {i j : ι} {other : UniqueFd} (hi : s.objects i = none)
    (hj : s.objects j = some other) : Moves s (.moveConstruct i j)
      ⟨s.kernel, Function.update (Function.update s.objects i (some other)) j (some ⟨-1⟩),
        s.adopted⟩
  | moveSelf {i : ι} {u : UniqueFd} (hi : s.objects i = some u) : Moves s (.moveAssign i i) s
  | moveAssign {i j : ι} {u other : UniqueFd} (hij : i ≠ j) (hi : s.objects i = some u)
    (hj : s.objects j = some other) : Moves s (.moveAssign i j)
      ⟨(u.reset (-1) s.kernel).2,
        Function.update (Function.update s.objects i (some other)) j (some ⟨-1⟩), s.adopted⟩
  | reset {i : ι} {fd : Int} {u : UniqueFd} (hi : s.objects i = some u) : Moves s (.reset i fd)
    ⟨(u.reset fd s.kernel).2, Function.update s.objects i (some ⟨fd⟩), s.adopt fd⟩
  | destroy {i : ι} {u : UniqueFd} (hi : s.objects i = some u) : Moves s (.destroy i)
    ⟨(u.reset (-1) s.kernel).2, Function.update s.objects i none, s.adopted⟩

theorem moves_of_step {s t : Owners ι} {a : Action ι} (h : step s a = some t) : Moves s a t := by
  cases a with
  | opens fd =>
    rw [step] at h
    split at h
    next hfd =>
      cases h
      exact .opens hfd.1 hfd.2
    next => cases h
  | closes fd =>
    cases h
    exact .closes
  | construct i fd =>
    rw [step] at h
    split at h
    next hi =>
      cases h
      exact .construct hi
    next => cases h
  | moveConstruct i j =>
    rw [step] at h
    split at h
    next hi hj =>
      cases h
      exact .moveConstruct hi hj
    next => cases h
  | moveAssign i j =>
    rw [step] at h
    split at h
    next u other hi hj =>
      split at h
      next hij =>
        cases h
        cases hij
        exact .moveSelf hi
      next hij =>
        cases h
        exact .moveAssign hij hi hj
    next => cases h
  | reset i fd =>
    rw [step] at h
    split at h
    next u hi =>
      cases h
      exact .reset hi
    next => cases h
  | destroy i =>
    rw [step] at h
    split at h
    next u hi =>
      cases h
      exact .destroy hi
    next => cases h

end Owners

end BackendPatterns.Reactor
