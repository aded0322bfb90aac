import BackendPatterns.Lib.Heap
import BackendPatterns.Lib.Machine

/-! # Arenas over `malloc` and `free`

An arena holds a size and a pointer by hand. Its special members allocate, copy,
hand over and free; a null pointer is `none`. Memory that was never written holds
bytes that are not defined. -/

namespace BackendPatterns.RuleOfFive
open BackendPatterns.Lib

/-- The address that `malloc` returned for a block. -/
abbrev Addr := Nat

/-- A byte of memory, or `none` where it is not defined. -/
abbrev Cell := Option UInt8

abbrev Memory := Heap Addr Cell

inductive Exception
  | badAlloc
  | outOfRange (what : String)
  deriving DecidableEq

structure Arena where
  size : Nat
  data : Option Addr
  deriving DecidableEq

/-- Addition of `std::size_t`, which wraps. -/
def sizeAdd (a b : Nat) : Nat := (a + b) % 18446744073709551616

/-- `std::free`, for which a null pointer is nothing. -/
def free (data : Option Addr) (h : Memory) : Option Memory :=
  match data with
  | none => some h
  | some p => h.free p

/-- A `std::string_view`; one that was default-constructed has a null pointer. -/
abbrev StringView := Option (List UInt8)

def StringView.chars (s : StringView) : List UInt8 := s.getD []

/-- `std::memcpy` to `data + offset`. A null pointer on either side is undefined, also
if there is nothing to copy. -/
def memcpy (data : Option Addr) (offset : Nat) (source : Option (List Cell)) (h : Memory) :
    Option Memory := do
  let p ← data
  let bytes ← source
  h.store p offset bytes

/-- The range from `data + offset` on; a range of null pointers is empty. -/
def bytesAt (data : Option Addr) (offset len : Nat) (h : Memory) : Option (List Cell) :=
  match data with
  | none => if len = 0 then some [] else none
  | some p => h.load p offset len

namespace Arena

/-- `Arena(bytes)`, where `m` is what `malloc` returns if it is called. -/
def make (bytes : Nat) (m : Option Addr) (h : Memory) : Except Exception Arena × Memory :=
  if bytes = 0 then (.ok ⟨0, none⟩, h)
  else
    match m with
    | none => (.error .badAlloc, h)
    | some p => (.ok ⟨bytes, some p⟩, h.alloc p (List.replicate bytes none))

def destroy (a : Arena) (h : Memory) : Option Memory := free a.data h

/-- `Arena(const Arena& other)`; `none` where it is undefined. -/
def copy (other : Arena) (m : Option Addr) (h : Memory) :
    Option (Except Exception Arena × Memory) :=
  if other.size = 0 then some (.ok ⟨0, none⟩, h)
  else
    match m with
    | none => some (.error .badAlloc, h)
    | some p => do
      let h := h.alloc p (List.replicate other.size none)
      let bytes ← bytesAt other.data 0 other.size h
      let h ← memcpy (some p) 0 (some bytes) h
      some (.ok ⟨other.size, some p⟩, h)

/-- `swap`: the two arenas afterwards. -/
def swap (a other : Arena) : Arena × Arena := (⟨other.size, other.data⟩, ⟨a.size, a.data⟩)

/-- `operator=(const Arena& other)` for another arena. -/
def copyAssign (a other : Arena) (m : Option Addr) (h : Memory) :
    Option (Except Exception Arena × Memory) := do
  match ← other.copy m h with
  | (.error e, h) => some (.error e, h)
  | (.ok tmp, h) =>
    let (a, tmp) := a.swap tmp
    let h ← tmp.destroy h
    some (.ok a, h)

/-- `Arena(Arena&& other)`: the new arena, and what is left of the other. -/
def moveFrom (other : Arena) : Arena × Arena := (⟨other.size, other.data⟩, ⟨0, none⟩)

/-- `operator=(Arena&& other)` for another arena: both arenas afterwards. -/
def moveAssign (a other : Arena) (h : Memory) : Option ((Arena × Arena) × Memory) := do
  let h ← free a.data h
  some ((⟨other.size, other.data⟩, ⟨0, none⟩), h)

def write (a : Arena) (offset : Nat) (s : StringView) (h : Memory) :
    Option (Except Exception Unit × Memory) :=
  if sizeAdd offset s.chars.length > a.size then some (.error (.outOfRange "arena write"), h)
  else do
    let h ← memcpy a.data offset (s.map (List.map some)) h
    some (.ok (), h)

def read (a : Arena) (offset len : Nat) (h : Memory) : Option (Except Exception (List Cell)) :=
  if sizeAdd offset len > a.size then some (.error (.outOfRange "arena read"))
  else do
    let bytes ← bytesAt a.data offset len h
    some (.ok bytes)

end Arena

/-- How the last operation ended. -/
inductive Result
  | done
  | bytes (cells : List Cell)
  | threw (e : Exception)
  | undefined
  deriving DecidableEq

/-- The heap and the arenas that are alive. -/
structure State (ι : Type) where
  heap : Memory
  arenas : ι → Option Arena
  last : Result

/-- The operations that create, hand over and destroy; `m` is what `malloc`
returns if it is called. -/
inductive Lifecycle (ι : Type)
  | construct (i : ι) (bytes : Nat) (m : Option Addr)
  | copyConstruct (i j : ι) (m : Option Addr)
  | copyAssign (i j : ι) (m : Option Addr)
  | moveConstruct (i j : ι)
  | moveAssign (i j : ι)
  | swap (i j : ι)
  | destroy (i : ι)

inductive Action (ι : Type)
  | life (op : Lifecycle ι)
  | write (i : ι) (offset : Nat) (s : StringView)
  | read (i : ι) (offset len : Nat)

variable {ι : Type} [DecidableEq ι]

def start : State ι := ⟨.empty, fun _ => none, .done⟩

namespace State

/-- A block that `malloc` returns is none of those that are live. -/
def fresh (s : State ι) (m : Option Addr) : Bool :=
  match m with
  | none => true
  | some p => (s.heap.block p).isNone

/-- An operation that yields the arena `i`, throws, or is undefined. -/
def yield (s : State ι) (i : ι) (r : Option (Except Exception Arena × Memory)) : State ι :=
  match r with
  | none => { s with last := .undefined }
  | some (.error e, h) => { s with heap := h, last := .threw e }
  | some (.ok a, h) => ⟨h, Function.update s.arenas i (some a), .done⟩

/-- Set the two arenas of an operation, `j` after `i`. -/
def setBoth (s : State ι) (i j : ι) (pair : Arena × Arena) : State ι :=
  ⟨s.heap, Function.update (Function.update s.arenas i (some pair.1)) j (some pair.2), .done⟩

def lifecycle (s : State ι) : Lifecycle ι → Option (State ι)
  | .construct i bytes m =>
    if (s.arenas i).isNone && s.fresh m then some (s.yield i (some (Arena.make bytes m s.heap)))
    else none
  | .copyConstruct i j m =>
    match s.arenas i, s.arenas j with
    | none, some other => if s.fresh m then some (s.yield i (other.copy m s.heap)) else none
    | _, _ => none
  | .copyAssign i j m =>
    match s.arenas i, s.arenas j with
    | some a, some other =>
      if i = j then some { s with last := .done }
      else if s.fresh m then some (s.yield i (a.copyAssign other m s.heap))
      else none
    | _, _ => none
  | .moveConstruct i j =>
    match s.arenas i, s.arenas j with
    | none, some other => some (s.setBoth i j other.moveFrom)
    | _, _ => none
  | .moveAssign i j =>
    match s.arenas i, s.arenas j with
    | some a, some other =>
      if i = j then some { s with last := .done }
      else
        match a.moveAssign other s.heap with
        | none => some { s with last := .undefined }
        | some (pair, h) => some ({ s with heap := h }.setBoth i j pair)
    | _, _ => none
  | .swap i j =>
    match s.arenas i, s.arenas j with
    | some a, some other => some (s.setBoth i j (a.swap other))
    | _, _ => none
  | .destroy i =>
    match s.arenas i with
    | some a =>
      match a.destroy s.heap with
      | none => some { s with last := .undefined }
      | some h => some ⟨h, Function.update s.arenas i none, .done⟩
    | none => none

def write (s : State ι) (i : ι) (offset : Nat) (view : StringView) : Option (State ι) :=
  match s.arenas i with
  | some a =>
    match a.write offset view s.heap with
    | none => some { s with last := .undefined }
    | some (.error e, h) => some { s with heap := h, last := .threw e }
    | some (.ok (), h) => some { s with heap := h, last := .done }
  | none => none

def read (s : State ι) (i : ι) (offset len : Nat) : Option (State ι) :=
  match s.arenas i with
  | some a =>
    match a.read offset len s.heap with
    | none => some { s with last := .undefined }
    | some (.error e) => some { s with last := .threw e }
    | some (.ok cells) => some { s with last := .bytes cells }
  | none => none

end State

/-- A step of the lifecycle; what is undefined ends the run. -/
def lifeStep (s : State ι) (op : Lifecycle ι) : Option (State ι) :=
  if s.last = .undefined then none else s.lifecycle op

def step (s : State ι) : Action ι → Option (State ι)
  | .life op => lifeStep s op
  | .write i offset view => if s.last = .undefined then none else s.write i offset view
  | .read i offset len => if s.last = .undefined then none else s.read i offset len

/-- What the operations of the lifecycle do, and when. -/
inductive Lives (s : State ι) : Lifecycle ι → State ι → Prop
  | construct {i : ι} {bytes : Nat} {m : Option Addr} (hi : s.arenas i = none)
      (hf : s.fresh m = true) :
      Lives s (.construct i bytes m) (s.yield i (some (Arena.make bytes m s.heap)))
  | copyConstruct {i j : ι} {m : Option Addr} {other : Arena} (hi : s.arenas i = none)
      (hj : s.arenas j = some other) (hf : s.fresh m = true) :
      Lives s (.copyConstruct i j m) (s.yield i (other.copy m s.heap))
  | copyAssignSelf {i : ι} {m : Option Addr} {a : Arena} (hi : s.arenas i = some a) :
      Lives s (.copyAssign i i m) { s with last := .done }
  | copyAssign {i j : ι} {m : Option Addr} {a other : Arena} (hi : s.arenas i = some a)
      (hj : s.arenas j = some other) (hij : i ≠ j) (hf : s.fresh m = true) :
      Lives s (.copyAssign i j m) (s.yield i (a.copyAssign other m s.heap))
  | moveConstruct {i j : ι} {other : Arena} (hi : s.arenas i = none)
      (hj : s.arenas j = some other) :
      Lives s (.moveConstruct i j) (s.setBoth i j other.moveFrom)
  | moveAssignSelf {i : ι} {a : Arena} (hi : s.arenas i = some a) :
      Lives s (.moveAssign i i) { s with last := .done }
  | moveAssign {i j : ι} {a other : Arena} {pair : Arena × Arena} {h : Memory}
      (hi : s.arenas i = some a) (hj : s.arenas j = some other) (hij : i ≠ j)
      (hm : a.moveAssign other s.heap = some (pair, h)) :
      Lives s (.moveAssign i j) ({ s with heap := h }.setBoth i j pair)
  | moveAssignUndefined {i j : ι} {a other : Arena} (hi : s.arenas i = some a)
      (hj : s.arenas j = some other) (hij : i ≠ j) (hm : a.moveAssign other s.heap = none) :
      Lives s (.moveAssign i j) { s with last := .undefined }
  | swap {i j : ι} {a other : Arena} (hi : s.arenas i = some a) (hj : s.arenas j = some other) :
      Lives s (.swap i j) (s.setBoth i j (a.swap other))
  | destroy {i : ι} {a : Arena} {h : Memory} (hi : s.arenas i = some a)
      (hd : a.destroy s.heap = some h) :
      Lives s (.destroy i) ⟨h, Function.update s.arenas i none, .done⟩
  | destroyUndefined {i : ι} {a : Arena} (hi : s.arenas i = some a)
      (hd : a.destroy s.heap = none) : Lives s (.destroy i) { s with last := .undefined }

theorem lifeStep_cases {s t : State ι} {op : Lifecycle ι} (hs : lifeStep s op = some t) :
    s.last ≠ .undefined ∧ Lives s op t := by
  unfold lifeStep at hs
  split at hs
  · cases hs
  rename_i hlast
  refine ⟨hlast, ?_⟩
  cases op with
  | construct i bytes m =>
    simp only [State.lifecycle] at hs
    split at hs
    · rename_i hcond
      obtain ⟨hi, hf⟩ := Bool.and_eq_true_iff.mp hcond
      cases hs
      exact .construct (by simpa using hi) hf
    · cases hs
  | copyConstruct i j m =>
    simp only [State.lifecycle] at hs
    split at hs
    · rename_i other hi hj
      split at hs
      · rename_i hf
        cases hs
        exact .copyConstruct hi hj hf
      · cases hs
    · cases hs
  | copyAssign i j m =>
    simp only [State.lifecycle] at hs
    split at hs
    · rename_i a other hi hj
      split at hs
      · rename_i hij
        subst hij
        cases hs
        exact .copyAssignSelf hi
      rename_i hij
      split at hs
      · rename_i hf
        cases hs
        exact .copyAssign hi hj hij hf
      · cases hs
    · cases hs
  | moveConstruct i j =>
    simp only [State.lifecycle] at hs
    split at hs
    · rename_i other hi hj
      cases hs
      exact .moveConstruct hi hj
    · cases hs
  | moveAssign i j =>
    simp only [State.lifecycle] at hs
    split at hs
    · rename_i a other hi hj
      split at hs
      · rename_i hij
        subst hij
        cases hs
        exact .moveAssignSelf hi
      rename_i hij
      split at hs
      · rename_i hm
        cases hs
        exact .moveAssignUndefined hi hj hij hm
      · rename_i pair h hm
        cases hs
        exact .moveAssign hi hj hij hm
    · cases hs
  | swap i j =>
    simp only [State.lifecycle] at hs
    split at hs
    · rename_i a other hi hj
      cases hs
      exact .swap hi hj
    · cases hs
  | destroy i =>
    simp only [State.lifecycle] at hs
    split at hs
    · rename_i a hi
      split at hs
      · rename_i hd
        cases hs
        exact .destroyUndefined hi hd
      · rename_i h hd
        cases hs
        exact .destroy hi hd
    · cases hs

end BackendPatterns.RuleOfFive
