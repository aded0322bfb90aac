import Mathlib.Data.Fintype.Basic
import BackendPatterns.Lib.Machine
import BackendPatterns.Lib.Storage

/-! # The dispatcher

`handlers_map_` keeps one vector of handlers for each event type, behind a
`std::any`. `publish` walks the vector itself and calls the handlers where they are
stored, and each handler may subscribe and publish before it returns: user code is a
sequence of labels, and the active calls of `publish` form a stack. -/

namespace BackendPatterns.Observer
open BackendPatterns.Lib

variable {T H V : Type} [DecidableEq T]

/-- A `std::any` that holds the vector of handlers for events of type `type`. -/
structure AnyHandlers (T H : Type) where
  type : T
  vec : Storage H

/-- `std::any_cast` to the vector of handlers for `tid`; `none` is `bad_any_cast`.
Event types are object types without qualifiers: `typeid` drops references and
`const`, and the cast does not. -/
def AnyHandlers.cast (tid : T) (a : AnyHandlers T H) : Option (Storage H) :=
  if a.type = tid then some a.vec else none

structure Dispatcher (T H : Type) where
  handlersMap : T → Option (AnyHandlers T H)

namespace Dispatcher

def init : Dispatcher T H := ⟨fun _ => none⟩

/-- `get_handlers`: the vector for `tid`, made when there is none. -/
def getHandlers (d : Dispatcher T H) (tid : T) : Dispatcher T H × Option (Storage H) :=
  match d.handlersMap tid with
  | none => (⟨Function.update d.handlersMap tid (some ⟨tid, .empty⟩)⟩,
      AnyHandlers.cast tid ⟨tid, .empty⟩)
  | some a => (d, a.cast tid)

/-- Assign through the reference that `get_handlers` returned. -/
def assign (d : Dispatcher T H) (tid : T) (vec : Storage H) : Dispatcher T H :=
  ⟨Function.update d.handlersMap tid ((d.handlersMap tid).map fun a => { a with vec := vec })⟩

/-- The vector for `tid` as it now is, which references into the map see. -/
def vec (d : Dispatcher T H) (tid : T) : Storage H :=
  match d.handlersMap tid with
  | none => .empty
  | some a => a.vec

end Dispatcher

/-- An active call of `publish`: the loop's iterators, and whether a handler is
running. Kept for the statements only: the handlers subscribed when it began, and
those invoked, with the event. -/
structure Frame (T H V : Type) where
  type : T
  event : V
  it : Iter
  stop : Iter
  running : Bool
  began : List H
  invoked : List (H × V)

inductive Fault
  | badAnyCast
  | staleRead
  deriving DecidableEq

/-- `subscribed` lists the calls of `subscribe`, `returned` the calls of `publish`
that have returned. A fault ends the run. -/
structure State (T H V : Type) where
  dispatcher : Dispatcher T H
  frames : List (Frame T H V)
  fault : Option Fault
  subscribed : List (T × H)
  returned : List (Frame T H V)

def start : State T H V := ⟨.init, [], none, [], []⟩

namespace State

/-- User code is running: nothing is being published, or a handler has control. -/
def user (s : State T H V) : Bool :=
  match s.frames with
  | [] => true
  | f :: _ => f.running

/-- The handlers subscribed for `tid` so far, in order. -/
def subscribedTo (s : State T H V) (tid : T) : List H :=
  (s.subscribed.filter fun p => p.1 = tid).map Prod.snd

def subscribe (g : Growth) (s : State T H V) (tid : T) (handler : H) : State T H V :=
  match s.dispatcher.getHandlers tid with
  | (d, some vec) =>
    { s with
      dispatcher := d.assign tid (vec.pushBack g handler)
      subscribed := s.subscribed ++ [(tid, handler)] }
  | (d, none) => { s with dispatcher := d, fault := some .badAnyCast }

/-- `publish` up to the first test of its loop. -/
def publish (s : State T H V) (tid : T) (event : V) : State T H V :=
  match s.dispatcher.getHandlers tid with
  | (d, some vec) =>
    { s with
      dispatcher := d
      frames := ⟨tid, event, vec.first, vec.last, false, s.subscribedTo tid, []⟩ :: s.frames }
  | (d, none) => { s with dispatcher := d, fault := some .badAnyCast }

/-- The loop of `publish` at its test: it returns, or calls the next handler. -/
def next (s : State T H V) : Option (State T H V) :=
  match s.frames with
  | [] => none
  | f :: fs =>
    if f.running then none
    else if f.it = f.stop then some { s with frames := fs, returned := s.returned ++ [f] }
    else
      match (s.dispatcher.vec f.type).deref f.it with
      | some handler => some { s with
          frames := { f with running := true, invoked := f.invoked ++ [(handler, f.event)] } :: fs }
      | none => some { s with fault := some .staleRead }

/-- The vector still has the handlers where the loop of `f` has found them. -/
def Fresh (s : State T H V) (f : Frame T H V) : Prop :=
  f.it.generation = (s.dispatcher.vec f.type).generation

instance (s : State T H V) (f : Frame T H V) : Decidable (s.Fresh f) :=
  inferInstanceAs (Decidable (_ = _))

/-- The running handler reads its captures, which are in the storage of the vector. -/
def captures (s : State T H V) : Option (State T H V) :=
  match s.frames with
  | [] => none
  | f :: _ =>
    if ¬ f.running then none
    else if s.Fresh f then some s
    else some { s with fault := some .staleRead }

/-- The running handler returns. -/
def ret (s : State T H V) : Option (State T H V) :=
  match s.frames with
  | [] => none
  | f :: fs =>
    if ¬ f.running then none
    -- the increment of a stale iterator is undefined as well
    else if s.Fresh f then
      some { s with frames := { f with running := false, it := f.it.next } :: fs }
    else some { s with fault := some .staleRead }

end State

/-- `subscribe` and `publish` are calls that user code chooses to make, and a handler
may read its captures. -/
inductive Action (T H V : Type)
  | subscribe (tid : T) (handler : H)
  | publish (tid : T) (event : V)
  | captures
  | next
  | ret

def step (g : Growth) (s : State T H V) (a : Action T H V) : Option (State T H V) :=
  if s.fault.isSome then none
  else
    match a with
    | .subscribe tid handler => if s.user then some (s.subscribe g tid handler) else none
    | .publish tid event => if s.user then some (s.publish tid event) else none
    | .captures => s.captures
    | .next => s.next
    | .ret => s.ret

end BackendPatterns.Observer
