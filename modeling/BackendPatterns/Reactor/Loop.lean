import Mathlib.Data.Fintype.Basic
import BackendPatterns.Lib.Machine

/-! # The reactor and its sources

`main` makes a pipe for each source, hands the write ends to writer threads, and
polls the read ends until every source has come to its end. The kernel keeps a
table of open descriptors and the bytes in each pipe; poll results, the sizes of
writes and the interleaving with the writers are labels. -/

namespace BackendPatterns.Reactor
open BackendPatterns.Lib

abbrev Bytes := List UInt8

def newline : UInt8 := 10

/-- The owner of a descriptor; -1 owns none. -/
structure UniqueFd where
  fd : Int
  deriving DecidableEq

def UniqueFd.none : UniqueFd := ⟨-1⟩

structure PipePair where
  readEnd : UniqueFd
  writeEnd : UniqueFd

/-- A descriptor number, which is an `int` that is not negative. -/
def IsFd (fd : Int) : Prop := 0 ≤ fd ∧ fd ≤ 2147483647

instance (fd : Int) : Decidable (IsFd fd) := inferInstanceAs (Decidable (_ ∧ _))

/-- What an open descriptor refers to. -/
inductive End (n : Nat)
  | read (i : Fin n)
  | write (i : Fin n)
  deriving DecidableEq

/-- A pipe has room for whatever is written to it. -/
structure Pipe where
  buffer : Bytes
  readOpen : Bool
  writeOpen : Bool

/-- A writer thread, by its place in `simulate_source` and `write_message`. -/
inductive WriterPc
  | unstarted
  | started
  | events (rest : List Bytes)
  | writing (data : Bytes) (rest : List Bytes)
  | returned
  | failed
  deriving DecidableEq

/-- `revents`, as far as the loop looks at it. -/
structure Revents where
  pollin : Bool
  pollhup : Bool
  pollerr : Bool

def Revents.any (r : Revents) : Bool := r.pollin || r.pollhup || r.pollerr

/-- What belongs to one source: its `PipePair`, the descriptor its lambda has
captured, the parameter of `simulate_source`, and the `fd` of its `pollfd`. Kept
for the statements only: the descriptors that `make_pipe` returned, the bytes
written, the messages reported and how often it was retired. -/
structure Source where
  pair : PipePair
  pipe : Pipe
  capture : UniqueFd
  param : UniqueFd
  writer : WriterPc
  watcher : Int
  fds : Option (Int × Int)
  written : Bytes
  reports : List Bytes
  retired : Nat

/-- `main`, by the statement it is at. -/
inductive MainPc (n : Nat)
  | makePipe (k : Nat)
  | spawn (k : Nat)
  | loop
  | poll
  | dispatch (revents : Fin n → Revents) (k : Nat)
  | drain (revents : Fin n → Revents) (k : Fin n) (handler : Fin n) (message : Bytes)
  | join (k : Nat)
  | destroy (k : Nat)
  | done
  | failed (what : String)

/-- `closes` lists the calls of `::close`, with whether the descriptor was open. -/
structure State (n : Nat) where
  table : Int → Option (End n)
  closes : List (Int × Bool)
  sources : Fin n → Source
  handlers : List (Int × Fin n)
  active : Int
  main : MainPc n

variable {n : Nat}

def Source.init : Source where
  pair := ⟨.none, .none⟩
  pipe := ⟨[], true, true⟩
  capture := .none
  param := .none
  writer := .unstarted
  watcher := -1
  fds := none
  written := []
  reports := []
  retired := 0

def start (n : Nat) : State n where
  table := fun _ => none
  closes := []
  sources := fun _ => Source.init
  handlers := []
  active := 0
  main := .makePipe 0

namespace State

def modify (s : State n) (i : Fin n) (f : Source → Source) : State n :=
  { s with sources := Function.update s.sources i (f (s.sources i)) }

/-! ## System calls -/

def close (s : State n) (fd : Int) : State n :=
  let t := { s with
    table := Function.update s.table fd none
    closes := s.closes ++ [(fd, (s.table fd).isSome)] }
  match s.table fd with
  | some (.read i) => t.modify i fun src => { src with pipe := { src.pipe with readOpen := false } }
  | some (.write i) =>
    t.modify i fun src => { src with pipe := { src.pipe with writeOpen := false } }
  | none => t

/-- `::read(fd, &ch, 1)`: a byte, the end of the stream, or an error. -/
inductive ReadResult
  | byte (b : UInt8)
  | eof
  | blocks
  | error

def read (s : State n) (fd : Int) : ReadResult × State n :=
  match s.table fd with
  | some (.read i) =>
    match (s.sources i).pipe.buffer with
    | b :: rest =>
      (.byte b, s.modify i fun src => { src with pipe := { src.pipe with buffer := rest } })
    | [] => if (s.sources i).pipe.writeOpen then (.blocks, s) else (.eof, s)
  | _ => (.error, s)

/-- `::write(fd, data, size)` of the bytes it takes, for which it never waits; `none` is
an error. -/
def write (s : State n) (fd : Int) (data : Bytes) : Option (State n) :=
  match s.table fd with
  | some (.write i) =>
    if (s.sources i).pipe.readOpen then
      some (s.modify i fun src => { src with
        pipe := { src.pipe with buffer := src.pipe.buffer ++ data }
        written := src.written ++ data })
    else none
  | _ => none

/-- `UniqueFd::reset()`, which is also the destructor. -/
def reset (s : State n) (u : UniqueFd) : State n := if u.fd = -1 then s else s.close u.fd

/-! ## The writer threads -/

/-- The next step of writer `i`, whose events are `events`. A write takes the
first `amount` bytes. -/
def writerStep (s : State n) (events : List Bytes) (i : Fin n) (amount : Nat) :
    Option (State n) :=
  let src := s.sources i
  match src.writer with
  | .unstarted => none
  | .started => some (s.modify i fun src =>
      { src with param := ⟨src.capture.fd⟩, capture := .none, writer := .events events })
  | .events [] => some (((s.reset src.param).reset src.capture).modify i fun src =>
      { src with param := .none, capture := .none, writer := .returned })
  | .events (payload :: rest) =>
    some (s.modify i fun src => { src with writer := .writing (payload ++ [newline]) rest })
  | .writing [] rest => some (s.modify i fun src => { src with writer := .events rest })
  | .writing data rest =>
    if 0 < amount ∧ amount ≤ data.length then
      match s.write src.param.fd (data.take amount) with
      | some t =>
        some (t.modify i fun src => { src with writer := .writing (data.drop amount) rest })
      | none => some (s.modify i fun src => { src with writer := .failed })
    else none
  | .returned => none
  | .failed => none

/-! ## The main thread -/

/-- `make_pipe` for source `k`, for which the kernel chooses two free descriptors. -/
def makePipe (s : State n) (k : Fin n) (r w : Int) : Option (State n) :=
  if IsFd r ∧ IsFd w ∧ r ≠ w ∧ s.table r = none ∧ s.table w = none then
    some ({ s with
      table := Function.update (Function.update s.table r (some (.read k))) w (some (.write k))
      main := .makePipe (k + 1) }.modify k fun src =>
        { src with pair := ⟨⟨r⟩, ⟨w⟩⟩, fds := some (r, w) })
  else none

/-- The lambda of thread `k` captures the write end. -/
def spawn (s : State n) (k : Fin n) : State n :=
  { s with main := .spawn (k + 1) }.modify k fun src =>
    { src with
      capture := ⟨src.pair.writeEnd.fd⟩
      pair := { src.pair with writeEnd := .none }
      writer := .started }

/-- `watchers`, `handlers` and `active_sources`. -/
def watch (s : State n) : State n :=
  { s with
    sources := fun i => { s.sources i with watcher := (s.sources i).pair.readEnd.fd }
    handlers := (List.finRange n).map fun i => ((s.sources i).pair.readEnd.fd, i)
    active := n
    main := .loop }

/-- `poll` returns: it reports nothing for a slot whose `fd` is -1. -/
def poll (s : State n) (revents : Fin n → Revents) : State n :=
  if ∃ i, (s.sources i).watcher ≠ -1 ∧ (revents i).any = true then
    { s with main := .dispatch revents 0 }
  else { s with main := .loop }

/-- One iteration of the loop over `watchers`, up to the call of the handler. -/
def dispatch (s : State n) (revents : Fin n → Revents) (k : Nat) : State n :=
  if h : k < n then
    let fd := (s.sources ⟨k, h⟩).watcher
    if fd = -1 ∨ (revents ⟨k, h⟩).any = false then { s with main := .dispatch revents (k + 1) }
    else
      match s.handlers.lookup fd with
      | some i => { s with main := .drain revents ⟨k, h⟩ i [] }
      | none => { s with main := .failed "unordered_map::at" }
  else { s with main := .loop }

def report (s : State n) (handler : Fin n) (message : Bytes) : State n :=
  s.modify handler fun src => { src with reports := src.reports ++ [message] }

/-- The end of an iteration whose handler returned false. -/
def retire (s : State n) (revents : Fin n → Revents) (k : Fin n) : State n :=
  { (s.close (s.sources k).watcher).modify k fun src =>
      { src with watcher := -1, retired := src.retired + 1 } with
    active := s.active - 1
    main := .dispatch revents (k + 1) }

/-- One iteration of the loop of `drain_one_message`, which has read `message`. -/
def drain (s : State n) (revents : Fin n → Revents) (k handler : Fin n) (message : Bytes) :
    Option (State n) :=
  match s.read (s.sources k).watcher with
  | (.eof, t) => some ((if message = [] then t else t.report handler message).retire revents k)
  | (.byte b, t) =>
    if b = newline then some { t.report handler message with main := .dispatch revents (k + 1) }
    else some { t with main := .drain revents k handler (message ++ [b]) }
  | (.blocks, _) => none
  | (.error, t) => some { t with main := .failed "read failed" }

/-- `~PipePair` of source `k`. -/
def destroyPair (s : State n) (k : Fin n) : State n :=
  { (s.reset (s.sources k).pair.writeEnd).reset (s.sources k).pair.readEnd with
    main := .destroy k }.modify k fun src => { src with pair := ⟨.none, .none⟩ }

/-- The next statement of `main`, where it has no choice to make. -/
def mainStep (s : State n) : Option (State n) :=
  match s.main with
  | .makePipe k => if k < n then none else some { s with main := .spawn 0 }
  | .spawn k => if h : k < n then some (s.spawn ⟨k, h⟩) else some s.watch
  | .loop => if 0 < s.active then some { s with main := .poll } else some { s with main := .join 0 }
  | .poll => none
  | .dispatch revents k => some (s.dispatch revents k)
  | .drain revents k handler message => s.drain revents k handler message
  | .join k =>
    if h : k < n then
      if (s.sources ⟨k, h⟩).writer = .returned then some { s with main := .join (k + 1) } else none
    else some { s with main := .destroy n }
  | .destroy 0 => some { s with main := .done }
  | .destroy (k + 1) => if h : k < n then some (s.destroyPair ⟨k, h⟩) else none
  | .done => none
  | .failed _ => none

end State

/-- The choices of the kernel and the scheduler. -/
inductive Action (n : Nat)
  | pipe (r w : Int)
  | poll (revents : Fin n → Revents)
  | main
  | writer (i : Fin n) (amount : Nat)

def step (events : Fin n → List Bytes) (s : State n) : Action n → Option (State n)
  | .pipe r w =>
    match s.main with
    | .makePipe k => if h : k < n then s.makePipe ⟨k, h⟩ r w else none
    | _ => none
  | .poll revents =>
    match s.main with
    | .poll => some (s.poll revents)
    | _ => none
  | .main => s.mainStep
  | .writer i amount => s.writerStep (events i) i amount

end BackendPatterns.Reactor
