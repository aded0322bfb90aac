import Mathlib.Tactic.DeriveFintype
import BackendPatterns.Lib.Counted
import BackendPatterns.Lib.Decimal
import BackendPatterns.Lib.Machine

/-! # Request contexts with shared and weak pointers

A context owns the pool and only watches the tracer. Contexts may be open at the
same time, in any number, while `main` gives its own pointers up. -/

namespace BackendPatterns.Pointers
open BackendPatterns.Lib BackendPatterns.Lib.Counted

structure Request where
  method : Bytes
  path : Bytes
  deriving DecidableEq

structure Response where
  status : Int
  body : Bytes

structure DbPool where
  dsn : Bytes

def DbPool.queryUserName (_ : DbPool) (userId : Int) : Bytes :=
  if userId = 42 then str "Ada" else str "unknown"

inductive Object
  | dbPool (pool : DbPool)
  | tracer

/-- `dbPool`, `tracer` and `tracerWeak` are those of `main`, `db` and `ctxTracer` the members
of a context. A locked tracer is in a temporary. -/
inductive Var (κ : Type)
  | dbPool
  | tracer
  | tracerWeak
  | db (k : κ)
  | ctxTracer (k : κ)
  | locked
  deriving DecidableEq, Fintype

structure State (κ : Type) where
  store : Store (Var κ) Object
  contexts : κ → Option Request
  out : Bytes

variable {κ : Type} [DecidableEq κ]

namespace State

def assign (s : State κ) (i : Var κ) (p : Ptr) : Option (State κ) :=
  (s.store.assign i p).map fun store => { s with store }

def print (s : State κ) (text : Bytes) : State κ := { s with out := s.out ++ text }

/-- Through the pointer in the temporary. -/
def record (s : State κ) (event : Bytes) : Option (State κ) :=
  match s.store.deref .locked with
  | some .tracer => some (s.print (str "[trace] " ++ event ++ str "\n"))
  | _ => none

/-- The body of `if (auto tracer = ctx.tracer())`. -/
def recordIfLocked (s : State κ) (event : Bytes) : Option (State κ) :=
  if s.store.vars .locked = .null then some s else s.record event

/-- A reference to the pool of a context. -/
def pool (s : State κ) (k : κ) : Option DbPool :=
  match s.store.deref (.db k) with
  | some (.dbPool pool) => some pool
  | _ => none

def handleHealth (s : State κ) (_ : κ) : Option (Response × State κ) :=
  some (⟨200, str "ok"⟩, s)

def handleUser (s : State κ) (k : κ) : Option (Response × State κ) := do
  let s ← s.assign .locked (s.store.lock (s.store.vars (.ctxTracer k)))
  let s ← s.recordIfLocked (str "handle_user")
  let s ← s.assign .locked .null
  let pool ← s.pool k
  return (⟨200, str "user=42 name=" ++ pool.queryUserName 42⟩, s)

def handleNotFound (s : State κ) (_ : κ) : Option (Response × State κ) :=
  some (⟨404, str "not found"⟩, s)

/-- `path` is that of the request in the context. -/
def dispatch (s : State κ) (k : κ) (path : Bytes) : Option (Response × State κ) :=
  if path = str "/health" then s.handleHealth k
  else if path = str "/user/42" then s.handleUser k
  else s.handleNotFound k

/-- The parameters are moved into the members. -/
def construct (s : State κ) (k : κ) (request : Request) : Option (State κ) := do
  let s ← s.assign (.db k) (s.store.vars .dbPool)
  let s ← s.assign (.ctxTracer k) (s.store.vars .tracer).watch
  return { s with contexts := Function.update s.contexts k (some request) }

/-- Members are destroyed in reverse order. -/
def destroy (s : State κ) (k : κ) : Option (State κ) := do
  let s ← s.assign (.ctxTracer k) .null
  let s ← s.assign (.db k) .null
  return { s with contexts := Function.update s.contexts k none }

end State

/-- The line `main` prints for a response. -/
def responseLine (request : Request) (res : Response) : Bytes :=
  request.method ++ str " " ++ request.path ++ str " -> " ++ decimal res.status ++ str " " ++
    res.body ++ str "\n"

def expiredLine : Bytes := str "[trace] tracer expired (weak_ptr did not extend lifetime)\n"

/-- What `main` does, in any order: the body of its loop is `construct`, `dispatch`
and `destroy`, and its pointers go out of scope in `leave`. -/
inductive Action (κ : Type)
  | construct (k : κ) (request : Request)
  | dispatch (k : κ)
  | destroy (k : κ)
  | resetTracer
  | leave

/-- It is `none` where a pointer dangles or there is no such context. -/
def step (s : State κ) : Action κ → Option (State κ)
  | .construct k request => s.construct k request
  | .dispatch k => do
    let request ← s.contexts k
    let (res, s) ← s.dispatch k request.path
    return s.print (responseLine request res)
  | .destroy k => s.destroy k
  | .resetTracer => do
    let s ← s.assign .tracerWeak (s.store.vars .tracer).watch
    let s ← s.assign .tracer .null
    let s ← s.assign .locked (s.store.lock (s.store.vars .tracerWeak))
    let expired := s.store.vars .locked = .null
    let s ← s.assign .locked .null
    return if expired then s.print expiredLine else s
  | .leave => do
    let s ← s.assign .tracerWeak .null
    let s ← s.assign .tracer .null
    s.assign .dbPool .null

/-- The pool and the tracer of `main`. -/
def start : Option (State κ) := do
  let store ← empty.make .dbPool (.dbPool ⟨str "postgres://example"⟩)
  let store ← store.make .tracer .tracer
  return ⟨store, fun _ => none, []⟩

/-- `main`, for any requests. -/
def mainActions (requests : List Request) : List (Action Unit) :=
  (requests.flatMap fun req => [.construct () req, .dispatch (), .destroy ()]) ++
    [.resetTracer, .leave]

end BackendPatterns.Pointers
