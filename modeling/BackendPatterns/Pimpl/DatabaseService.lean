import BackendPatterns.Lib.Bytes
import BackendPatterns.Lib.Machine
import BackendPatterns.Lib.Unique

/-! # A service behind a pointer

A `DatabaseService` is a `unique_ptr` to its implementation and nothing else. It can
be moved but not copied. -/

namespace BackendPatterns.Pimpl
open BackendPatterns.Lib

/-- The address of an object that `new` made. -/
abbrev Addr := Nat

structure Impl where
  connectionString : Bytes
  resultsCache : List Bytes
  deriving DecidableEq

def Impl.execute (query : Bytes) (impl : Impl) : Impl :=
  { impl with resultsCache := impl.resultsCache ++ [str "result for: " ++ query] }

def Impl.fetch (impl : Impl) : List Bytes := impl.resultsCache

def connecting (connectionString : Bytes) : Bytes :=
  str "Impl: connecting to database: " ++ connectionString

def closing : Bytes := str "Impl: closing database connection"

def executing (query : Bytes) : Bytes := str "Impl: executing query: " ++ query

/-- What `~Impl()` logs. -/
def Impl.closes (_ : Impl) : List Bytes := [closing]

/-- The `pimpl_` of each service with the lines that were logged, and what
`fetch_results` has returned. -/
structure State (ι : Type) where
  services : Unique.Store Addr ι Impl Bytes
  fetched : List (List Bytes)

inductive Action (ι : Type)
  | construct (i : ι) (connectionString : Bytes) (p : Addr)
  | moveConstruct (i j : ι)
  | moveAssign (i j : ι)
  | destroy (i : ι)
  | executeQuery (i : ι) (query : Bytes)
  | fetchResults (i : ι)

variable {ι : Type} [DecidableEq ι]

def start : State ι := ⟨⟨.empty, fun _ => none, []⟩, []⟩

/-- It is `none` where the code is undefined or is not called so: a moved-from service
has no implementation. -/
def step (s : State ι) : Action ι → Option (State ι)
  | .construct i connectionString p => (s.services.make i p ⟨connectionString, []⟩).map
    fun services => { s with services := services.emit [connecting connectionString] }
  | .moveConstruct i j => (s.services.moveConstruct i j).map fun services => { s with services }
  | .moveAssign i j => (s.services.moveAssign Impl.closes i j).map
    fun services => { s with services }
  | .destroy i => (s.services.destroy Impl.closes i).map fun services => { s with services }
  | .executeQuery i query => (s.services.modify i (Impl.execute query)).map
    fun services => { s with services := services.emit [executing query] }
  | .fetchResults i => (s.services.deref i).map
    fun impl => { s with fetched := s.fetched ++ [impl.fetch] }

end BackendPatterns.Pimpl
