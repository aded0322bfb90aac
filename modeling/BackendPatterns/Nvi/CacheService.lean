import Mathlib.Logic.Function.Basic
import BackendPatterns.Lib.Bytes
import BackendPatterns.Lib.Counter

/-! # The cache service and its in-memory implementation

The base class validates and counts every request before it calls the override.
The overrides of `InMemoryCache` stand in its public section, so they may be
called on the object as well. -/

namespace BackendPatterns.Nvi
open BackendPatterns.Lib

/-- The virtual functions of a derived class with objects `S`. -/
structure Overrides (S : Type) where
  getImpl : S → Bytes → S
  putImpl : S → Bytes → Bytes → S
  removeImpl : S → Bytes → S

/-- How a call ended, the object after it, and the operations it has counted. -/
structure Outcome (S : Type) where
  result : Except String Unit
  cache : S
  metrics : List String

def validateKey (key : Bytes) : Except String Unit :=
  if key = [] then .error "cache key cannot be empty"
  else if key.length > 256 then .error "cache key too long (max 256 chars)"
  else .ok ()

def validateValue (value : Bytes) : Except String Unit :=
  if value.length > 1024 * 1024 then .error "cache value too large (max 1MB)" else .ok ()

namespace CacheService

variable {S : Type}

/-- A request is checked, then counted, then handed to the override. -/
def request (check : Except String Unit) (operation : String) (impl : S → S) (s : S) : Outcome S :=
  match check with
  | .error e => ⟨.error e, s, []⟩
  | .ok () => ⟨.ok (), impl s, [operation]⟩

def get (v : Overrides S) (s : S) (key : Bytes) : Outcome S :=
  request (validateKey key) "get" (fun s => v.getImpl s key) s

def put (v : Overrides S) (s : S) (key value : Bytes) : Outcome S :=
  request (do validateKey key; validateValue value) "put" (fun s => v.putImpl s key value) s

def remove (v : Overrides S) (s : S) (key : Bytes) : Outcome S :=
  request (validateKey key) "remove" (fun s => v.removeImpl s key) s

end CacheService

structure InMemoryCache where
  cache : Bytes → Option Bytes
  hits : Counter
  misses : Counter

namespace InMemoryCache

def make : InMemoryCache := ⟨fun _ => none, .zero, .zero⟩

def getImpl (c : InMemoryCache) (key : Bytes) : InMemoryCache :=
  match c.cache key with
  | some _ => { c with hits := c.hits.incr }
  | none => { c with misses := c.misses.incr }

def putImpl (c : InMemoryCache) (key value : Bytes) : InMemoryCache :=
  { c with cache := Function.update c.cache key (some value) }

def removeImpl (c : InMemoryCache) (key : Bytes) : InMemoryCache :=
  { c with cache := Function.update c.cache key none }

def overrides : Overrides InMemoryCache := ⟨getImpl, putImpl, removeImpl⟩

theorem getImpl_cache (c : InMemoryCache) (key : Bytes) : (c.getImpl key).cache = c.cache := by
  unfold getImpl
  split <;> rfl

theorem putImpl_cache (c : InMemoryCache) (key value : Bytes) :
    (c.putImpl key value).cache = Function.update c.cache key (some value) := rfl

theorem removeImpl_cache (c : InMemoryCache) (key : Bytes) :
    (c.removeImpl key).cache = Function.update c.cache key none := rfl

end InMemoryCache

/-- The public member functions of an `InMemoryCache`: those of its base class,
the overrides, and the two counters. -/
inductive Call
  | get (key : Bytes)
  | put (key value : Bytes)
  | remove (key : Bytes)
  | getImpl (key : Bytes)
  | putImpl (key value : Bytes)
  | removeImpl (key : Bytes)
  | hits
  | misses

def InMemoryCache.call (c : InMemoryCache) : Call → Outcome InMemoryCache
  | .get key => CacheService.get overrides c key
  | .put key value => CacheService.put overrides c key value
  | .remove key => CacheService.remove overrides c key
  | .getImpl key => ⟨.ok (), c.getImpl key, []⟩
  | .putImpl key value => ⟨.ok (), c.putImpl key value, []⟩
  | .removeImpl key => ⟨.ok (), c.removeImpl key, []⟩
  | .hits | .misses => ⟨.ok (), c, []⟩

/-- A call on one of the caches, or the assignment of one to another, which the
class has implicitly. -/
inductive Action (ι : Type)
  | call (i : ι) (c : Call)
  | assign (i j : ι)

variable {ι : Type} [DecidableEq ι]

def start : ι → InMemoryCache := fun _ => .make

/-- The caller catches what a call throws. -/
def step (s : ι → InMemoryCache) : Action ι → ι → InMemoryCache
  | .call i c => Function.update s i ((s i).call c).cache
  | .assign i j => Function.update s i (s j)

end BackendPatterns.Nvi
