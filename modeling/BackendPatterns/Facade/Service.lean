import Mathlib.Logic.Function.Basic
import BackendPatterns.Lib.Bytes
import BackendPatterns.Lib.Counter
import BackendPatterns.Lib.Machine

/-! # The profile service

`fetch_profiles` asks the cache for the whole batch, loads what is missing from
the database, and scatters the answers back to the positions that missed. -/

namespace BackendPatterns.Facade
open BackendPatterns.Lib

structure UserProfile where
  userId : Int
  name : Bytes
  tier : Bytes
  deriving DecidableEq

structure Metrics where
  cacheHits : Counter
  dbHits : Counter
  misses : Counter

namespace Metrics

def init : Metrics := ⟨.zero, .zero, .zero⟩

def recordCacheHit (m : Metrics) : Metrics := { m with cacheHits := m.cacheHits.incr }

def recordDbHit (m : Metrics) : Metrics := { m with dbHits := m.dbHits.incr }

def recordMiss (m : Metrics) : Metrics := { m with misses := m.misses.incr }

end Metrics

structure ProfileCache where
  cache : Int → Option UserProfile

namespace ProfileCache

def init : ProfileCache :=
  ⟨fun id => if id = 7 then some ⟨7, str "Grace", str "gold"⟩ else none⟩

def getMany (c : ProfileCache) (userIds : List Int) : List (Option UserProfile) :=
  userIds.map c.cache

/-- A profile is stored under its own `user_id`. -/
def putMany (c : ProfileCache) (profiles : List UserProfile) : ProfileCache :=
  profiles.foldl
    (fun c profile => ⟨Function.update c.cache profile.userId (some profile)⟩) c

end ProfileCache

/-- The row under a key has the key as its `user_id`. -/
structure ProfileDatabase where
  rows : Int → Option UserProfile
  keyed : ∀ id row, rows id = some row → row.userId = id

namespace ProfileDatabase

def initRows (id : Int) : Option UserProfile :=
  if id = 42 then some ⟨42, str "Ada", str "platinum"⟩
  else if id = 7 then some ⟨7, str "Grace", str "gold"⟩
  else if id = 8 then some ⟨8, str "Linus", str "silver"⟩
  else none

theorem initRows_keyed (id : Int) (row : UserProfile) (h : initRows id = some row) :
    row.userId = id := by
  unfold initRows at h
  split at h
  · cases h; exact Eq.symm ‹_›
  split at h
  · cases h; exact Eq.symm ‹_›
  split at h
  · cases h; exact Eq.symm ‹_›
  · cases h

def init : ProfileDatabase := ⟨initRows, initRows_keyed⟩

def loadMany (db : ProfileDatabase) (userIds : List Int) : List (Option UserProfile) :=
  userIds.map db.rows

end ProfileDatabase

structure UserProfileFacade where
  cache : ProfileCache
  db : ProfileDatabase
  metrics : Metrics

/-- The first loop of `fetch_profiles`, over `results` from position `i`: the ids
and positions that missed. It is `none` where an index is out of bounds. -/
def collect (userIds : List Int) :
    List (Option UserProfile) → Nat → Metrics → Option (Metrics × List Int × List Nat)
  | [], _, metrics => some (metrics, [], [])
  | some _ :: results, i, metrics => collect userIds results (i + 1) metrics.recordCacheHit
  | none :: results, i, metrics => do
    let userId ← userIds[i]?
    let (metrics, missedIds, missedPositions) ← collect userIds results (i + 1) metrics
    some (metrics, userId :: missedIds, i :: missedPositions)

/-- The second loop, over `loaded` from position `i`: the merged results and the
profiles to cache. -/
def scatter (missedPositions : List Nat) :
    List (Option UserProfile) → Nat → List (Option UserProfile) → Metrics →
      Option (List (Option UserProfile) × List UserProfile × Metrics)
  | [], _, results, metrics => some (results, [], metrics)
  | answer :: loaded, i, results, metrics => do
    let pos ← missedPositions[i]?
    match answer with
    | some profile =>
      if pos < results.length then do
        let (results, profiles, metrics) ← scatter missedPositions loaded (i + 1)
          (results.set pos (some profile)) metrics.recordDbHit
        some (results, profile :: profiles, metrics)
      else none
    | none => scatter missedPositions loaded (i + 1) results metrics.recordMiss

def UserProfileFacade.fetchProfiles (f : UserProfileFacade) (userIds : List Int) :
    Option (List (Option UserProfile) × UserProfileFacade) := do
  let results := f.cache.getMany userIds
  let (metrics, missedIds, missedPositions) ← collect userIds results 0 f.metrics
  if missedIds = [] then some (results, { f with metrics := metrics })
  else do
    let loaded := f.db.loadMany missedIds
    let (results, profilesToCache, metrics) ← scatter missedPositions loaded 0 results metrics
    let cache := if profilesToCache = [] then f.cache else f.cache.putMany profilesToCache
    some (results, ⟨cache, f.db, metrics⟩)

/-- A caller that makes one batch after the other; `answers` are what it got. -/
structure Caller where
  facade : UserProfileFacade
  answers : List (List (Option UserProfile))

def start (f : UserProfileFacade) : Caller := ⟨f, []⟩

def step (s : Caller) (userIds : List Int) : Option Caller := do
  let (results, facade) ← s.facade.fetchProfiles userIds
  some ⟨facade, s.answers ++ [results]⟩

end BackendPatterns.Facade
