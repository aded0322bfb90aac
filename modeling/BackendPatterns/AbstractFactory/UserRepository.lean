import BackendPatterns.Lib.Decimal
import BackendPatterns.Lib.FirstAnswer

/-! # A repository from a family of clients

The factory makes a database client and a cache client that belong together. The
repository asks the database for a user until it has a name, whatever other users are
looked up in between: a cache that keeps what it is given has the name from then on. -/

namespace BackendPatterns.AbstractFactory
open BackendPatterns.Lib

/-- `load_user`, on a database with a state, returns or throws. -/
abbrev DatabaseClient (σ E : Type) := FirstAnswer.Source Int Bytes σ E

def productionDatabaseClient (E : Type) : DatabaseClient Unit E := fun s userId =>
  (.ok (if userId = 42 then some (str "Ada") else none), s)

def testDatabaseClient (E : Type) : DatabaseClient Unit E := fun s userId =>
  (.ok (if userId = 5 then some (str "test-db-user-5") else none), s)

/-- `get` and `put`, which do not throw, on a cache with a state; `put` returns the lines
that it logs. -/
structure CacheClient (γ : Type) where
  get : γ → Int → Option Bytes × γ
  put : γ → Int → Bytes → List Bytes × γ

/-- A map from users to names; the caches of the file differ in the first word of their log
lines and in their first entries. -/
def mapCacheClient (label : Bytes) : CacheClient (Int → Option Bytes) where
  get data userId := (data userId, data)
  put data userId name :=
    ([label ++ str " cache put user=" ++ decimal userId ++ str " name=" ++ name],
      Function.update data userId (some name))

def productionCacheClient : CacheClient (Int → Option Bytes) := mapCacheClient (str "prod")

def productionCache : Int → Option Bytes := Function.update (fun _ => none) 7 (some (str "Grace"))

def testCacheClient : CacheClient (Int → Option Bytes) := mapCacheClient (str "test")

def testCache : Int → Option Bytes :=
  Function.update (fun _ => none) 1 (some (str "cached-test-user"))

/-- What the factory creates; `database` and `cache` are the states of the clients. -/
structure BackendFactory (σ γ E : Type) where
  databaseClient : DatabaseClient σ E
  database : σ
  cacheClient : CacheClient γ
  cache : γ

def productionBackendFactory (E : Type) : BackendFactory Unit (Int → Option Bytes) E :=
  ⟨productionDatabaseClient E, (), productionCacheClient, productionCache⟩

def testBackendFactory (E : Type) : BackendFactory Unit (Int → Option Bytes) E :=
  ⟨testDatabaseClient E, (), testCacheClient, testCache⟩

structure UserRepository (σ γ : Type) where
  db : σ
  cache : γ
  log : List Bytes

variable {σ γ E : Type}

namespace UserRepository

def make (factory : BackendFactory σ γ E) : UserRepository σ γ :=
  ⟨factory.database, factory.cache, []⟩

def logLines (r : UserRepository σ γ) (lines : List Bytes) : UserRepository σ γ :=
  { r with log := r.log ++ lines }

/-- `factory` has made the clients. -/
def getUserName (factory : BackendFactory σ γ E) (r : UserRepository σ γ) (userId : Int) :
    Except E (Option Bytes) × UserRepository σ γ :=
  let (cached, cache) := factory.cacheClient.get r.cache userId
  let r := { r with cache }
  match cached with
  | some name => (.ok (some name), r.logLines [str "cache hit for user=" ++ decimal userId])
  | none =>
    let r := r.logLines [str "cache miss for user=" ++ decimal userId]
    let (loaded, db) := factory.databaseClient r.db userId
    let r := { r with db }
    match loaded with
    | .ok (some name) =>
      let (lines, cache) := factory.cacheClient.put r.cache userId name
      (loaded, { r with cache }.logLines lines)
    | _ => (loaded, r)

/-- Lookups one after the other, whose caller catches what they throw. -/
def lookups (factory : BackendFactory σ γ E) (r : UserRepository σ γ) :
    List Int → List (Int × Except E (Option Bytes)) × UserRepository σ γ
  | [] => ([], r)
  | userId :: userIds =>
    let (answer, r) := r.getUserName factory userId
    let (answers, r) := r.lookups factory userIds
    ((userId, answer) :: answers, r)

end UserRepository

/-! ## Caches -/

/-- What the cache has for each user. -/
def CacheClient.known (client : CacheClient γ) (cache : γ) (userId : Int) : Option Bytes :=
  (client.get cache userId).1

/-- The cache keeps what it is given, until it is given another name for the same user. -/
structure CacheClient.Keeps (client : CacheClient γ) : Prop where
  get : ∀ cache userId, client.known (client.get cache userId).2 = client.known cache
  put : ∀ cache userId name, client.known (client.put cache userId name).2 =
    Function.update (client.known cache) userId (some name)

theorem mapCacheClient_keeps (label : Bytes) : (mapCacheClient label).Keeps :=
  ⟨fun _ _ => rfl, fun _ _ _ => rfl⟩

/-! ## What the repository answers -/

open FirstAnswer (lookup)

variable {factory : BackendFactory σ γ E} {r : UserRepository σ γ}
  {s : FirstAnswer.State Int Bytes σ E}

variable (factory) in
/-- The repository remembers what the cache has. -/
structure Remembers (r : UserRepository σ γ) (s : FirstAnswer.State Int Bytes σ E) : Prop where
  db : r.db = s.source
  known : factory.cacheClient.known r.cache = s.known

theorem Remembers.getUserName (h : Remembers factory r s) (hk : factory.cacheClient.Keeps)
    (userId : Int) :
    Remembers factory (r.getUserName factory userId).2 (lookup factory.databaseClient s userId) ∧
      (lookup factory.databaseClient s userId).answers =
        s.answers ++ [(userId, (r.getUserName factory userId).1)] := by
  have hgot : (factory.cacheClient.get r.cache userId).1 = s.known userId := congrFun h.known userId
  have hkept := hk.get r.cache userId
  unfold UserRepository.getUserName lookup
  rcases hget : factory.cacheClient.get r.cache userId with ⟨cached, cache⟩
  rw [hget] at hgot hkept
  dsimp only at hgot hkept ⊢
  rw [← hgot]
  cases cached with
  | some name => exact ⟨⟨h.db, hkept.trans h.known⟩, rfl⟩
  | none =>
    have hsame : factory.cacheClient.known cache = Function.update s.known userId none := by
      rw [show none = s.known userId from hgot, Function.update_eq_self]
      exact hkept.trans h.known
    rcases hload : factory.databaseClient s.source userId with ⟨_ | _ | name, db⟩ <;>
      simp only [UserRepository.logLines, h.db, hload]
    · exact ⟨⟨rfl, hsame⟩, trivial⟩
    · exact ⟨⟨rfl, hsame⟩, trivial⟩
    · refine ⟨⟨rfl, ?_⟩, trivial⟩
      show factory.cacheClient.known (factory.cacheClient.put cache userId name).2 = _
      rw [hk.put, hkept, h.known]
      rfl

theorem Remembers.lookups (h : Remembers factory r s) (hk : factory.cacheClient.Keeps)
    (userIds : List Int) :
    Remembers factory (r.lookups factory userIds).2
        (userIds.foldl (lookup factory.databaseClient) s) ∧
      (userIds.foldl (lookup factory.databaseClient) s).answers =
        s.answers ++ (r.lookups factory userIds).1 := by
  induction userIds generalizing r s with
  | nil => exact ⟨h, (List.append_nil _).symm⟩
  | cons userId userIds ih =>
    obtain ⟨hr, hanswer⟩ := h.getUserName hk userId
    obtain ⟨hr', hanswers⟩ := ih hr
    refine ⟨hr', ?_⟩
    rw [List.foldl_cons, hanswers, hanswer, List.append_assoc]
    rfl

/-- For every factory whose cache keeps what it is given, and every order of lookups, a
user is looked up in the database until it returns a name, and never again: this name, or
that in the cache at first, is the answer from then on. Before, each answer is what the
database returned or threw. -/
theorem first_name_stays (factory : BackendFactory σ γ E) (hk : factory.cacheClient.Keeps)
    (userIds : List Int) :
    ∃ asked, FirstAnswer.consult factory.databaseClient factory.database (asked.map Prod.fst) =
        (asked, ((UserRepository.make factory).lookups factory userIds).2.db) ∧
      ∀ userId, FirstAnswer.History (factory.cacheClient.known factory.cache userId)
        (factory.cacheClient.known
          ((UserRepository.make factory).lookups factory userIds).2.cache userId)
        (FirstAnswer.entries asked userId)
        (FirstAnswer.entries
          ((UserRepository.make factory).lookups factory userIds).1 userId) := by
  have hstart : Remembers factory (UserRepository.make factory)
      ⟨factory.cacheClient.known factory.cache, factory.database, [], []⟩ := ⟨rfl, rfl⟩
  obtain ⟨hr, hanswers⟩ := hstart.lookups hk userIds
  have hgood := FirstAnswer.good_lookups factory.databaseClient
    (factory.cacheClient.known factory.cache) factory.database userIds
  generalize userIds.foldl _ _ = s at hr hanswers hgood
  refine ⟨s.asked, ?_, fun userId => ?_⟩
  · rw [hr.db]
    exact hgood.consulted
  · have hhistory := hgood.history userId
    rw [hanswers, ← hr.known] at hhistory
    exact hhistory

/-- The two lookups of each demo: the second one is a cache hit. -/
theorem first_name_stays_demo :
    ((UserRepository.make (productionBackendFactory Unit)).lookups
      (productionBackendFactory Unit) [42, 42]).2.log =
        [str "cache miss for user=42", str "prod cache put user=42 name=Ada",
          str "cache hit for user=42"] ∧
    ∃ asked, FirstAnswer.consult (productionDatabaseClient Unit) () (asked.map Prod.fst) =
        (asked, ()) ∧
      FirstAnswer.History (productionCache 42) (some (str "Ada"))
        (FirstAnswer.entries asked 42)
        [.ok (some (str "Ada")), .ok (some (str "Ada"))] := by
  obtain ⟨asked, hasked, hhistory⟩ := first_name_stays (productionBackendFactory Unit)
    (mapCacheClient_keeps (str "prod")) [42, 42]
  exact ⟨by decide, asked, hasked, hhistory 42⟩

end BackendPatterns.AbstractFactory
