import Mathlib.Data.List.Induction
import BackendPatterns.Lib.Trace
import BackendPatterns.Nvi.Bounds

/-! # The cache behind its interface

To a client that calls `get`, `put` and `remove` only, an `InMemoryCache` is a
map that counts its hits and misses; a call that is refused leaves no trace. -/

namespace BackendPatterns.Nvi
open BackendPatterns.Lib BackendPatterns.Lib.Trace

/-- The calls that the base class offers. -/
inductive Request
  | get (key : Bytes)
  | put (key value : Bytes)
  | remove (key : Bytes)

namespace Request

def call : Request → Call
  | .get key => .get key
  | .put key value => .put key value
  | .remove key => .remove key

def operation : Request → String
  | .get _ => "get"
  | .put _ _ => "put"
  | .remove _ => "remove"

def key : Request → Bytes
  | .get key | .put key _ | .remove key => key

/-- The value of a `put`; the others have none to check. -/
def value : Request → Bytes
  | .put _ value => value
  | .get _ | .remove _ => []

/-- The key and the value are within the bounds. -/
def Accepted (r : Request) : Prop := Valid r.key r.value

instance (r : Request) : Decidable r.Accepted := inferInstanceAs (Decidable (_ ∧ _ ∧ _))

def isGet : Request → Bool
  | .get _ => true
  | .put _ _ | .remove _ => false

/-- The override that a request is for. -/
def impl (c : InMemoryCache) : Request → InMemoryCache
  | .get key => c.getImpl key
  | .put key value => c.putImpl key value
  | .remove key => c.removeImpl key

end Request

def request (c : InMemoryCache) (r : Request) : InMemoryCache := (c.call r.call).cache

/-- The cache after a history of requests, the client catching what they throw. -/
def after (rs : List Request) : InMemoryCache := rs.foldl request .make

theorem after_snoc (rs : List Request) (r : Request) :
    after (rs ++ [r]) = request (after rs) r := by
  rw [after, List.foldl_append]
  rfl

/-! ## One request -/

theorem validateKey_eq {key : Bytes} (hne : key ≠ []) (hlen : key.length ≤ 256) :
    validateKey key = .ok () := by
  rw [validateKey, if_neg hne, if_neg (Nat.not_lt.mpr hlen)]

theorem validateValue_eq {value : Bytes} (hlen : value.length ≤ 1024 * 1024) :
    validateValue value = .ok () := by
  rw [validateValue, if_neg (Nat.not_lt.mpr hlen)]

/-- What a request checks. -/
def Request.check : Request → Except String Unit
  | .get key | .remove key => validateKey key
  | .put key value => do validateKey key; validateValue value

theorem Request.check_iff (r : Request) : r.check = .ok () ↔ r.Accepted := by
  cases r with
  | put key value =>
    refine ⟨validate_put, fun h => ?_⟩
    have hkey : validateKey key = .ok () := validateKey_eq h.1 h.2.1
    rw [Request.check, hkey]
    exact validateValue_eq h.2.2
  | get key => exact ⟨fun h => ⟨(validateKey_ok h).1, (validateKey_ok h).2, Nat.zero_le _⟩,
      fun h => validateKey_eq h.1 h.2.1⟩
  | remove key => exact ⟨fun h => ⟨(validateKey_ok h).1, (validateKey_ok h).2, Nat.zero_le _⟩,
      fun h => validateKey_eq h.1 h.2.1⟩

theorem call_eq (c : InMemoryCache) (r : Request) :
    c.call r.call = CacheService.request r.check r.operation (fun c => r.impl c) c := by
  cases r <;> rfl

/-- A request within the bounds is counted and handed to its override. -/
theorem call_accepted {r : Request} (h : r.Accepted) (c : InMemoryCache) :
    c.call r.call = ⟨.ok (), r.impl c, [r.operation]⟩ := by
  rw [call_eq, r.check_iff.mpr h]
  rfl

/-- Any other throws, and does nothing else. -/
theorem call_refused {r : Request} (h : ¬ r.Accepted) (c : InMemoryCache) :
    ∃ e, c.call r.call = ⟨.error e, c, []⟩ := by
  cases hcheck : r.check with
  | ok u => exact absurd (r.check_iff.mp hcheck) h
  | error e =>
    refine ⟨e, ?_⟩
    rw [call_eq, hcheck]
    rfl

theorem request_accepted {r : Request} (h : r.Accepted) (c : InMemoryCache) :
    request c r = r.impl c := by
  rw [request, call_accepted h]

theorem request_refused {r : Request} (h : ¬ r.Accepted) (c : InMemoryCache) : request c r = c := by
  obtain ⟨e, he⟩ := call_refused h c
  rw [request, he]

/-! ## The map -/

/-- An accepted request that assigns to the key or removes it. -/
def Request.Writes (r : Request) (key : Bytes) : Prop := r.Accepted ∧ r.isGet = false ∧ r.key = key

/-- The latest accepted `put` or `remove` on the key was a `put` of the value. -/
def LastPut (rs : List Request) (key value : Bytes) : Prop :=
  ∃ i : Nat, rs[i]? = some (.put key value) ∧ (Request.put key value).Accepted ∧
    ∀ (j : Nat) r, i < j → rs[j]? = some r → ¬ r.Writes key

theorem getElem?_snoc_cases {rs : List Request} {r x : Request} {i : Nat}
    (h : (rs ++ [r])[i]? = some x) : rs[i]? = some x ∨ (i = rs.length ∧ x = r) := by
  rcases Nat.lt_or_ge i rs.length with hlt | hge
  · rw [List.getElem?_append_left hlt] at h
    exact .inl h
  · rw [List.getElem?_append_right hge] at h
    obtain ⟨hi, hx⟩ := List.getElem?_eq_some_iff.mp h
    rw [List.length_singleton] at hi
    refine .inr ⟨by omega, ?_⟩
    rw [← hx]
    simp

theorem lastPut_snoc_write {rs : List Request} {r : Request} {key : Bytes} (h : r.Writes key)
    (value : Bytes) : LastPut (rs ++ [r]) key value ↔ r = .put key value := by
  constructor
  · intro hput
    obtain ⟨i, hget, -, hlater⟩ := hput
    rcases getElem?_snoc_cases hget with hget | ⟨-, hr⟩
    · have hi : i < rs.length := (List.getElem?_eq_some_iff.mp hget).1
      exact absurd h (hlater rs.length r hi (by simp))
    · exact hr.symm
  · intro hr
    subst hr
    refine ⟨rs.length, by simp, h.1, fun j x hj hx => ?_⟩
    have hlt : j < (rs ++ [Request.put key value]).length := (List.getElem?_eq_some_iff.mp hx).1
    rw [List.length_append, List.length_singleton] at hlt
    omega

theorem lastPut_snoc {rs : List Request} {r : Request} {key : Bytes} (h : ¬ r.Writes key)
    (value : Bytes) : LastPut (rs ++ [r]) key value ↔ LastPut rs key value := by
  constructor
  · intro hput
    obtain ⟨i, hget, hacc, hlater⟩ := hput
    rcases getElem?_snoc_cases hget with hget | ⟨-, hr⟩
    · refine ⟨i, hget, hacc, fun j x hj hx => hlater j x hj ?_⟩
      rw [List.getElem?_append_left (List.getElem?_eq_some_iff.mp hx).1]
      exact hx
    · exact absurd (hr ▸ ⟨hacc, rfl, rfl⟩) h
  · intro hput
    obtain ⟨i, hget, hacc, hlater⟩ := hput
    have hi : i < rs.length := (List.getElem?_eq_some_iff.mp hget).1
    refine ⟨i, ?_, hacc, ?_⟩
    · rw [List.getElem?_append_left hi]
      exact hget
    · intro j x hj hx
      rcases getElem?_snoc_cases hx with hx | ⟨-, hx⟩
      · exact hlater j x hj hx
      · rw [hx]
        exact h

/-- A request changes the entry of a key only by writing it. -/
theorem request_cache {r : Request} {key : Bytes} (h : ¬ r.Writes key) (c : InMemoryCache) :
    (request c r).cache key = c.cache key := by
  by_cases hacc : r.Accepted
  · rw [request_accepted hacc]
    cases r with
    | get k => rw [Request.impl, InMemoryCache.getImpl_cache]
    | put k v =>
      rw [Request.impl, InMemoryCache.putImpl_cache]
      exact Function.update_of_ne (fun hk => h ⟨hacc, rfl, hk.symm⟩) _ _
    | remove k =>
      rw [Request.impl, InMemoryCache.removeImpl_cache]
      exact Function.update_of_ne (fun hk => h ⟨hacc, rfl, hk.symm⟩) _ _
  · rw [request_refused hacc]

theorem request_writes {r : Request} {key : Bytes} (h : r.Writes key) (c : InMemoryCache)
    (value : Bytes) : (request c r).cache key = some value ↔ r = .put key value := by
  obtain ⟨hacc, hget, hkey⟩ := h
  rw [request_accepted hacc]
  cases r with
  | get k => cases hget
  | put k v =>
    cases hkey
    rw [Request.impl, InMemoryCache.putImpl_cache, Request.key, Function.update_self]
    simp
  | remove k =>
    cases hkey
    rw [Request.impl, InMemoryCache.removeImpl_cache, Request.key, Function.update_self]
    simp

/-- The cache holds what the history says. -/
theorem after_cache (rs : List Request) (key value : Bytes) :
    (after rs).cache key = some value ↔ LastPut rs key value := by
  induction rs using List.reverseRecOn with
  | nil =>
    refine ⟨nofun, fun h => ?_⟩
    obtain ⟨i, hget, -⟩ := h
    cases hget
  | append_singleton rs r ih =>
    rw [after_snoc]
    by_cases h : r.Writes key
    · rw [request_writes h, lastPut_snoc_write h]
    · rw [request_cache h, ih, lastPut_snoc h]

/-! ## The counters -/

/-- Request `n` is an accepted `get`, and its key was held or not, as told. -/
def getAt (held : Bool) (rs : List Request) (n : Nat) : Bool :=
  match rs[n]? with
  | some r => r.isGet && decide r.Accepted &&
      ((stateAt request .make rs n).cache r.key).isSome == held
  | none => false

/-- How many accepted `get`s were made when their key was held, or was not. -/
def gets (held : Bool) (rs : List Request) : Nat := (List.range rs.length).countP (getAt held rs)

theorem getAt_append {held : Bool} {rs : List Request} {n : Nat} (hn : n < rs.length)
    (later : List Request) : getAt held (rs ++ later) n = getAt held rs n := by
  rw [getAt, getAt, List.getElem?_append_left hn, stateAt_append (Nat.le_of_lt hn)]

theorem getAt_last (held : Bool) (rs : List Request) (r : Request) :
    getAt held (rs ++ [r]) rs.length =
      (r.isGet && decide r.Accepted && ((after rs).cache r.key).isSome == held) := by
  have hget : (rs ++ [r])[rs.length]? = some r := by simp
  rw [getAt, hget, stateAt_append (Nat.le_refl _), stateAt_length]
  rfl

theorem gets_snoc (held : Bool) (rs : List Request) (r : Request) :
    gets held (rs ++ [r]) = gets held rs +
      if r.isGet && decide r.Accepted && ((after rs).cache r.key).isSome == held then 1 else 0 := by
  have hsame : (List.range rs.length).countP (getAt held (rs ++ [r])) = gets held rs := by
    refine List.countP_congr fun n hn => ?_
    rw [getAt_append (List.mem_range.mp hn)]
  rw [gets, List.length_append, List.length_singleton, List.range_succ, List.countP_append, hsame,
    List.countP_singleton, getAt_last]

/-- An accepted `get` moves one counter, by whether the key is held. -/
theorem getImpl_counters (c : InMemoryCache) (key : Bytes) :
    (c.getImpl key).hits = c.hits.plus (if (c.cache key).isSome then 1 else 0) ∧
      (c.getImpl key).misses = c.misses.plus (if (c.cache key).isSome then 0 else 1) := by
  unfold InMemoryCache.getImpl
  cases c.cache key with
  | none => exact ⟨rfl, rfl⟩
  | some value => exact ⟨rfl, rfl⟩

/-- Any other request moves neither. -/
theorem request_counters {r : Request} (h : (r.isGet && decide r.Accepted) = false)
    (c : InMemoryCache) : (request c r).hits = c.hits ∧ (request c r).misses = c.misses := by
  by_cases hacc : r.Accepted
  · rw [request_accepted hacc]
    cases r with
    | get key => simp [Request.isGet, hacc] at h
    | put key value => exact ⟨rfl, rfl⟩
    | remove key => exact ⟨rfl, rfl⟩
  · rw [request_refused hacc]
    exact ⟨rfl, rfl⟩

theorem after_counters (rs : List Request) :
    (after rs).hits = Counter.zero.plus (gets true rs) ∧
      (after rs).misses = Counter.zero.plus (gets false rs) := by
  induction rs using List.reverseRecOn with
  | nil => exact ⟨rfl, rfl⟩
  | append_singleton rs r ih =>
    rw [after_snoc, gets_snoc, gets_snoc, ← Counter.plus_plus, ← Counter.plus_plus, ← ih.1, ← ih.2]
    by_cases h : (r.isGet && decide r.Accepted) = true
    · obtain ⟨hget, hacc⟩ := Bool.and_eq_true_iff.mp h
      cases r with
      | get key =>
        have hcounters := getImpl_counters (after rs) key
        rw [request_accepted (of_decide_eq_true hacc), h]
        cases hheld : ((after rs).cache key).isSome <;>
          simpa [Request.impl, Request.key, hheld] using hcounters
      | put key value => cases hget
      | remove key => cases hget
    · have hnot : (r.isGet && decide r.Accepted) = false := by simpa using h
      obtain ⟨hhits, hmisses⟩ := request_counters hnot (after rs)
      rw [hhits, hmisses, hnot]
      exact ⟨rfl, rfl⟩

/-- Every accepted `get` is a hit or a miss. -/
theorem gets_total (rs : List Request) :
    gets true rs + gets false rs = rs.countP fun r => r.isGet && decide r.Accepted := by
  induction rs using List.reverseRecOn with
  | nil => rfl
  | append_singleton rs r ih =>
    rw [gets_snoc, gets_snoc, List.countP_append, List.countP_singleton, ← ih]
    cases r.isGet && decide r.Accepted with
    | false => rfl
    | true => cases ((after rs).cache r.key).isSome <;> simp <;> omega

/-! ## The interface as a map -/

/-- After any requests the cache holds a key exactly when the latest accepted `put`
or `remove` on it was a `put`, with its value; the counters are the numbers of
accepted `get`s with the key held and not held, as long as these are `int`s; and
the next request throws exactly when it is out of bounds, which leaves the cache as
it was and counts nothing, and is counted once otherwise. -/
theorem interface_refines_map (rs : List Request) :
    (∀ key value, (after rs).cache key = some value ↔ LastPut rs key value) ∧
    (gets true rs ≤ 2147483647 → (after rs).hits.value = some (gets true rs : Int)) ∧
    (gets false rs ≤ 2147483647 → (after rs).misses.value = some (gets false rs : Int)) ∧
    gets true rs + gets false rs = rs.countP (fun r => r.isGet && decide r.Accepted) ∧
    ∀ r : Request, ((∃ e, ((after rs).call r.call).result = .error e) ↔ ¬ r.Accepted) ∧
      (¬ r.Accepted → ((after rs).call r.call).cache = after rs ∧
        ((after rs).call r.call).metrics = []) ∧
      (r.Accepted → ((after rs).call r.call).metrics = [r.operation]) := by
  obtain ⟨hhits, hmisses⟩ := after_counters rs
  refine ⟨after_cache rs, fun hle => ?_, fun hle => ?_, gets_total rs, fun r => ⟨?_, ?_, ?_⟩⟩
  · have hvalue := @Counter.plus_value .zero 0 (gets true rs) rfl (by omega)
    rw [hhits, hvalue, Int.zero_add]
  · have hvalue := @Counter.plus_value .zero 0 (gets false rs) rfl (by omega)
    rw [hmisses, hvalue, Int.zero_add]
  · refine ⟨?_, ?_⟩
    · intro h hacc
      obtain ⟨e, he⟩ := h
      rw [call_accepted hacc] at he
      cases he
    · intro h
      obtain ⟨e, he⟩ := call_refused h (after rs)
      exact ⟨e, by rw [he]⟩
  · intro h
    obtain ⟨e, he⟩ := call_refused h (after rs)
    rw [he]
    exact ⟨rfl, rfl⟩
  · intro h
    rw [call_accepted h]

/-- A key that is stored once and looked up many times. -/
def popular (n : Nat) : List Request :=
  .put (str "k") (str "v") :: List.replicate n (.get (str "k"))

theorem popular_snoc (n : Nat) : popular (n + 1) = popular n ++ [.get (str "k")] := by
  rw [popular, List.replicate_succ', ← List.cons_append]
  rfl

theorem popular_held (n : Nat) : (after (popular n)).cache (str "k") = some (str "v") := by
  induction n with
  | zero => decide
  | succ n ih =>
    have hreads : ¬ (Request.get (str "k")).Writes (str "k") := by
      rintro ⟨-, hget, -⟩
      cases hget
    rw [popular_snoc, after_snoc, request_cache hreads]
    exact ih

theorem gets_popular (n : Nat) : gets true (popular n) = n := by
  induction n with
  | zero => decide
  | succ n ih =>
    have hacc : (Request.get (str "k")).Accepted := by decide
    have hget : (Request.get (str "k")).isGet = true := rfl
    rw [popular_snoc, gets_snoc, ih, hget, decide_eq_true hacc, Request.key, popular_held]
    rfl

/-- The last of 2^31 hits overflows the counter. -/
theorem hits_overflow : gets true (popular 2147483648) = 2147483648 ∧
    (after (popular 2147483648)).hits.value ≠ some 2147483648 := by
  refine ⟨gets_popular 2147483648, ?_⟩
  have hlost := @Counter.plus_overflow .zero 0 2147483648 rfl (by omega) (by omega)
  rw [(after_counters _).1, gets_popular, hlost]
  exact nofun

end BackendPatterns.Nvi
