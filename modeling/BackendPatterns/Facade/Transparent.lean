import BackendPatterns.Lib.ReadThrough
import BackendPatterns.Facade.Service

/-! # The facade reads through its cache

A batch answers each id as a lookup in the cache and then in the database, and
warms the cache with what it loaded. The two lists of missed ids and missed
positions stay aligned, so every answer is scattered to the position that asked. -/

namespace BackendPatterns.Facade
open BackendPatterns.Lib BackendPatterns.Lib.ReadThrough

/-- The counters after some cache hits, database hits and misses. -/
def Metrics.plus (m : Metrics) (hits loads misses : Nat) : Metrics :=
  ⟨m.cacheHits.plus hits, m.dbHits.plus loads, m.misses.plus misses⟩

theorem Metrics.plus_hit (m : Metrics) (i j k : Nat) :
    m.recordCacheHit.plus i j k = m.plus (i + 1) j k := rfl

theorem Metrics.plus_dbHit (m : Metrics) (i j k : Nat) :
    m.recordDbHit.plus i j k = m.plus i (j + 1) k := rfl

theorem Metrics.plus_miss (m : Metrics) (i j k : Nat) :
    m.recordMiss.plus i j k = m.plus i j (k + 1) := rfl

theorem Metrics.plus_plus (m : Metrics) (i j k i' j' k' : Nat) :
    (m.plus i j k).plus i' j' k' = m.plus (i + i') (j + j') (k + k') := by
  simp only [Metrics.plus, Counter.plus_plus]

/-- The three counters have grown by so much. -/
def Metrics.Grown (m m' : Metrics) (hits loads misses : Nat) : Prop :=
  m.cacheHits.Grown m'.cacheHits hits ∧ m.dbHits.Grown m'.dbHits loads ∧
    m.misses.Grown m'.misses misses

theorem Metrics.grown_plus (m : Metrics) (hits loads misses : Nat) :
    m.Grown (m.plus hits loads misses) hits loads misses :=
  ⟨Counter.grown_plus _ _, Counter.grown_plus _ _, Counter.grown_plus _ _⟩

section Loops

variable {cache : Int → Option UserProfile}

def missedIds (cache : Int → Option UserProfile) (ids : List Int) : List Int :=
  ids.filter fun id => !hit cache id

/-- The positions of the missed ids, where the first id is at `i`. -/
def missedPositions (cache : Int → Option UserProfile) : Nat → List Int → List Nat
  | _, [] => []
  | i, id :: ids =>
    if hit cache id then missedPositions cache (i + 1) ids
    else i :: missedPositions cache (i + 1) ids

theorem hit_some {id : Int} {profile : UserProfile} (h : cache id = some profile) :
    hit cache id = true := by
  rw [hit, h]
  rfl

theorem hit_none {id : Int} (h : cache id = none) : hit cache id = false := by
  rw [hit, h]
  rfl

/-- A cached id is not among the missed ones. -/
theorem missed_hit {id : Int} (h : hit cache id = true) (i : Nat) (ids : List Int) :
    missedIds cache (id :: ids) = missedIds cache ids ∧
      missedPositions cache i (id :: ids) = missedPositions cache (i + 1) ids := by
  simp [missedIds, missedPositions, h]

/-- Any other is, with its position. -/
theorem missed_cons {id : Int} (h : hit cache id = false) (i : Nat) (ids : List Int) :
    missedIds cache (id :: ids) = id :: missedIds cache ids ∧
      missedPositions cache i (id :: ids) = i :: missedPositions cache (i + 1) ids := by
  simp [missedIds, missedPositions, h]

theorem collect_eq (pre ids : List Int) (metrics : Metrics) :
    collect (pre ++ ids) (ids.map cache) pre.length metrics =
      some (metrics.plus (ids.countP (hit cache)) 0 0, missedIds cache ids,
        missedPositions cache pre.length ids) := by
  induction ids generalizing pre metrics with
  | nil => rfl
  | cons id ids ih =>
    have ih := ih (pre ++ [id])
    simp only [← List.append_cons, List.length_append, List.length_singleton] at ih
    cases hc : cache id with
    | some profile =>
      have hhit := hit_some hc
      obtain ⟨hids, hpositions⟩ := missed_hit hhit pre.length ids
      rw [List.map_cons, hc, collect, ih, hids, hpositions, List.countP_cons_of_pos hhit,
        Metrics.plus_hit]
    | none =>
      have hmiss := hit_none hc
      have hget : (pre ++ id :: ids)[pre.length]? = some id := by simp
      obtain ⟨hids, hpositions⟩ := missed_cons hmiss pre.length ids
      rw [List.map_cons, hc, collect, hget, ih, hids, hpositions,
        List.countP_cons_of_neg (by simp [hmiss])]
      rfl

section Scatter

variable {positions : List Nat} {loaded results : List (Option UserProfile)} {i pos : Nat}
  {metrics : Metrics}

/-- An answer with a row goes to the position that missed. -/
theorem scatter_row {profile : UserProfile} (hpos : positions[i]? = some pos)
    (hlt : pos < results.length) :
    scatter positions (some profile :: loaded) i results metrics =
      (scatter positions loaded (i + 1) (results.set pos (some profile))
        metrics.recordDbHit).map fun r => (r.1, profile :: r.2.1, r.2.2) := by
  rw [scatter, hpos, Option.bind_eq_bind, Option.bind_some]
  dsimp only
  rw [if_pos hlt, Option.map_eq_bind]
  rfl

theorem scatter_none (hpos : positions[i]? = some pos) :
    scatter positions (none :: loaded) i results metrics =
      scatter positions loaded (i + 1) results metrics.recordMiss := by
  rw [scatter, hpos, Option.bind_eq_bind, Option.bind_some]

end Scatter

/-- The answers before position `answered.length` are merged, the others are as
the cache gave them. -/
theorem scatter_eq (rows : Int → Option UserProfile) (seen : List Nat)
    (answered : List (Option UserProfile)) (ids : List Int) (metrics : Metrics) :
    scatter (seen ++ missedPositions cache answered.length ids) ((missedIds cache ids).map rows)
        seen.length (answered ++ ids.map cache) metrics =
      some (answered ++ ids.map (lookup cache rows), (missedIds cache ids).filterMap rows,
        metrics.plus 0 (ids.countP (load cache rows)) (ids.countP (miss cache rows))) := by
  induction ids generalizing seen answered metrics with
  | nil => rfl
  | cons id ids ih =>
    cases hc : cache id with
    | some profile =>
      -- a hit: the loop over the loaded answers does not come here
      have hhit := hit_some hc
      have ih := ih seen (answered ++ [some profile]) metrics
      obtain ⟨hids, hpositions⟩ := missed_hit hhit answered.length ids
      simp only [← List.append_cons, List.length_append, List.length_singleton] at ih
      rw [hids, hpositions, List.map_cons, List.map_cons, hc, lookup_hit hc, ih,
        List.countP_cons_of_neg (by simp [load, hhit]),
        List.countP_cons_of_neg (by simp [miss, hhit])]
    | none =>
      have hmissed := hit_none hc
      have hpos : (seen ++ answered.length :: missedPositions cache (answered.length + 1) ids)[
          seen.length]? = some answered.length := by simp
      obtain ⟨hids, hpositions⟩ := missed_cons hmissed answered.length ids
      rw [hids, hpositions, List.map_cons, List.map_cons, List.map_cons, hc, lookup_none hc]
      cases hr : rows id with
      | some profile =>
        have ih := ih (seen ++ [answered.length]) (answered ++ [some profile]) metrics.recordDbHit
        have hlt : answered.length < (answered ++ none :: ids.map cache).length := by simp
        have hset : (answered ++ none :: ids.map cache).set answered.length (some profile) =
            answered ++ some profile :: ids.map cache := by simp
        simp only [← List.append_cons, List.length_append, List.length_singleton] at ih
        rw [scatter_row hpos hlt, hset, ih, Option.map_some, List.filterMap_cons_some hr,
          List.countP_cons_of_pos (by simp [load, hmissed, hr]),
          List.countP_cons_of_neg (by simp [miss, hr]), Metrics.plus_dbHit]
      | none =>
        have ih := ih (seen ++ [answered.length]) (answered ++ [none]) metrics.recordMiss
        simp only [← List.append_cons, List.length_append, List.length_singleton] at ih
        rw [scatter_none hpos, ih, List.filterMap_cons_none hr,
          List.countP_cons_of_neg (by simp [load, hr]),
          List.countP_cons_of_pos (by simp [miss, hmissed, hr]), Metrics.plus_miss]

end Loops

/-- Rows are stored under the ids that were asked for. -/
theorem putMany_cache (db : ProfileDatabase) (c : ProfileCache) (ids : List Int) (id : Int) :
    (c.putMany (ids.filterMap db.rows)).cache id =
      if id ∈ ids then (db.rows id).or (c.cache id) else c.cache id := by
  induction ids generalizing c with
  | nil => rfl
  | cons a ids ih =>
    cases hr : db.rows a with
    | none =>
      rw [List.filterMap_cons_none hr, ih]
      by_cases ha : id = a
      · subst ha
        simp [hr]
      · simp [ha]
    | some row =>
      have hkey : row.userId = a := db.keyed a row hr
      rw [List.filterMap_cons_some hr]
      have hput : c.putMany (row :: ids.filterMap db.rows) =
          ProfileCache.putMany ⟨Function.update c.cache a (some row)⟩ (ids.filterMap db.rows) := by
        rw [← hkey]
        rfl
      rw [hput, ih]
      by_cases ha : id = a
      · subst ha
        simp [hr]
      · simp [ha]

/-- Storing what was loaded for the missed ids warms the cache with the batch. -/
theorem putMany_missed (db : ProfileDatabase) (c : ProfileCache) (ids : List Int) :
    (c.putMany ((missedIds c.cache ids).filterMap db.rows)).cache = warm c.cache db.rows ids := by
  funext id
  rw [putMany_cache]
  by_cases hmem : id ∈ ids
  · rw [warm_of_mem hmem]
    cases hc : c.cache id with
    | some profile =>
      have hnot : id ∉ missedIds c.cache ids := by simp [missedIds, hit_some hc]
      rw [if_neg hnot, lookup_hit hc]
    | none =>
      have hmissed : id ∈ missedIds c.cache ids := by simp [missedIds, hmem, hit_none hc]
      rw [if_pos hmissed, lookup_none hc, Option.or_none]
  · have hnot : id ∉ missedIds c.cache ids := by simp [missedIds, hmem]
    rw [if_neg hnot, warm_of_not_mem hmem]

namespace UserProfileFacade

/-- What the facade answers for one id. -/
def find (f : UserProfileFacade) : Int → Option UserProfile := lookup f.cache.cache f.db.rows

/-- The facade after a batch: a warmed cache, and the outcomes counted. -/
def warmed (f : UserProfileFacade) (ids : List Int) : UserProfileFacade :=
  ⟨⟨warm f.cache.cache f.db.rows ids⟩, f.db,
    f.metrics.plus (ids.countP (hit f.cache.cache)) (ids.countP (load f.cache.cache f.db.rows))
      (ids.countP (miss f.cache.cache f.db.rows))⟩

theorem find_warmed (f : UserProfileFacade) (ids : List Int) : (f.warmed ids).find = f.find :=
  funext (lookup_warm ids)

/-- `fetch_profiles` returns; no index is out of bounds. -/
theorem fetchProfiles_eq (f : UserProfileFacade) (ids : List Int) :
    f.fetchProfiles ids = some (ids.map f.find, f.warmed ids) := by
  have hcollect := @collect_eq f.cache.cache [] ids f.metrics
  have hscatter := @scatter_eq f.cache.cache f.db.rows [] [] ids
    (f.metrics.plus (ids.countP (hit f.cache.cache)) 0 0)
  have hput := putMany_missed f.db f.cache ids
  simp only [List.nil_append, List.length_nil, Metrics.plus_plus, Nat.add_zero, Nat.zero_add]
    at hcollect hscatter
  have hcache : (if (missedIds f.cache.cache ids).filterMap f.db.rows = [] then f.cache
      else f.cache.putMany ((missedIds f.cache.cache ids).filterMap f.db.rows)) =
      ⟨warm f.cache.cache f.db.rows ids⟩ := by
    rw [← hput]
    split
    · rename_i hnil
      rw [hnil]
      rfl
    · rfl
  simp only [fetchProfiles, ProfileCache.getMany, ProfileDatabase.loadMany, hcollect, hscatter,
    hcache, Option.bind_eq_bind, Option.bind_some]
  split
  · -- nothing was missed: the second loop would have had nothing to do
    rename_i hnil
    rw [hnil] at hscatter hcache
    simp only [List.map_nil, scatter, Option.some.injEq, Prod.mk.injEq] at hscatter
    obtain ⟨hresults, -, hmetrics⟩ := hscatter
    simp only [List.filterMap_nil, if_pos] at hcache
    rw [find, warmed, ← hresults, ← hmetrics, ← hcache]
  · rfl

end UserProfileFacade

/-! ## Runs -/

/-- A run answers every lookup as its first batch would have. -/
theorem run_eq (s : Caller) (batches : List (List Int)) : ∃ metrics,
    Machine.run step s batches =
      some ⟨⟨⟨warm s.facade.cache.cache s.facade.db.rows batches.flatten⟩, s.facade.db, metrics⟩,
        s.answers ++ batches.map fun ids => ids.map s.facade.find⟩ := by
  induction batches generalizing s with
  | nil =>
    refine ⟨s.facade.metrics, ?_⟩
    simp only [Machine.run, List.flatten_nil, warm_nil, List.map_nil, List.append_nil]
  | cons ids batches ih =>
    obtain ⟨metrics, hrun⟩ := ih ⟨s.facade.warmed ids, s.answers ++ [ids.map s.facade.find]⟩
    refine ⟨metrics, ?_⟩
    simp only [Machine.run, step, UserProfileFacade.fetchProfiles_eq, Option.bind_eq_bind,
      Option.bind_some, hrun, UserProfileFacade.find_warmed, List.map_cons, List.flatten_cons,
      List.append_assoc, List.cons_append, List.nil_append]
    simp only [UserProfileFacade.warmed, warm_append]

/-- For any coherent cache and any sequence of batches, each batch returns exactly
the database rows of its ids, and the cache has become the initial one plus the
rows of the ids requested; it is coherent again. -/
theorem fetchProfiles_transparent (f : UserProfileFacade)
    (hc : Coherent f.cache.cache f.db.rows) (batches : List (List Int)) :
    ∃ s, Machine.run step (start f) batches = some s ∧
      s.answers = batches.map (fun ids => ids.map f.db.rows) ∧ s.facade.db = f.db ∧
      Coherent s.facade.cache.cache f.db.rows ∧
      ∀ id, s.facade.cache.cache id =
        if id ∈ batches.flatten ∧ (f.db.rows id).isSome then f.db.rows id
        else f.cache.cache id := by
  obtain ⟨metrics, hrun⟩ := run_eq (start f) batches
  have hrows : f.find = f.db.rows := funext hc.lookup
  refine ⟨_, hrun, ?_, rfl, hc.warm _, ?_⟩
  · simp only [start, List.nil_append, hrows]
  · intro id
    dsimp only [start]
    by_cases hmem : id ∈ batches.flatten
    · rw [warm_of_mem hmem, hc.lookup]
      by_cases hrow : (f.db.rows id).isSome
      · rw [if_pos ⟨hmem, hrow⟩]
      · rw [if_neg fun h => hrow h.2]
        -- an id without a row is not in a coherent cache
        cases hcache : f.cache.cache id with
        | none => simpa using hrow
        | some profile => exact hc id profile hcache
    · rw [if_neg fun h => hmem h.1, warm_of_not_mem hmem]

/-- Two batches of the demo on the cache and the database as they are constructed. -/
theorem fetchProfiles_transparent_demo :
    ∃ s, Machine.run step (start ⟨.init, .init, .init⟩) [[7, 42, 99, 8, 42], [7, 42, 99, 8, 42]] =
      some s ∧ s.answers = List.replicate 2
        [some ⟨7, str "Grace", str "gold"⟩, some ⟨42, str "Ada", str "platinum"⟩, none,
          some ⟨8, str "Linus", str "silver"⟩, some ⟨42, str "Ada", str "platinum"⟩] := by
  have hcoherent : Coherent ProfileCache.init.cache ProfileDatabase.init.rows := by
    intro id row hrow
    dsimp only [ProfileCache.init] at hrow
    split at hrow
    · rename_i hid
      subst hid
      exact hrow
    · cases hrow
  obtain ⟨s, hrun, hanswers, -⟩ := fetchProfiles_transparent ⟨.init, .init, .init⟩ hcoherent
    [[7, 42, 99, 8, 42], [7, 42, 99, 8, 42]]
  exact ⟨s, hrun, hanswers⟩

/-! ## Two batches for one -/

/-- One batch and its two parts return the same and leave the same cache. The counters
grow by the number of ids in all: by those that were cached as hits, and by those in
neither place as misses. What the second part finds in the cache because the first has
loaded it is the only difference between them. -/
theorem fetchProfiles_append (f : UserProfileFacade) (xs ys : List Int) :
    ∃ results₁ f₁ results₂ f₂ g, f.fetchProfiles xs = some (results₁, f₁) ∧
      f₁.fetchProfiles ys = some (results₂, f₂) ∧
      f.fetchProfiles (xs ++ ys) = some (results₁ ++ results₂, g) ∧ g.cache = f₂.cache ∧
      let hits := (xs ++ ys).countP (hit f.cache.cache)
      let misses := (xs ++ ys).countP (miss f.cache.cache f.db.rows)
      let reused := ys.countP fun id =>
        f.cache.cache id = none ∧ (f.db.rows id).isSome ∧ id ∈ xs
      ∃ loads, hits + reused + loads + misses = (xs ++ ys).length ∧
        f.metrics.Grown g.metrics hits (loads + reused) misses ∧
        f.metrics.Grown f₂.metrics (hits + reused) loads misses := by
  have hreused : (ys.countP fun id => f.cache.cache id = none ∧ (f.db.rows id).isSome ∧ id ∈ xs) =
      ys.countP fun id => load f.cache.cache f.db.rows id && decide (id ∈ xs) := by
    refine List.countP_congr fun id _ => ?_
    cases hc : f.cache.cache id <;> simp [load, hit, hc]
  have hhits := @countP_hit_warm _ _ _ f.cache.cache f.db.rows xs ys
  have hloads := @countP_load_warm _ _ _ f.cache.cache f.db.rows xs ys
  have hsum := @hit_load_miss _ _ f.cache.cache f.db.rows (xs ++ ys)
  have hresults : (xs ++ ys).map f.find = xs.map f.find ++ ys.map (f.warmed xs).find := by
    rw [List.map_append, f.find_warmed]
  refine ⟨_, _, _, _, f.warmed (xs ++ ys), f.fetchProfiles_eq xs,
    (f.warmed xs).fetchProfiles_eq ys, ?_, ?_, ?_⟩
  · rw [← hresults]
    exact f.fetchProfiles_eq (xs ++ ys)
  · simp only [UserProfileFacade.warmed, warm_append]
  rw [hreused]
  simp only [List.countP_append] at hsum
  refine ⟨xs.countP (load f.cache.cache f.db.rows) +
    ys.countP (load (warm f.cache.cache f.db.rows xs) f.db.rows), ?_, ?_, ?_⟩
  · simp only [List.countP_append]
    omega
  · rw [Nat.add_assoc, hloads, ← List.countP_append]
    exact f.metrics.grown_plus _ _ _
  · rw [List.countP_append, Nat.add_assoc, ← hhits, List.countP_append]
    simp only [UserProfileFacade.warmed, Metrics.plus_plus, miss_warm]
    exact f.metrics.grown_plus _ _ _

/-- The last of 2^31 cache hits overflows the counter. -/
theorem cacheHits_overflow : ∃ results g,
    UserProfileFacade.fetchProfiles ⟨.init, .init, .init⟩ (List.replicate 2147483648 7 ++ []) =
      some (results, g) ∧ g.metrics.cacheHits.value = none := by
  refine ⟨_, _, UserProfileFacade.fetchProfiles_eq _ _, ?_⟩
  have hcount : (List.replicate 2147483648 (7 : Int) ++ []).countP (hit ProfileCache.init.cache) =
      2147483648 := by
    rw [List.append_nil, List.countP_replicate, if_pos (by decide)]
  show (Counter.zero.plus _).value = none
  rw [hcount]
  exact Counter.plus_overflow rfl (by omega) (by omega)

end BackendPatterns.Facade
