import BackendPatterns.FirstSuccess.Counts

/-! # The race has one outcome

The promise gets the value of the success that exchanged `done` first; when all
lookups fail, it gets the error written last, since the thread that claims
`done` reads it after every write. -/

namespace BackendPatterns.FirstSuccess
open BackendPatterns.Lib BackendPatterns.Lib.Threads

variable {n : Nat} {V E : Type} {outcome : Fin n → Except E V} {s : Race n V E}

/-- The successes' exchanges: the first of them is the one that wins. -/
structure Order (outcome : Fin n → Except E V) (s : Race n V E) : Prop where
  unset : s.shared.done = false → exchanges s.log = []
  setting : ∀ i v, s.pc i = .setValue v → (exchanges s.log).head? = some i
  called : ∀ i v, (i, .ok v) ∈ calls s.log →
    (exchanges s.log).head? = some i ∧ outcome i = .ok v

/-- Has written its error. -/
def wrote : Except E V → Pc V E → Bool
  | .error _, .fetchSub => true
  | o, p => failed o p == 1

theorem wrote_of_failed {o : Except E V} {p : Pc V E} (h : failed o p = 1) : wrote o p = true := by
  cases o <;> cases p <;> simp_all [failed, wrote]

/-- The exception of a lookup that failed. -/
def errorOf : Except E V → Option (Exn E)
  | .ok _ => none
  | .error e => some (.lookup e)

structure Errors (outcome : Fin n → Except E V) (s : Race n V E) : Prop where
  written : ∀ i, i ∈ writes s.log ↔ wrote (outcome i) (s.pc i) = true
  nodup : (writes s.log).Nodup
  last : s.shared.lastError = (writes s.log).getLast?.bind fun i => errorOf (outcome i)
  read : ∀ i e, s.pc i = .setException e → s.shared.lastError = some e
  called : ∀ i e, (i, .error e) ∈ calls s.log →
    s.shared.remaining = 0 ∧ s.shared.lastError = some e

section Thread

variable {o : Except E V} {sh sh' : Shared V E} {p p' : Pc V E} {l : List (Event V E)}

theorem Acts.exchanges (ha : Acts o sh p sh' p' l) (i : Fin n) :
    (∃ v, p = .exchange v ∧ exchanges (l.map (i, ·)) = [i] ∧ sh'.done = true) ∨
      (exchanges (l.map (i, ·)) = [] ∧ ∀ v, p' ≠ .setValue v) := by
  cases ha with
  | won => exact .inl ⟨_, rfl, rfl, rfl⟩
  | lost hd => exact .inl ⟨_, rfl, rfl, hd⟩
  | _ => exact .inr ⟨rfl, nofun⟩

theorem Acts.setting {v : V} (ha : Acts o sh p sh' (.setValue v) l) (i : Fin n) :
    sh.done = false ∧ FirstSuccess.exchanges (l.map (i, ·)) = [i] := by
  cases ha with
  | won hd => exact ⟨hd, rfl⟩

theorem Acts.called_value {v : V} {i j : Fin n} (ha : Acts o sh p sh' p' l)
    (hc : (j, .ok v) ∈ FirstSuccess.calls (l.map (i, ·))) : j = i ∧ p = .setValue v := by
  cases ha with
  | setValue => simpa [FirstSuccess.calls, eq_comm] using hc
  | valueTwice => simpa [FirstSuccess.calls, eq_comm] using hc
  | _ => simp [FirstSuccess.calls] at hc

theorem Acts.called_error {e : Exn E} {i j : Fin n} (ha : Acts o sh p sh' p' l)
    (hc : (j, .error e) ∈ FirstSuccess.calls (l.map (i, ·))) : j = i ∧ p = .setException e := by
  cases ha with
  | setException => simpa [FirstSuccess.calls, eq_comm] using hc
  | exceptionTwice => simpa [FirstSuccess.calls, eq_comm] using hc
  | _ => simp [FirstSuccess.calls] at hc

theorem Acts.writes (ha : Acts o sh p sh' p' l) (h : Place o p)
    (hempty : owns p = 1 → sh.promise = none) (i : Fin n) :
    (writes (l.map (i, ·)) = [i] ∧ wrote o p = false ∧ wrote o p' = true ∧
        sh'.lastError = errorOf o) ∨
      (writes (l.map (i, ·)) = [] ∧ wrote o p' = wrote o p ∧ sh'.lastError = sh.lastError) := by
  cases ha with
  | value ho => subst ho; exact .inr ⟨rfl, rfl, rfl⟩
  | error ho => subst ho; exact .inr ⟨rfl, rfl, rfl⟩
  | won => obtain rfl : o = _ := h; exact .inr ⟨rfl, rfl, rfl⟩
  | lost => obtain rfl : o = _ := h; exact .inr ⟨rfl, rfl, rfl⟩
  | setValue => obtain rfl : o = _ := h; exact .inr ⟨rfl, rfl, rfl⟩
  | valueTwice hp => rw [hempty rfl] at hp; cases hp
  | record => obtain ⟨x, rfl, rfl⟩ := h; exact .inl ⟨rfl, rfl, rfl, rfl⟩
  | exceptionTwice hp => rw [hempty rfl] at hp; cases hp
  | _ => obtain ⟨x, rfl⟩ := h; exact .inr ⟨rfl, rfl, rfl⟩

/-- What `report_failure` throws is the last error, if one was recorded. -/
theorem Acts.read {e : Exn E} (ha : Acts o sh p sh' (.setException e) l) :
    p = .readError ∧ sh' = sh ∧ ∀ x, sh.lastError = some x → e = x := by
  cases ha with
  | readError => exact ⟨rfl, rfl, fun x hx => by rw [hx]; rfl⟩

end Thread

theorem head?_append_left {α : Type*} {l l' : List α} {a : α} (h : l.head? = some a) :
    (l ++ l').head? = some a := by
  rw [List.head?_append, h]
  rfl

theorem Order.step {t : Race n V E} {i : Fin n} (h : Order outcome s) (hk : Counts outcome s)
    (hs : step outcome s i = some t) : Order outcome t := by
  obtain ⟨sh, p, l, ha, rfl⟩ := step_cases hs
  refine ⟨?_, ?_, ?_⟩
  · intro hd
    obtain ⟨v, _, _, hdone⟩ | ⟨he, _⟩ := ha.exchanges i
    · rw [hdone] at hd
      cases hd
    · have hold : s.shared.done = false := by
        by_contra hne
        rw [ha.done_mono (by simpa using hne)] at hd
        cases hd
      rw [exchanges_append, he, h.unset hold]
      rfl
  · intro j v hj
    dsimp only at hj ⊢
    by_cases hji : j = i
    · subst hji
      rw [Function.update_self] at hj
      subst hj
      obtain ⟨hd, he⟩ := ha.setting j
      rw [exchanges_append, he, h.unset hd]
      rfl
    · rw [Function.update_of_ne hji] at hj
      rw [exchanges_append]
      exact head?_append_left (h.setting j v hj)
  · intro j v hc
    rw [exchanges_append]
    rw [calls_append, List.mem_append] at hc
    rcases hc with hc | hc
    · obtain ⟨hhead, ho⟩ := h.called j v hc
      exact ⟨head?_append_left hhead, ho⟩
    · obtain ⟨rfl, hp⟩ := ha.called_value hc
      have hplace := hk.place j
      rw [hp] at hplace
      exact ⟨head?_append_left (h.setting j v hp), hplace⟩

/-- After the last failure the record of errors is final. -/
theorem Counts.frozen (h : Counts outcome s) (h0 : s.shared.remaining = 0) {i : Fin n}
    {sh : Shared V E} {p : Pc V E} {l : List (Event V E)}
    (ha : Acts (outcome i) s.shared (s.pc i) sh p l) :
    sh.remaining = 0 ∧ sh.lastError = s.shared.lastError := by
  have hone := h.all_failed h0 i
  constructor
  · obtain heq | hp := ha.remaining_eq
    · exact heq.trans h0
    · rw [hp, failed_fetchSub] at hone
      cases hone
  · obtain ⟨_, hw, _⟩ | ⟨_, _, heq⟩ :=
      ha.writes (h.place i) (fun hi => (h.promise_empty hi).1) i
    · rw [wrote_of_failed hone] at hw
      cases hw
    · exact heq

/-- Once a write is recorded, so is an error. -/
theorem Errors.recorded (h : Errors outcome s) {i : Fin n}
    (hi : wrote (outcome i) (s.pc i) = true) : ∃ j e, (writes s.log).getLast? = some j ∧
      outcome j = .error e ∧ s.shared.lastError = some (.lookup e) := by
  have hmem := (h.written i).mpr hi
  obtain ⟨j, hj⟩ := Option.isSome_iff_exists.mp
    (List.getLast?_isSome.mpr (List.ne_nil_of_mem hmem))
  have hw := (h.written j).mp (List.mem_of_getLast? hj)
  cases ho : outcome j with
  | ok v => rw [ho] at hw; cases hw
  | error e =>
    refine ⟨j, e, hj, ho, ?_⟩
    rw [h.last, hj, Option.bind_some, ho]
    rfl

theorem Errors.step {t : Race n V E} {i : Fin n} (h : Errors outcome s) (hk : Counts outcome s)
    (hs : step outcome s i = some t) : Errors outcome t := by
  obtain ⟨sh, p, l, ha, rfl⟩ := step_cases hs
  have hempty : owns (s.pc i) = 1 → s.shared.promise = none := fun hi => (hk.promise_empty hi).1
  have hwrites := ha.writes (hk.place i) hempty i
  refine ⟨?_, ?_, ?_, ?_, ?_⟩
  · intro j
    dsimp only
    rw [writes_append, List.mem_append]
    by_cases hji : j = i
    · subst hji
      rw [Function.update_self]
      obtain ⟨hl, -, hw, -⟩ | ⟨hl, hw, -⟩ := hwrites
      · simp [hl, hw]
      · simp [hl, hw, h.written j]
    · rw [Function.update_of_ne hji]
      obtain ⟨hl, -⟩ | ⟨hl, -⟩ := hwrites
      · simp [hl, hji, h.written j]
      · simp [hl, h.written j]
  · rw [writes_append]
    obtain ⟨hl, hw, -⟩ | ⟨hl, -⟩ := hwrites
    · have hnew : i ∉ writes s.log := by
        rw [h.written, hw]
        simp
      rw [hl]
      exact List.nodup_append.mpr ⟨h.nodup, by simp, fun x hx y hy => by
        rw [List.mem_singleton.mp hy]
        exact fun hxi => hnew (hxi ▸ hx)⟩
    · rw [hl, List.append_nil]
      exact h.nodup
  · dsimp only
    rw [writes_append]
    obtain ⟨hl, -, -, he⟩ | ⟨hl, -, he⟩ := hwrites
    · rw [hl, he, List.getLast?_concat, Option.bind_some]
    · rw [hl, List.append_nil, he]
      exact h.last
  · intro j e hj
    dsimp only at hj ⊢
    by_cases hji : j = i
    · subst hji
      rw [Function.update_self] at hj
      subst hj
      obtain ⟨hp, rfl, hx⟩ := ha.read
      have hone := hk.all_failed (hk.isLast j (by rw [hp]; rfl)) j
      obtain ⟨_, _, _, _, he⟩ := h.recorded (wrote_of_failed hone)
      rw [hx _ he]
      exact he
    · rw [Function.update_of_ne hji] at hj
      rw [(hk.frozen (hk.isLast j (by rw [hj]; rfl)) ha).2]
      exact h.read j e hj
  · intro j e hc
    rw [calls_append, List.mem_append] at hc
    rcases hc with hc | hc
    · obtain ⟨h0, he⟩ := h.called j e hc
      obtain ⟨h0', he'⟩ := hk.frozen h0 ha
      exact ⟨h0', he'.trans he⟩
    · obtain ⟨rfl, hp⟩ := ha.called_error hc
      obtain ⟨h0', he'⟩ := hk.frozen (hk.isLast j (by rw [hp]; rfl)) ha
      exact ⟨h0', he'.trans (h.read j e hp)⟩

theorem reachable_order (hn : 0 < n)
    (h : Machine.Reachable (FirstSuccess.step outcome) (start n) s) :
    Order outcome s :=
  h.invariant ⟨fun _ => rfl, nofun, nofun⟩ fun hr ih hs => ih.step (reachable_counts hn hr) hs

theorem errors_start (outcome : Fin n → Except E V) : Errors outcome (start n) := by
  refine ⟨fun i => ?_, List.nodup_nil, rfl, nofun, nofun⟩
  cases ho : outcome i <;> simp [start, writes, wrote, failed]

theorem reachable_errors (hn : 0 < n)
    (h : Machine.Reachable (FirstSuccess.step outcome) (start n) s) :
    Errors outcome s :=
  h.invariant (errors_start outcome) fun hr ih hs => ih.step (reachable_counts hn hr) hs

/-- What the race promises about a state. -/
structure OneOutcome (outcome : Fin n → Except E V) (s : Race n V E) : Prop where
  once : (calls s.log).length ≤ 1
  /-- When every lookup thread has finished, the promise was satisfied once. -/
  completed : (∀ i, s.pc i = .finished) → (calls s.log).length = 1
  /-- The future receives what the one call sets. -/
  received : s.shared.promise = (calls s.log).head?.map Prod.snd
  noException : (∃ i v, outcome i = .ok v) → ∀ i e, (i, .error e) ∉ calls s.log
  /-- The value is that of the success whose `done.exchange` came first. -/
  first : (∃ i v, outcome i = .ok v) → ∀ r, s.shared.promise = some r →
    ∃ i v, r = .ok v ∧ outcome i = .ok v ∧ (exchanges s.log).head? = some i
  /-- The error is the last one written, when all lookups have written theirs. -/
  last : (∀ i, ∃ e, outcome i = .error e) → ∀ r, s.shared.promise = some r →
    (∀ i, i ∈ writes s.log) ∧ (writes s.log).Nodup ∧
      ∃ i e, r = .error (.lookup e) ∧ outcome i = .error e ∧ (writes s.log).getLast? = some i
  alive : ∀ i, s.pc i ≠ .terminated

/-- The promise is set by a recorded call. -/
theorem Counts.call (h : Counts outcome s) {r : Except (Exn E) V}
    (hr : s.shared.promise = some r) : ∃ i, (i, r) ∈ calls s.log := by
  rw [h.promise, Option.map_eq_some_iff] at hr
  obtain ⟨⟨i, r'⟩, hc, rfl⟩ := hr
  exact ⟨i, List.mem_of_head? hc⟩

/-- When all threads have finished, somebody has set `done`. -/
theorem Counts.finished_done (h : Counts outcome s)
    (hf : ∀ i, s.pc i = .finished) : s.shared.done = true := by
  by_cases hok : ∃ i v, outcome i = .ok v
  · obtain ⟨i, v, hv⟩ := hok
    exact h.won i v hv (hf i)
  · have hall : ∀ i, failed (outcome i) (s.pc i) = 1 := by
      intro i
      cases ho : outcome i with
      | ok v => exact absurd ⟨i, v, ho⟩ hok
      | error e => rw [hf i]; rfl
    have hr := h.remaining
    have hsum : ∑ _j : Fin n, 1 = n := by simp
    simp only [hall] at hr
    obtain hd | ⟨i, hi⟩ := h.settled (by omega)
    · exact hd
    · rw [hf i] at hi
      cases hi

/-- For any number of lookups, any outcomes and any interleaving of their atomic
steps, the promise is satisfied once, by the first success or by the last error. -/
theorem firstSuccess_one_outcome (hn : 0 < n)
    (h : Machine.Reachable (FirstSuccess.step outcome) (start n) s) : OneOutcome outcome s := by
  have hcounts := reachable_counts hn h
  have horder := reachable_order hn h
  have herrors := reachable_errors hn h
  have howner := hcounts.owner
  have hnoexc : (∃ i v, outcome i = .ok v) → ∀ i e, (i, .error e) ∉ calls s.log := by
    intro hok i e hc
    obtain ⟨j, v, hv⟩ := hok
    have hone := hcounts.all_failed (herrors.called i e hc).1 j
    rw [hv] at hone
    cases hone
  refine ⟨?_, ?_, hcounts.promise, hnoexc, ?_, ?_, ?_⟩
  · split at howner <;> omega
  · intro hf
    rw [if_pos (hcounts.finished_done hf)] at howner
    simpa [hf, owns] using howner
  · intro hok r hr
    obtain ⟨i, hc⟩ := hcounts.call hr
    cases r with
    | ok v =>
      obtain ⟨hhead, hv⟩ := horder.called i v hc
      exact ⟨i, v, rfl, hv, hhead⟩
    | error e => exact absurd hc (hnoexc hok i e)
  · intro hall r hr
    obtain ⟨i, hc⟩ := hcounts.call hr
    cases r with
    | ok v =>
      obtain ⟨e, he⟩ := hall i
      rw [(horder.called i v hc).2] at he
      cases he
    | error e =>
      obtain ⟨h0, hlast⟩ := herrors.called i e hc
      have hwrote : ∀ j, wrote (outcome j) (s.pc j) = true := fun j =>
        wrote_of_failed (hcounts.all_failed h0 j)
      obtain ⟨j, x, hj, hx, he⟩ := herrors.recorded (hwrote i)
      rw [hlast] at he
      cases he
      exact ⟨fun j => (herrors.written j).mpr (hwrote j), herrors.nodup, j, x, rfl, hx, hj⟩
  · intro i hi
    have hplace := hcounts.place i
    rw [hi] at hplace
    exact hplace

/-- A cache that misses and a database that answers. -/
def cacheMiss : Fin 2 → Except String String
  | 0 => .error "cache miss"
  | 1 => .ok "unknown (db)"

/-- The success slips in between the record of the error and its decrement. -/
def slip : List (Fin 2) := [0, 0, 1, 1, 0, 1]

theorem firstSuccess_one_outcome_slip :
    ∃ s, Machine.run (step cacheMiss) (start 2) slip = some s ∧
      s.shared.promise = some (.ok "unknown (db)") ∧ s.shared.remaining = 1 ∧
      OneOutcome cacheMiss s := by
  obtain ⟨s, hs, hpromise, hremaining⟩ : ∃ s, Machine.run (step cacheMiss) (start 2) slip = some s ∧
      s.shared.promise = some (.ok "unknown (db)") ∧ s.shared.remaining = 1 :=
    ⟨_, rfl, rfl, rfl⟩
  exact ⟨s, hs, hpromise, hremaining,
    firstSuccess_one_outcome (by decide) (Machine.reachable_of_run hs)⟩

end BackendPatterns.FirstSuccess
