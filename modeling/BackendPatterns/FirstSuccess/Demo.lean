import BackendPatterns.FirstSuccess.OneOutcome

/-! # Waiting for the race

`run_lookup_demo` starts the lookups, waits for the future with a deadline, logs
one line and joins the threads. The deadline may pass at any time as long as the
future is not ready, and waiting without one does not hang either: some lookup
always satisfies the promise. -/

namespace BackendPatterns.FirstSuccess
open BackendPatterns.Lib BackendPatterns.Lib.Threads

variable {n : Nat} {V E : Type}

/-! ## The caller -/

def cacheLookup (userId : Int) : Except String String :=
  if userId = 42 then .ok "Ada (cache)" else .error "cache miss"

def dbLookup (userId : Int) : Except String String :=
  .ok (if userId = 42 then "Ada (db)" else "unknown (db)")

/-- The threads `t1` and `t2`. -/
def lookups (userId : Int) : Fin 2 → Except String String
  | 0 => cacheLookup userId
  | 1 => dbLookup userId

/-- What the caller logs: no name in time, the name, or why the lookup failed. -/
inductive Line (V E : Type)
  | timedOut
  | name (v : V)
  | failed (e : Exn E)
  deriving DecidableEq, Repr

/-- In `wait_for`, joining thread `k`, returned. -/
inductive CallerPc
  | wait
  | join (k : Nat)
  | done
  deriving DecidableEq

structure Demo (n : Nat) (V E : Type) where
  race : Race n V E
  caller : CallerPc
  line : Option (Line V E)

def Demo.start (n : Nat) : Demo n V E := ⟨FirstSuccess.start n, .wait, none⟩

/-- A step of a lookup thread, the end of the 200 milliseconds, or the next
statement of the caller. -/
inductive Move (n : Nat)
  | lookup (i : Fin n)
  | timeout
  | caller
  deriving DecidableEq

/-- The line for a future that is ready. -/
def lineOf : Except (Exn E) V → Line V E
  | .ok v => .name v
  | .error e => .failed e

def next (outcome : Fin n → Except E V) (s : Demo n V E) : Move n → Option (Demo n V E)
  | .lookup i => (step outcome s.race i).map fun race => { s with race }
  | .timeout =>
    match s.caller, s.race.shared.promise with
    | .wait, none => some { s with caller := .join 0, line := some .timedOut }
    | _, _ => none
  | .caller =>
    match s.caller with
    | .wait => s.race.shared.promise.map fun r =>
        { s with caller := .join 0, line := some (lineOf r) }
    | .join k =>
      if h : k < n then
        match s.race.pc ⟨k, h⟩ with
        | .finished => some { s with caller := .join (k + 1) }
        | _ => none
      else some { s with caller := .done }
    | .done => none

/-- What each move does, guards included. -/
inductive Moves (outcome : Fin n → Except E V) (s : Demo n V E) : Move n → Demo n V E → Prop
  | lookup {i : Fin n} {race : Race n V E} (hs : step outcome s.race i = some race) :
      Moves outcome s (.lookup i) { s with race }
  | timeout (hc : s.caller = .wait) (hp : s.race.shared.promise = none) :
      Moves outcome s .timeout { s with caller := .join 0, line := some .timedOut }
  | ready {r : Except (Exn E) V} (hc : s.caller = .wait) (hp : s.race.shared.promise = some r) :
      Moves outcome s .caller { s with caller := .join 0, line := some (lineOf r) }
  | join {k : Nat} (hc : s.caller = .join k) (hk : k < n) (hf : s.race.pc ⟨k, hk⟩ = .finished) :
      Moves outcome s .caller { s with caller := .join (k + 1) }
  | joined {k : Nat} (hc : s.caller = .join k) (hk : n ≤ k) :
      Moves outcome s .caller { s with caller := .done }

variable {outcome : Fin n → Except E V} {s t : Demo n V E}

theorem next_cases {a : Move n} (h : next outcome s a = some t) : Moves outcome s a t := by
  cases a with
  | lookup i =>
    obtain ⟨race, hs, rfl⟩ := Option.map_eq_some_iff.mp h
    exact .lookup hs
  | timeout =>
    simp only [next] at h
    split at h
    · rename_i hc hp
      cases h
      exact .timeout hc hp
    · cases h
  | caller =>
    simp only [next] at h
    split at h
    · rename_i hc
      obtain ⟨r, hp, rfl⟩ := Option.map_eq_some_iff.mp h
      exact .ready hc hp
    · rename_i k hc
      split at h
      · rename_i hk
        split at h
        · rename_i hf
          cases h
          exact .join hc hk hf
        · cases h
      · rename_i hk
        cases h
        exact .joined hc (Nat.le_of_not_lt hk)
    · cases h

/-- A shared state that is satisfied stays as it is. -/
theorem Acts.satisfied {o : Except E V} {sh sh' : Shared V E} {p p' : Pc V E}
    {l : List (Event V E)} (ha : Acts o sh p sh' p' l) {r : Except (Exn E) V}
    (hr : sh.promise = some r) : sh'.promise = some r := by
  cases ha with
  | setValue hp => rw [hr] at hp; cases hp
  | setException hp => rw [hr] at hp; cases hp
  | _ => exact hr

/-- The line stands for the promise, unless the deadline had passed; the threads
before the one that is being joined have finished. -/
structure Seen (s : Demo n V E) : Prop where
  waiting : s.caller = .wait ↔ s.line = none
  line : ∀ r, s.line = some r → r = .timedOut ∨
    ∃ x, r = lineOf x ∧ s.race.shared.promise = some x
  joined : ∀ k, s.caller = .join k → ∀ i : Fin n, i.val < k → s.race.pc i = .finished
  done : s.caller = .done → ∀ i : Fin n, s.race.pc i = .finished

theorem finished_stays {s t : Race n V E} {i j : Fin n} (hs : step outcome s i = some t)
    (hj : s.pc j = .finished) : t.pc j = .finished := by
  obtain ⟨sh, p, l, ha, rfl⟩ := step_cases hs
  have hji : j ≠ i := by
    rintro rfl
    rw [hj] at ha
    cases ha
  exact (Function.update_of_ne hji ..).trans hj

theorem Seen.next {a : Move n} (h : Seen s) (hn : next outcome s a = some t) : Seen t := by
  cases next_cases hn with
  | lookup hs =>
    refine ⟨h.waiting, ?_, ?_, ?_⟩
    · intro r hr
      obtain htimed | ⟨x, hx, hp⟩ := h.line r hr
      · exact .inl htimed
      · obtain ⟨sh, p, l, ha, rfl⟩ := step_cases hs
        exact .inr ⟨x, hx, ha.satisfied hp⟩
    · intro k hk i hi
      exact finished_stays hs (h.joined k hk i hi)
    · intro hd i
      exact finished_stays hs (h.done hd i)
  | timeout =>
    refine ⟨by simp, ?_, by simp, nofun⟩
    intro r hr
    cases hr
    exact .inl rfl
  | ready hc hp =>
    refine ⟨by simp, ?_, by simp, nofun⟩
    intro r hr
    cases hr
    exact .inr ⟨_, rfl, hp⟩
  | @join k hc hk hf =>
    have hline : s.line ≠ none := fun hl => by rw [h.waiting.mpr hl] at hc; cases hc
    refine ⟨by simpa using hline, h.line, ?_, nofun⟩
    intro k' hk' i hi
    cases hk'
    by_cases hik : i.val = k
    · subst hik
      exact hf
    · exact h.joined k hc i (by omega)
  | @joined k hc hk =>
    have hline : s.line ≠ none := fun hl => by rw [h.waiting.mpr hl] at hc; cases hc
    exact ⟨by simpa using hline, h.line, nofun, fun _ i => h.joined k hc i (i.isLt.trans_le hk)⟩

/-- The operations that a lookup thread still has to do, at most. -/
def pcRank : Pc V E → Nat
  | .call => 6
  | .record _ => 5
  | .fetchSub => 4
  | .claim => 3
  | .readError | .exchange _ => 2
  | .setException _ | .setValue _ => 1
  | .finished | .terminated => 0

def callerRank (n : Nat) : CallerPc → Nat
  | .wait => n + 2
  | .join k => n - k + 1
  | .done => 0

def Demo.rank (s : Demo n V E) : Nat := ∑ i, pcRank (s.race.pc i) + callerRank n s.caller

theorem Acts.rank {o : Except E V} {sh sh' : Shared V E} {p p' : Pc V E} {l : List (Event V E)}
    (ha : Acts o sh p sh' p' l) (hempty : owns p = 1 → sh.promise = none) :
    pcRank p' < pcRank p := by
  cases ha with
  | valueTwice hp => rw [hempty rfl] at hp; cases hp
  | _ => simp [pcRank]

end BackendPatterns.FirstSuccess
