import Mathlib.Algebra.Order.BigOperators.Group.Finset
import BackendPatterns.FirstSuccess.Race

/-! # Counting the threads of the race

The thread that finds `done` false owns the promise and satisfies it once.
`remaining` counts the lookups that have not failed yet, so a failure claims
`done` only when there is none left. -/

namespace BackendPatterns.FirstSuccess
open BackendPatterns.Lib BackendPatterns.Lib.Threads

variable {n : Nat} {V E : Type}

/-- The calls of `set_value` and `set_exception`, in order. -/
def calls (l : List (Fin n × Event V E)) : List (Fin n × Except (Exn E) V) :=
  l.filterMap fun e => match e with
    | (i, .set r) => some (i, r)
    | _ => none

/-- The lookups that succeeded, in the order of their `done.exchange`. -/
def exchanges (l : List (Fin n × Event V E)) : List (Fin n) := l.filterMap fun e => match e with
  | (i, .exchange) => some i
  | _ => none

/-- The lookups that failed, in the order of their writes to `last_error`. -/
def writes (l : List (Fin n × Event V E)) : List (Fin n) := l.filterMap fun e => match e with
  | (i, .write) => some i
  | _ => none

@[simp] theorem calls_append (l l' : List (Fin n × Event V E)) :
    calls (l ++ l') = calls l ++ calls l' := List.filterMap_append

@[simp] theorem exchanges_append (l l' : List (Fin n × Event V E)) :
    exchanges (l ++ l') = exchanges l ++ exchanges l' := List.filterMap_append

@[simp] theorem writes_append (l l' : List (Fin n × Event V E)) :
    writes (l ++ l') = writes l ++ writes l' := List.filterMap_append

/-! ## Who owns the promise, and who has failed -/

/-- A thread is where its lookup's outcome takes it. -/
def Place (o : Except E V) : Pc V E → Prop
  | .exchange v | .setValue v => o = .ok v
  | .record e => ∃ x, o = .error x ∧ e = .lookup x
  | .fetchSub | .claim | .readError | .setException _ => ∃ x, o = .error x
  | .call | .finished => True
  | .terminated => False

/-- Found `done` false and has not satisfied the promise yet. -/
def owns : Pc V E → Nat
  | .setValue _ | .readError | .setException _ => 1
  | _ => 0

/-- Has decremented `remaining`. -/
def failed : Except E V → Pc V E → Nat
  | .error _, .claim | .error _, .readError | .error _, .setException _ => 1
  | .error _, .finished | .error _, .terminated => 1
  | _, _ => 0

/-- Only after the last failure. -/
def isLast : Pc V E → Bool
  | .claim | .readError | .setException _ => true
  | _ => false

structure Counts (outcome : Fin n → Except E V) (s : Race n V E) : Prop where
  place : ∀ i, Place (outcome i) (s.pc i)
  owner : ∑ i, owns (s.pc i) + (calls s.log).length = if s.shared.done then 1 else 0
  promise : s.shared.promise = (calls s.log).head?.map Prod.snd
  remaining : s.shared.remaining + ∑ i, failed (outcome i) (s.pc i) = n
  settled : s.shared.remaining = 0 → s.shared.done = true ∨ ∃ i, s.pc i = .claim
  isLast : ∀ i, isLast (s.pc i) = true → s.shared.remaining = 0
  won : ∀ i v, outcome i = .ok v → s.pc i = .finished → s.shared.done = true

variable {outcome : Fin n → Except E V} {s : Race n V E}

theorem failed_le (o : Except E V) (p : Pc V E) : failed o p ≤ 1 := by
  unfold failed
  split <;> omega

theorem sum_failed (outcome : Fin n → Except E V) (f : Fin n → Pc V E) (i : Fin n)
    (p : Pc V E) :
    ∑ j, failed (outcome j) (Function.update f i p j) + failed (outcome i) (f i) =
      ∑ j, failed (outcome j) (f j) + failed (outcome i) p := by
  have h := sum_of_ne (i := i) (f := fun j => failed (outcome j) (f j))
    (g := fun j => failed (outcome j) (Function.update f i p j)) fun j hj => by
      rw [Function.update_of_ne hj]
  rwa [Function.update_self] at h

/-- With no failure outstanding, every lookup has failed and decremented. -/
theorem Counts.all_failed (h : Counts outcome s) (h0 : s.shared.remaining = 0) (i : Fin n) :
    failed (outcome i) (s.pc i) = 1 := by
  have hsum : ∑ j, failed (outcome j) (s.pc j) = ∑ _j : Fin n, 1 := by
    have hr := h.remaining
    have hn : ∑ _j : Fin n, 1 = n := by simp
    rw [h0] at hr
    omega
  exact (Finset.sum_eq_sum_iff_of_le fun j _ => failed_le _ _).mp hsum i (Finset.mem_univ i)

/-- The owner of the promise finds it empty. -/
theorem Counts.promise_empty (h : Counts outcome s) {i : Fin n} (hi : owns (s.pc i) = 1) :
    s.shared.promise = none ∧ calls s.log = [] ∧ s.shared.done = true := by
  have hle : owns (s.pc i) ≤ ∑ j, owns (s.pc j) :=
    Finset.single_le_sum (fun j _ => Nat.zero_le (owns (s.pc j))) (Finset.mem_univ i)
  have howner := h.owner
  have hdone : s.shared.done = true := by
    by_contra hd
    rw [if_neg hd] at howner
    omega
  rw [if_pos hdone] at howner
  have hcalls : calls s.log = [] := List.length_eq_zero_iff.mp (by omega)
  exact ⟨by rw [h.promise, hcalls]; rfl, hcalls, hdone⟩

section Thread

variable {o : Except E V} {sh sh' : Shared V E} {p p' : Pc V E} {l : List (Event V E)}

theorem Acts.place (ha : Acts o sh p sh' p' l) (h : Place o p)
    (hempty : owns p = 1 → sh.promise = none) : Place o p' := by
  cases ha with
  | value ho => exact ho
  | error ho => exact ⟨_, ho, rfl⟩
  | won => exact h
  | valueTwice hp => rw [hempty rfl] at hp; cases hp
  | record =>
    obtain ⟨x, ho, -⟩ := h
    exact ⟨x, ho⟩
  | lastFailure => exact h
  | claimed => exact h
  | readError => exact h
  | exceptionTwice hp => rw [hempty rfl] at hp; cases hp
  | _ => trivial

theorem Acts.owner (ha : Acts o sh p sh' p' l) (hempty : owns p = 1 → sh.promise = none)
    (i : Fin n) :
    owns p' + (calls (l.map (i, ·))).length + (if sh.done then 1 else 0) =
      owns p + if sh'.done then 1 else 0 := by
  cases ha with
  | won hd => simp [owns, calls, hd]
  | claimed hd => simp [owns, calls, hd]
  | valueTwice hp => rw [hempty rfl] at hp; cases hp
  | exceptionTwice hp => rw [hempty rfl] at hp; cases hp
  | _ => simp [owns, calls]

theorem Acts.remaining (ha : Acts o sh p sh' p' l) (h : Place o p) :
    sh'.remaining + failed o p' = sh.remaining + failed o p := by
  cases ha with
  | value ho => subst ho; rfl
  | error ho => subst ho; rfl
  | won => obtain rfl : o = _ := h; rfl
  | lost => obtain rfl : o = _ := h; rfl
  | setValue => obtain rfl : o = _ := h; rfl
  | valueTwice => obtain rfl : o = _ := h; rfl
  | record => obtain ⟨x, rfl, -⟩ := h; rfl
  | lastFailure => obtain ⟨x, rfl⟩ := h; simp [failed]
  | failure => obtain ⟨x, rfl⟩ := h; simp [failed]
  | claimed => obtain ⟨x, rfl⟩ := h; rfl
  | late => obtain ⟨x, rfl⟩ := h; rfl
  | readError => obtain ⟨x, rfl⟩ := h; rfl
  | setException => obtain ⟨x, rfl⟩ := h; rfl
  | exceptionTwice => obtain ⟨x, rfl⟩ := h; rfl

/-- Only a decrement changes `remaining`, and it is not made after the last one. -/
theorem Acts.remaining_eq (ha : Acts o sh p sh' p' l) :
    sh'.remaining = sh.remaining ∨ p = .fetchSub := by
  cases ha with
  | lastFailure => exact .inr rfl
  | failure => exact .inr rfl
  | _ => exact .inl rfl

theorem Acts.done_mono (ha : Acts o sh p sh' p' l) (hd : sh.done = true) : sh'.done = true := by
  cases ha with
  | won => rfl
  | claimed => rfl
  | _ => exact hd

theorem Acts.claim_done (ha : Acts o sh p sh' p' l) (hp : p = .claim) : sh'.done = true := by
  subst hp
  cases ha with
  | claimed => rfl
  | late hd => exact hd

theorem Acts.last_claims (ha : Acts o sh p sh' p' l) (hp : p = .fetchSub)
    (h0 : sh'.remaining = 0) : p' = .claim := by
  subst hp
  cases ha with
  | lastFailure => rfl
  | failure hr =>
    dsimp only at h0
    omega

theorem Acts.isLast (ha : Acts o sh p sh' p' l) (hp : isLast p' = true) :
    sh'.remaining = 0 ∨ FirstSuccess.isLast p = true ∧ sh'.remaining = sh.remaining := by
  cases ha with
  | lastFailure hr =>
    dsimp only
    exact .inl (by omega)
  | claimed => exact .inr ⟨rfl, rfl⟩
  | readError => exact .inr ⟨rfl, rfl⟩
  | _ => cases hp

/-- A lookup that succeeded is over only after somebody's exchange. -/
theorem Acts.over (ha : Acts o sh p sh' p' l) (h : Place o p) {v : V} (ho : o = .ok v)
    (hp : p' = .finished) : sh'.done = true ∨ owns p = 1 := by
  subst ho
  cases ha with
  | lost hd => exact .inl hd
  | setValue => exact .inr rfl
  | failure => obtain ⟨x, hx⟩ := h; cases hx
  | late hd => exact .inl hd
  | setException => exact .inr rfl
  | _ => cases hp

theorem Acts.calls (ha : Acts o sh p sh' p' l) (i : Fin n)
    (hempty : owns p = 1 → sh.promise = none) :
    (sh'.promise = sh.promise ∧ calls (l.map (i, ·)) = []) ∨
      ∃ r, owns p = 1 ∧ sh'.promise = some r ∧ calls (l.map (i, ·)) = [(i, r)] := by
  cases ha with
  | setValue => exact .inr ⟨_, rfl, rfl, rfl⟩
  | setException => exact .inr ⟨_, rfl, rfl, rfl⟩
  | valueTwice hp => rw [hempty rfl] at hp; cases hp
  | exceptionTwice hp => rw [hempty rfl] at hp; cases hp
  | _ => exact .inl ⟨rfl, rfl⟩

end Thread

theorem failed_fetchSub (o : Except E V) : failed o .fetchSub = 0 := by
  cases o <;> rfl

theorem Counts.step {t : Race n V E} {i : Fin n} (h : Counts outcome s)
    (hs : step outcome s i = some t) : Counts outcome t := by
  obtain ⟨sh, p, l, ha, rfl⟩ := step_cases hs
  have hempty : owns (s.pc i) = 1 → s.shared.promise = none := fun hi => (h.promise_empty hi).1
  have howner := sum_update owns s.pc i p
  have hfailed := sum_failed outcome s.pc i p
  refine ⟨?_, ?_, ?_, ?_, ?_, ?_, ?_⟩
  · intro j
    by_cases hji : j = i
    · subst hji
      simpa only [Function.update_self] using ha.place (h.place j) hempty
    · simpa only [Function.update_of_ne hji] using h.place j
  · have hacts := ha.owner hempty i
    have hold := h.owner
    simp only [calls_append, List.length_append]
    omega
  · obtain ⟨hp, hc⟩ | ⟨r, hown, hp, hc⟩ := ha.calls i hempty
    · rw [calls_append, hc, List.append_nil, hp]
      exact h.promise
    · rw [calls_append, hc, (h.promise_empty hown).2.1, hp]
      rfl
  · have hacts := ha.remaining (h.place i)
    have hold := h.remaining
    simp only
    omega
  · intro h0
    obtain heq | hp := ha.remaining_eq
    · obtain hd | ⟨j, hj⟩ := h.settled (heq.symm.trans h0)
      · exact .inl (ha.done_mono hd)
      · by_cases hji : j = i
        · subst hji
          exact .inl (ha.claim_done hj)
        · exact .inr ⟨j, (Function.update_of_ne hji _ _).trans hj⟩
    · exact .inr ⟨i, (Function.update_self ..).trans (ha.last_claims hp h0)⟩
  · intro j hj
    dsimp only at hj ⊢
    by_cases hji : j = i
    · subst hji
      rw [Function.update_self] at hj
      obtain h0 | ⟨hl, heq⟩ := ha.isLast hj
      · exact h0
      · exact heq.trans (h.isLast j hl)
    · rw [Function.update_of_ne hji] at hj
      have h0 := h.isLast j hj
      obtain heq | hp := ha.remaining_eq
      · exact heq.trans h0
      · have hone := h.all_failed h0 i
        rw [hp, failed_fetchSub] at hone
        cases hone
  · intro j v hj hf
    dsimp only at hf ⊢
    by_cases hji : j = i
    · subst hji
      rw [Function.update_self] at hf
      obtain hd | hown := ha.over (h.place j) hj hf
      · exact hd
      · exact ha.done_mono (h.promise_empty hown).2.2
    · rw [Function.update_of_ne hji] at hf
      exact ha.done_mono (h.won j v hj hf)

theorem counts_start (hn : 0 < n) (outcome : Fin n → Except E V) : Counts outcome (start n) := by
  refine ⟨fun _ => trivial, ?_, rfl, ?_, ?_, nofun, nofun⟩
  · simp [start, owns, calls, make]
  · simp [start, make, failed]
  · intro h0
    simp only [start, make] at h0
    omega

theorem reachable_counts (hn : 0 < n) (h : Machine.Reachable (step outcome) (start n) s) :
    Counts outcome s :=
  h.invariant (counts_start hn outcome) fun _ ih hs => ih.step hs

end BackendPatterns.FirstSuccess
