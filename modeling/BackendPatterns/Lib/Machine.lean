import Mathlib.Tactic.TypeStar

/-! # Machines with partial steps

A machine is a step function `σ → α → Option σ`: the label `a` is enabled in
`s` when `step s a` is defined. Labels carry every choice a scheduler or an
environment makes, so a run is a list of labels and all nondeterminism is a
quantifier over that list. -/

namespace BackendPatterns.Lib.Machine

variable {σ τ α β : Type*}

/-- Take the labels in order; undefined as soon as one of them is not enabled. -/
def run (step : σ → α → Option σ) : σ → List α → Option σ
  | s, [] => some s
  | s, a :: as => (step s a).bind fun t => run step t as

/-- The states some run leads to. -/
inductive Reachable (step : σ → α → Option σ) (init : σ) : σ → Prop
  | start : Reachable step init init
  | next {s t : σ} {a : α} : Reachable step init s → step s a = some t → Reachable step init t

variable {step : σ → α → Option σ} {init : σ}

theorem run_append (s : σ) (as bs : List α) :
    run step s (as ++ bs) = (run step s as).bind fun t => run step t bs := by
  induction as generalizing s with
  | nil => rfl
  | cons a as ih =>
    simp only [List.cons_append, run]
    cases step s a with
    | none => rfl
    | some t => exact ih t

theorem run_snoc {s t u : σ} {as : List α} {a : α} (h : run step s as = some t)
    (ha : step t a = some u) : run step s (as ++ [a]) = some u := by
  simp [run_append, h, run, ha]

theorem Reachable.run {s t : σ} {as : List α} (h : Reachable step init s)
    (hr : run step s as = some t) : Reachable step init t := by
  induction as generalizing s with
  | nil => cases hr; exact h
  | cons a as ih =>
    obtain ⟨u, hu, hr⟩ := Option.bind_eq_some_iff.mp hr
    exact ih (h.next hu) hr

theorem reachable_of_run {t : σ} {as : List α} (h : Machine.run step init as = some t) :
    Reachable step init t := Reachable.start.run h

theorem Reachable.trans {s t : σ} (h : Reachable step init s) (h' : Reachable step s t) :
    Reachable step init t := by
  induction h' with
  | start => exact h
  | next _ hs ih => exact ih.next hs

/-- A reachable state ends some run. -/
theorem Reachable.exists_run {s : σ} (h : Reachable step init s) :
    ∃ as, Machine.run step init as = some s := by
  induction h with
  | start => exact ⟨[], rfl⟩
  | next _ ht ih =>
    obtain ⟨as, hr⟩ := ih
    exact ⟨_, run_snoc hr ht⟩

/-- The invariant rule: what holds at the start and is kept by every step from
a reachable state holds in every reachable state. -/
theorem Reachable.invariant {P : σ → Prop} (h0 : P init)
    (hs : ∀ {s a t}, Reachable step init s → P s → step s a = some t → P t)
    {s : σ} (h : Reachable step init s) : P s := by
  induction h with
  | start => exact h0
  | next hr ht ih => exact hs hr ih ht

/-- The simulation rule: when every step is one step or none of another machine
under `f`, reachable states are sent to reachable states. -/
theorem Reachable.simulate {step' : τ → β → Option τ} {f : σ → τ}
    (hs : ∀ {s a t}, Reachable step init s → step s a = some t →
      f t = f s ∨ ∃ b, step' (f s) b = some (f t))
    {s : σ} (h : Reachable step init s) : Reachable step' (f init) (f s) := by
  induction h with
  | start => exact .start
  | next hr ht ih =>
    rcases hs hr ht with he | ⟨b, hb⟩
    · rw [he]; exact ih
    · exact ih.next hb

/-- The forward rule: when another machine can follow every step under `R`, it can
follow every run. -/
theorem run_forward {step' : τ → α → Option τ} {R : σ → τ → Prop}
    (hs : ∀ {s u a t}, R s u → step s a = some t → ∃ v, step' u a = some v ∧ R t v)
    {s t : σ} {u : τ} {as : List α} (h : R s u) (hr : run step s as = some t) :
    ∃ v, run step' u as = some v ∧ R t v := by
  induction as generalizing s u with
  | nil =>
    cases hr
    exact ⟨u, rfl, h⟩
  | cons a as ih =>
    obtain ⟨s', hs', hr⟩ := Option.bind_eq_some_iff.mp hr
    obtain ⟨u', hu', hR⟩ := hs h hs'
    obtain ⟨v, hv, hRv⟩ := ih hR hr
    refine ⟨v, ?_, hRv⟩
    rw [run, hu']
    exact hv

/-- The states that some run of allowed steps leads to. -/
inductive ReachableBy (Allowed : σ → α → Prop) (step : σ → α → Option σ) (init : σ) : σ → Prop
  | start : ReachableBy Allowed step init init
  | next {s t : σ} {a : α} : ReachableBy Allowed step init s → Allowed s a → step s a = some t →
      ReachableBy Allowed step init t

theorem ReachableBy.invariant {Allowed : σ → α → Prop} {P : σ → Prop} (h0 : P init)
    (hs : ∀ {s a t}, P s → Allowed s a → step s a = some t → P t) {s : σ}
    (h : ReachableBy Allowed step init s) : P s := by
  induction h with
  | start => exact h0
  | next _ ha ht ih => exact hs ih ha ht

/-- The machine without the steps that are not allowed. -/
def guarded (Allowed : σ → α → Prop) [∀ s a, Decidable (Allowed s a)]
    (step : σ → α → Option σ) (s : σ) (a : α) : Option σ :=
  if Allowed s a then step s a else none

theorem guarded_eq_some {Allowed : σ → α → Prop} [∀ s a, Decidable (Allowed s a)] {s t : σ}
    {a : α} : guarded Allowed step s a = some t ↔ Allowed s a ∧ step s a = some t := by
  unfold guarded
  split
  · rename_i ha
    exact ⟨fun h => ⟨ha, h⟩, And.right⟩
  · rename_i ha
    exact ⟨nofun, fun h => absurd h.1 ha⟩

theorem reachableBy_of_run {Allowed : σ → α → Prop} [∀ s a, Decidable (Allowed s a)] {t : σ}
    {as : List α} (h : Machine.run (guarded Allowed step) init as = some t) :
    ReachableBy Allowed step init t := by
  refine (reachable_of_run h).invariant .start fun {s a u} _ ih hu => ?_
  unfold guarded at hu
  split at hu
  next ha => exact ih.next ha hu
  next => cases hu

/-- A machine that never gets stuck before `Final` and whose `Fair` steps lower
a measure reaches a final state from every reachable one. -/
theorem Reachable.exists_final {Final : σ → Prop} {Fair : α → Prop} (measure : σ → Nat)
    (live : ∀ {s}, Reachable step init s → ¬ Final s →
      ∃ a t, Fair a ∧ step s a = some t)
    (dec : ∀ {s a t}, Reachable step init s → Fair a → step s a = some t →
      measure t < measure s)
    {s : σ} (h : Reachable step init s) : ∃ t, Reachable step s t ∧ Final t := by
  by_cases hf : Final s
  · exact ⟨s, .start, hf⟩
  · obtain ⟨a, t, ha, ht⟩ := live h hf
    have hlt := dec h ha ht
    obtain ⟨u, hu, hfu⟩ := exists_final measure live dec (h.next ht)
    exact ⟨u, (Reachable.start.next ht).trans hu, hfu⟩
termination_by measure s

/-- The termination rule: when `Fair` steps lower a measure and every other step
raises it by at most `c`, a run takes few fair steps for the others it takes. -/
theorem Reachable.fair_le (Fair : α → Prop) [DecidablePred Fair] (measure : σ → Nat) (c : Nat)
    (dec : ∀ {s a t}, Reachable step init s → Fair a → step s a = some t →
      measure t < measure s)
    (raise : ∀ {s a t}, Reachable step init s → ¬ Fair a → step s a = some t →
      measure t ≤ measure s + c)
    {s t : σ} {as : List α} (h : Reachable step init s) (hr : Machine.run step s as = some t) :
    as.countP (fun a => Fair a) + measure t ≤
      measure s + c * as.countP (fun a => ¬ Fair a) := by
  induction as generalizing s with
  | nil => cases hr; simp
  | cons a as ih =>
    obtain ⟨u, hu, hr⟩ := Option.bind_eq_some_iff.mp hr
    have hle := ih (h.next hu) hr
    by_cases hf : Fair a
    · have hlt := dec h hf hu
      simp only [List.countP_cons, hf, decide_true, not_true_eq_false, decide_false, if_true,
        Bool.false_eq_true, if_false, Nat.add_zero]
      omega
    · have hup := raise h hf hu
      simp only [List.countP_cons, hf, decide_false, not_false_eq_true, decide_true, if_true,
        Bool.false_eq_true, if_false, Nat.add_zero, Nat.mul_add, Nat.mul_one]
      omega

end BackendPatterns.Lib.Machine
