import BackendPatterns.ThreadPool.Rank

/-! # Pools whose jobs never submit

When no job submits, the steps a pool takes by itself do nothing for its callers but
carry their calls to their answers. -/

namespace BackendPatterns.ThreadPool
open BackendPatterns.Lib BackendPatterns.Lib.CondVar BackendPatterns.Lib.Threads

variable {n : Nat} {S : Type} {J : Jobs} [DecidableEq S]

/-- The steps that the pool takes by itself. -/
def Action.inner : Action n S J → Bool
  | .spurious _ => true
  | a => a.own

/-- What the pool does by itself then: it makes no task and leaves the destructor
alone, and a call of `submit` goes on. -/
structure Inner (s t : Pool n S J) : Prop where
  tasks : t.tasks = s.tasks
  dtor : t.dtor = s.dtor
  accepted : ∀ id ∈ accepted s.log, id ∈ accepted t.log
  submits : ∀ c, t.submits c = s.submits c ∨ ∃ id,
    (s.submits c = .entry id ∧ (t.submits c = .notify id ∨ s.stopping = true)) ∨
      (s.submits c = .notify id ∧ t.submits c = .done (.ok id))

theorem inner_cases (hflat : J.Flat) {s t : Pool n S J} {a : Action n S J}
    (hw : ∀ w id resume, s.workers w ≠ .submitting id resume) (ha : a.inner = true)
    (hs : step s a = some t) :
    Inner s t ∧ ∀ w id resume, t.workers w ≠ .submitting id resume := by
  have hmove : ∀ {w : Fin n} {p : WorkerPc J}, (∀ id resume, p ≠ .submitting id resume) →
      ∀ v id resume, Function.update s.workers w p v ≠ .submitting id resume :=
    fun hp v id resume hv => hw v id resume (of_update hv (hp id resume))
  have hcall : ∀ {c : Caller n S} {p : SubmitPc} {id : Nat},
      (s.submits c = .entry id ∧ (p = .notify id ∨ s.stopping = true)) ∨
        (s.submits c = .notify id ∧ p = .done (.ok id)) →
      ∀ c', Function.update s.submits c p c' = s.submits c' ∨ ∃ id,
        (s.submits c' = .entry id ∧
          (Function.update s.submits c p c' = .notify id ∨ s.stopping = true)) ∨
        (s.submits c' = .notify id ∧ Function.update s.submits c p c' = .done (.ok id)) := by
    intro c p id hp c'
    by_cases hc : c' = c
    · subst hc
      rw [Function.update_self]
      exact .inr ⟨id, hp⟩
    · exact .inl (Function.update_of_ne hc ..)
  cases step_cases hs with
  | call => cases ha
  | ret => cases ha
  | stop => cases ha
  | notifyAll => cases ha
  | join => cases ha
  | joined => cases ha
  | refused hc hstop => exact ⟨⟨rfl, rfl, mem_accepted_append _, hcall (.inl ⟨hc, .inr hstop⟩)⟩, hw⟩
  | accepted hc => exact ⟨⟨rfl, rfl, mem_accepted_append _, hcall (.inl ⟨hc, .inl rfl⟩)⟩, hw⟩
  | notify hc hn =>
    refine ⟨⟨rfl, rfl, fun _ => id, hcall (.inr ⟨hc, rfl⟩)⟩, ?_⟩
    intro w id resume hg
    exact hw w id resume (submitting_notifyOne hn hg)
  | park => exact ⟨⟨rfl, rfl, fun _ => id, fun _ => .inl rfl⟩, hmove (by simp)⟩
  | exit => exact ⟨⟨rfl, rfl, fun _ => id, fun _ => .inl rfl⟩, hmove (by simp)⟩
  | dequeue => exact ⟨⟨rfl, rfl, mem_accepted_append _, fun _ => .inl rfl⟩, hmove (by simp)⟩
  | spurious => exact ⟨⟨rfl, rfl, fun _ => id, fun _ => .inl rfl⟩, hmove (by simp)⟩
  | invoke => exact ⟨⟨rfl, rfl, mem_accepted_append _, fun _ => .inl rfl⟩, hmove (by simp)⟩
  | finish => exact ⟨⟨rfl, rfl, mem_accepted_append _, fun _ => .inl rfl⟩, hmove (by simp)⟩
  | work => exact ⟨⟨rfl, rfl, fun _ => id, fun _ => .inl rfl⟩, hmove (by simp)⟩
  | submit _ hact => exact absurd hact (hflat _ _ _ _ _)
  | resume hv => exact absurd hv (hw _ _ _)

end BackendPatterns.ThreadPool
