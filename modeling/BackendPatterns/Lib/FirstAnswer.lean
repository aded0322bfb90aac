import Mathlib.Data.List.Basic
import Mathlib.Logic.Function.Basic

/-! # The first answer counts

A source may answer differently every time, with a value, with none or with an
error. Its values are remembered, and a key with a value is not asked again. -/

namespace BackendPatterns.Lib.FirstAnswer

variable {κ ν σ ε α : Type*}

/-- What the source answers, and the source afterwards. -/
abbrev Source (κ ν σ ε : Type*) := σ → κ → Except ε (Option ν) × σ

/-- The values that are remembered, the source, all that it was asked and has answered,
and all answers to lookups. -/
structure State (κ ν σ ε : Type*) where
  known : κ → Option ν
  source : σ
  asked : List (κ × Except ε (Option ν))
  answers : List (κ × Except ε (Option ν))

/-- The entries of a key. -/
def entries [DecidableEq κ] (l : List (κ × α)) (k : κ) : List α :=
  (l.filter fun p => p.1 = k).map Prod.snd

/-- The source is asked for all the keys. -/
def consult (ask : Source κ ν σ ε) : σ → List κ → List (κ × Except ε (Option ν)) × σ
  | s, [] => ([], s)
  | s, k :: ks =>
    let (answer, s) := ask s k
    let (rest, s) := consult ask s ks
    ((k, answer) :: rest, s)

/-- What is known of a key once the source has answered. -/
def learn : Except ε (Option ν) → Option ν
  | .ok answer => answer
  | .error _ => none

def lookup [DecidableEq κ] (ask : Source κ ν σ ε) (s : State κ ν σ ε) (k : κ) : State κ ν σ ε :=
  match s.known k with
  | some v => { s with answers := s.answers ++ [(k, .ok (some v))] }
  | none =>
    let (answer, source) := ask s.source k
    ⟨Function.update s.known k (learn answer), source, s.asked ++ [(k, answer)],
      s.answers ++ [(k, answer)]⟩

/-- What lookups of one key see: from what is known at first to what is known in the
end, with what the source was asked and what was answered. -/
inductive History : Option ν → Option ν → List (Except ε (Option ν)) →
    List (Except ε (Option ν)) → Prop
  | asking {failures : List (Except ε (Option ν))} (h : ∀ a ∈ failures, learn a = none) :
      History none none failures failures
  | found {failures : List (Except ε (Option ν))} (h : ∀ a ∈ failures, learn a = none) (v : ν)
      (m : Nat) : History none (some v) (failures ++ [.ok (some v)])
        (failures ++ List.replicate (m + 1) (.ok (some v)))
  | known (v : ν) (m : Nat) : History (some v) (some v) [] (List.replicate m (.ok (some v)))

section
variable {first now : Option ν} {asked answers : List (Except ε (Option ν))}

theorem History.hit {v : ν} (h : History first (some v) asked answers) :
    History first (some v) asked (answers ++ [.ok (some v)]) := by
  cases h with
  | found hf _ m =>
    rw [List.append_assoc, ← List.replicate_succ']
    exact .found hf v (m + 1)
  | known _ m =>
    rw [← List.replicate_succ']
    exact .known v (m + 1)

theorem History.ask (h : History first none asked answers) (a : Except ε (Option ν)) :
    History first (learn a) (asked ++ [a]) (answers ++ [a]) := by
  cases h with
  | asking hf =>
    match a with
    | .ok (some v) => exact .found hf v 0
    | .ok none | .error _ =>
      refine .asking fun b hb => ?_
      rcases List.mem_append.mp hb with hb | hb
      · exact hf b hb
      · rw [List.mem_singleton.mp hb]
        rfl

end

theorem consult_snoc (ask : Source κ ν σ ε) (s : σ) (ks : List κ) (k : κ) :
    consult ask s (ks ++ [k]) =
      let (answers, s) := consult ask s ks
      let (answer, s) := ask s k
      (answers ++ [(k, answer)], s) := by
  induction ks generalizing s with
  | nil => rfl
  | cons k' ks ih =>
    simp only [List.cons_append, consult, ih]

variable [DecidableEq κ]

theorem entries_snoc_self (l : List (κ × α)) (k : κ) (a : α) :
    entries (l ++ [(k, a)]) k = entries l k ++ [a] := by
  simp [entries]

theorem entries_snoc_ne {k k' : κ} (hk : k' ≠ k) (l : List (κ × α)) (a : α) :
    entries (l ++ [(k, a)]) k' = entries l k' := by
  simp [entries, hk.symm]

/-- The state after lookups that began with `initial` and the source `s₀`. -/
structure Good (ask : Source κ ν σ ε) (initial : κ → Option ν) (s₀ : σ) (s : State κ ν σ ε) :
    Prop where
  history : ∀ k, History (initial k) (s.known k) (entries s.asked k) (entries s.answers k)
  consulted : consult ask s₀ (s.asked.map Prod.fst) = (s.asked, s.source)

variable {ask : Source κ ν σ ε} {initial : κ → Option ν} {s₀ : σ} {s : State κ ν σ ε}

theorem good_start : Good ask initial s₀ ⟨initial, s₀, [], []⟩ := by
  refine ⟨fun k => ?_, rfl⟩
  show History (initial k) (initial k) [] []
  cases initial k with
  | none => exact .asking nofun
  | some v => exact .known v 0

theorem Good.lookup (h : Good ask initial s₀ s) (k : κ) :
    Good ask initial s₀ (lookup ask s k) := by
  unfold FirstAnswer.lookup
  cases hk : s.known k with
  | some v =>
    refine ⟨fun k' => ?_, h.consulted⟩
    have hhist := h.history k'
    by_cases heq : k' = k
    · subst heq
      rw [hk] at hhist
      show History _ (s.known k') _ (entries (s.answers ++ _) k')
      rw [hk, entries_snoc_self]
      exact hhist.hit
    · show History _ _ _ (entries (s.answers ++ _) k')
      rw [entries_snoc_ne heq]
      exact hhist
  | none =>
    rcases ha : ask s.source k with ⟨answer, source⟩
    refine ⟨fun k' => ?_, ?_⟩
    · have hhist := h.history k'
      by_cases heq : k' = k
      · subst heq
        rw [hk] at hhist
        show History _ (Function.update s.known k' _ k') (entries (s.asked ++ _) k')
          (entries (s.answers ++ _) k')
        rw [Function.update_self, entries_snoc_self, entries_snoc_self]
        exact hhist.ask answer
      · show History _ (Function.update s.known k _ k') (entries (s.asked ++ _) k')
          (entries (s.answers ++ _) k')
        rw [Function.update_of_ne heq, entries_snoc_ne heq, entries_snoc_ne heq]
        exact hhist
    · show consult ask s₀ ((s.asked ++ [(k, answer)]).map Prod.fst) = _
      rw [List.map_append]
      show consult ask s₀ (s.asked.map Prod.fst ++ [k]) = _
      rw [consult_snoc, h.consulted]
      show (let (answer, s) := ask s.source k; (_, s)) = _
      rw [ha]

variable (ask initial s₀) in
theorem good_lookups (ks : List κ) :
    Good ask initial s₀ (ks.foldl (FirstAnswer.lookup ask) ⟨initial, s₀, [], []⟩) := by
  suffices hrun : ∀ s, Good ask initial s₀ s →
      Good ask initial s₀ (ks.foldl (FirstAnswer.lookup ask) s) from hrun _ good_start
  intro s h
  induction ks generalizing s with
  | nil => exact h
  | cons k ks ih => exact ih _ (h.lookup k)

end BackendPatterns.Lib.FirstAnswer
