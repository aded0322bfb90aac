import Mathlib.Algebra.BigOperators.Ring.Finset
import BackendPatterns.BoundedQueue.Completion

/-! # The producer/consumer program terminates

Spurious wake-ups apart, a run of the program is no longer than its work: the
threads cannot go on for ever by waking and parking each other. A run that no
thread can extend has come to the end of `main`. -/

namespace BackendPatterns.BoundedQueue
open BackendPatterns.Lib BackendPatterns.Lib.CondVar BackendPatterns.Lib.Threads

variable {P C : Nat} {cfg : Config P} {m : Program P C}

instance : DecidablePred (fair : Move P C → Prop)
  | .queue (.spurious _) => inferInstanceAs (Decidable False)
  | .queue (.call _ _) | .queue (.lock _ _) | .queue (.notifyAll _) | .queue (.ret _) =>
    inferInstanceAs (Decidable True)
  | .producer _ | .consumer _ | .main => inferInstanceAs (Decidable True)

/-- Every thread but `main` is a producer or a consumer. -/
def Tid.equiv (P C : Nat) : Tid P C ≃ Option (Fin P ⊕ Fin C) where
  toFun
    | .main => none
    | .producer p => some (.inl p)
    | .consumer c => some (.inr c)
  invFun
    | none => .main
    | some (.inl p) => .producer p
    | some (.inr c) => .consumer c
  left_inv i := by cases i <;> rfl
  right_inv i := by rcases i with _ | _ | _ <;> rfl

theorem card_tid (P C : Nat) : Fintype.card (Tid P C) = P + C + 1 := by
  rw [Fintype.card_congr (Tid.equiv P C), Fintype.card_option, Fintype.card_sum, Fintype.card_fin,
    Fintype.card_fin]

/-- A spurious wake-up costs one more look at the predicate. -/
theorem rank_spurious {m' : Program P C} {a : Move P C} (hf : ¬ fair a)
    (hn : next cfg m a = some m') : m'.rank cfg ≤ m.rank cfg + 1 := by
  cases next_cases hn with
  | @queue a s _ hs =>
    cases step_cases hs with
    | @spurious i op hpc =>
      have hsum := sum_update (pcRank (Fintype.card (Tid P C))) m.sys.pc i (.calling op .woken)
      have hwake := pcRank_wake (Fintype.card (Tid P C)) (m.sys.pc i)
      rw [hpc] at hsum hwake
      change pcRank _ (.calling op .woken) ≤ _ at hwake
      simp only [Program.rank, sysRank]
      omega
    | _ => exact absurd trivial hf
  | _ => exact absurd trivial hf

theorem rank_start (cfg : Config P) (C : Nat) :
    (cfg.start C).rank cfg = 16 * cfg.total + 4 * P + 8 * C + 13 := by
  have hprod : ∑ p, prodRank cfg p (.loop 0) = 6 * cfg.total + P := by
    simp [Config.total, Finset.sum_add_distrib, Finset.mul_sum]
  simp only [Program.rank, Config.start, sysRank, start, pcRank, hprod, mainRank, card_tid,
    History.effects, Fifo.taken, consRank_loop, List.filterMap_nil, List.length_nil,
    Finset.sum_const, Finset.card_univ, Fintype.card_fin, nsmul_eq_mul, Nat.cast_id]
  omega

/-- For any capacity, any producers whose request ids fit an `int` and at least one
consumer, a run with `k` spurious wake-ups has at most `k` moves more than the
work the program was started with, and one that no thread can extend has handled
everything. -/
theorem program_terminates (hC : 0 < C) {as : List (Move P C)}
    (hr : Machine.run (next cfg) (cfg.start C) as = some m) :
    as.countP (fun a => fair a) ≤
        16 * cfg.total + 4 * P + 8 * C + 13 + as.countP (fun a => ¬ fair a) ∧
      ((∀ a, fair a → next cfg m a = none) → m.finished ∧ AllHandled cfg m) := by
  have h := Machine.reachable_of_run hr
  constructor
  · have hle := Machine.Reachable.start.fair_le fair (Program.rank cfg) 1
      rank_lt (fun _ hf hn => rank_spurious hf hn) hr
    rw [rank_start, Nat.one_mul] at hle
    exact Nat.le_of_add_right_le hle
  · intro hstuck
    have hf : m.finished := by
      by_contra hnot
      obtain ⟨a, t, ha, ht⟩ := program_live hC h hnot
      rw [hstuck a ha] at ht
      cases ht
    exact ⟨hf, allHandled_of_finished hC h hf⟩

/-- Some run of the arguments in `main` ends, after at most 229 moves of its own
and one more for each spurious wake-up. -/
theorem program_terminates_exampleMain :
    ∃ as m, Machine.run (next exampleMain) (exampleMain.start 2) as = some m ∧ m.finished ∧
      as.countP (fun a => fair a) ≤ 229 + as.countP (fun a => ¬ fair a) := by
  have hfin : ∃ m, Machine.Reachable (next exampleMain) (exampleMain.start 2) m ∧ m.finished :=
    program_finishes (by decide) .start
  obtain ⟨m, hm, hf⟩ := hfin
  obtain ⟨as, hr⟩ := hm.exists_run
  have htotal : exampleMain.total = 12 := by decide
  have hle := (program_terminates (by decide) hr).1
  rw [htotal] at hle
  exact ⟨as, m, hr, hf, hle⟩

end BackendPatterns.BoundedQueue
