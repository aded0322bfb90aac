import Mathlib.Data.List.Basic
import Mathlib.Tactic.TypeStar

/-! # States along a history

A total step function takes every event in every state. What a state at the end
says about the events before it is found at the last entry into a set of states;
what events say about a later state is carried along the history. -/

namespace BackendPatterns.Lib.Trace

variable {σ ε : Type*} {step : σ → ε → σ} {init : σ} {es : List ε}

/-- The state after the first `n` events. -/
def stateAt (step : σ → ε → σ) (init : σ) (es : List ε) (n : Nat) : σ := (es.take n).foldl step init

theorem stateAt_length : stateAt step init es es.length = es.foldl step init := by
  rw [stateAt, List.take_length]

theorem stateAt_succ {n : Nat} {e : ε} (h : es[n]? = some e) :
    stateAt step init es (n + 1) = step (stateAt step init es n) e := by
  simp only [stateAt, List.take_add_one, h, Option.toList_some, List.foldl_append,
    List.foldl_cons, List.foldl_nil]

/-- Later events change no earlier state. -/
theorem stateAt_append {n : Nat} (hn : n ≤ es.length) (later : List ε) :
    stateAt step init (es ++ later) n = stateAt step init es n := by
  rw [stateAt, stateAt, List.take_append_of_le_length hn]

/-- The last entry into `P`, which has held from there on. -/
theorem last_entry {P : σ → Prop} {n : Nat} (hn : n ≤ es.length) (h0 : ¬ P init)
    (h : P (stateAt step init es n)) :
    ∃ k e, k < n ∧ es[k]? = some e ∧ ¬ P (stateAt step init es k) ∧
      ∀ m, k < m → m ≤ n → P (stateAt step init es m) := by
  induction n with
  | zero => exact absurd h h0
  | succ n ih =>
    by_cases hp : P (stateAt step init es n)
    · obtain ⟨k, e, hk, he, hnot, hsince⟩ := ih (by omega) hp
      refine ⟨k, e, by omega, he, hnot, fun m hkm hm => ?_⟩
      obtain hm | hm := Nat.le_succ_iff.mp hm
      · exact hsince m hkm hm
      · rw [hm]
        exact h
    · refine ⟨n, es[n], by omega, List.getElem?_eq_getElem hn, hp, fun m hnm hm => ?_⟩
      rw [show m = n + 1 by omega]
      exact h

/-- What every event from `i` on keeps still holds at a later position. -/
theorem carry {P : σ → Prop} {i n : Nat} (hin : i ≤ n) (hn : n ≤ es.length)
    (hi : P (stateAt step init es i))
    (hs : ∀ m e s, i ≤ m → m < n → es[m]? = some e → P s → P (step s e)) :
    P (stateAt step init es n) := by
  induction n with
  | zero =>
    rw [Nat.le_zero.mp hin] at hi
    exact hi
  | succ n ih =>
    obtain hle | heq := Nat.le_succ_iff.mp hin
    · have hget : es[n]? = some es[n] := List.getElem?_eq_getElem hn
      have hp := ih hle (by omega) fun m e s him hm => hs m e s him (by omega)
      rw [stateAt_succ hget]
      exact hs n _ _ hle (Nat.lt_succ_self n) hget hp
    · subst heq
      exact hi

end BackendPatterns.Lib.Trace
