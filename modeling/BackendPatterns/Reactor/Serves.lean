import Mathlib.Data.Int.Interval
import BackendPatterns.Reactor.Rank

/-! # The reactor serves every source to its end

With a kernel that reports only what is so, `main` waits only for writers, and
writers wait for nobody: the pipes take what they are given. -/

namespace BackendPatterns.Reactor
open BackendPatterns.Lib BackendPatterns.Lib.Threads BackendPatterns.Lib.Frames

variable {n : Nat} {s t : State n} {events : Fin n → List Bytes}

/-! ## Free descriptors -/

/-- The descriptors that `make_pipe` returned for a source. -/
def Source.ends (src : Source) : Finset Int :=
  match src.fds with
  | some (r, w) => {r, w}
  | none => ∅

/-- Only the descriptors of sources are open. -/
def Listed (s : State n) : Prop := ∀ fd, s.table fd ≠ none → ∃ i, fd ∈ (s.sources i).ends

theorem Source.card_ends (src : Source) : src.ends.card ≤ 2 := by
  unfold Source.ends
  split
  · exact Finset.card_le_two
  · exact Nat.zero_le 2

/-- A step that opens nothing. -/
theorem Listed.frame (h : Listed s) (ht : ∀ fd, t.table fd ≠ none → s.table fd ≠ none)
    (hfds : ∀ i, (t.sources i).fds = (s.sources i).fds) : Listed t := by
  intro fd hfd
  obtain ⟨i, hi⟩ := h fd (ht fd hfd)
  refine ⟨i, ?_⟩
  rw [Source.ends, hfds]
  exact hi

theorem Listed.modify (h : Listed s) {k : Fin n} {f : Source → Source} {pc : MainPc n}
    {closes : List (Int × Bool)} {active : Int} {table : Int → Option (End n)}
    (ht : ∀ fd, table fd ≠ none → s.table fd ≠ none)
    (hf : (f (s.sources k)).fds = (s.sources k).fds) :
    Listed ({ s with table, closes, active, main := pc }.modify k f) :=
  h.frame ht (forall_modify (s := s) (P := fun i src => src.fds = (s.sources i).fds) hf
    fun _ _ => rfl)

theorem update_none_ne {table : Int → Option (End n)} {x fd : Int}
    (h : Function.update table x none fd ≠ none) : table fd ≠ none := by
  by_cases hfd : fd = x
  · subst hfd
    rw [Function.update_self] at h
    exact absurd rfl h
  · rwa [Function.update_of_ne hfd] at h

theorem Listed.step (h : Listed s) {a : Action n} (hs : Moves events s a t) (hw : Wired s) :
    Listed t := by
  cases hs with
  | @pipe k r w hm hk hr hwr hne htr htw =>
    intro fd hfd
    by_cases hnew : fd = r ∨ fd = w
    · refine ⟨⟨k, hk⟩, ?_⟩
      rw [modify_sources_self]
      simpa [Source.ends] using hnew
    · obtain ⟨hfr, hfw⟩ := not_or.mp hnew
      have hold : s.table fd ≠ none := by
        simpa [State.modify, Function.update_of_ne hfr, Function.update_of_ne hfw] using hfd
      obtain ⟨i, hi⟩ := h fd hold
      have hik : i ≠ ⟨k, hk⟩ := by
        rintro rfl
        have hnone := (hw.source ⟨k, hk⟩).unmade (by rw [hm]; exact Nat.lt_irrefl k)
        rw [Source.ends, hnone] at hi
        cases hi
      exact ⟨i, by rwa [modify_sources_of_ne _ _ hik]⟩
  | spawn => exact h.modify (fun _ => id) rfl
  | watch => exact h.frame (fun _ => id) fun _ => rfl
  | line => exact h.modify (fun _ => id) rfl
  | byte => exact h.modify (fun _ => id) rfl
  | eof => exact h.modify (fun _ => update_none_ne) rfl
  | destroy => exact h.modify (fun _ => update_none_ne) rfl
  | start => exact h.modify (fun _ => id) rfl
  | ret => exact h.modify (fun _ => update_none_ne) rfl
  | event => exact h.modify (fun _ => id) rfl
  | written => exact h.modify (fun _ => id) rfl
  | write => exact h.modify (fun _ => id) rfl
  | _ => exact h

/-- Where a pipe is still to be made, two descriptors are free. -/
theorem Listed.free (h : Listed s) (hn : 2 * n ≤ 2147483648) {k : Fin n}
    (hk : (s.sources k).fds = none) :
    ∃ r w, IsFd r ∧ IsFd w ∧ r ≠ w ∧ s.table r = none ∧ s.table w = none := by
  have hused : ((Finset.univ.erase k).biUnion fun i => (s.sources i).ends).card ≤ (n - 1) * 2 := by
    refine (Finset.card_biUnion_le_card_mul _ _ 2 fun i _ => (s.sources i).card_ends).trans ?_
    rw [Finset.card_erase_of_mem (Finset.mem_univ k), Finset.card_univ, Fintype.card_fin]
  have hlt : 1 < (Finset.Icc (0 : Int) 2147483647 \
      (Finset.univ.erase k).biUnion fun i => (s.sources i).ends).card := by
    have hle := Finset.le_card_sdiff ((Finset.univ.erase k).biUnion fun i => (s.sources i).ends)
      (Finset.Icc (0 : Int) 2147483647)
    have hpos := k.pos
    rw [Int.card_Icc] at hle
    omega
  have hfree : ∀ fd, fd ∉ (Finset.univ.erase k).biUnion (fun i => (s.sources i).ends) →
      s.table fd = none := by
    intro fd hfd
    by_contra hne
    obtain ⟨i, hi⟩ := h fd hne
    have hik : i ≠ k := by
      rintro rfl
      rw [Source.ends, hk] at hi
      cases hi
    exact hfd (Finset.mem_biUnion.mpr ⟨i, Finset.mem_erase.mpr ⟨hik, Finset.mem_univ i⟩, hi⟩)
  obtain ⟨r, hr, w, hw, hne⟩ := Finset.one_lt_card.mp hlt
  rw [Finset.mem_sdiff, Finset.mem_Icc] at hr hw
  exact ⟨r, w, hr.1, hw.1, hne, hfree r hr.2, hfree w hw.2⟩

/-! ## Nobody waits in vain -/

/-- The machine with a kernel that reports only what is so. -/
abbrev served (events : Fin n → List Bytes) : State n → Action n → Option (State n) :=
  Machine.guarded Honest (step events)

/-- The bytes of a source, a newline for each message included. -/
def size (payloads : List Bytes) : Nat := (unframe newline payloads).length

theorem rank_start (events : Fin n → List Bytes) : (start n).rank events =
    (2 * n + 3) * (∑ i, (size (events i) + 1)) + ∑ i, (eventsRank (events i) + 1) +
      4 * n + 6 := by
  have hreads : (start n).reads events = ∑ i, (size (events i) + 1) := rfl
  have hwrites : (start n).writes events = ∑ i, (eventsRank (events i) + 1) := rfl
  rw [State.rank, hreads, hwrites]
  simp only [start, mainRank]
  omega

/-- The runs of the reactor: a bounded number of steps for the idle ticks it
takes, and at the end every source has been reported, closed and joined. -/
structure Serves (events : Fin n → List Bytes) : Prop where
  bounded : ∀ (as : List (Action n)) (s : State n),
    Machine.run (served events) (start n) as = some s →
      as.countP (fun a => ¬ a.idle) ≤
        (2 * n + 3) * (∑ i, (size (events i) + 1)) + ∑ i, (eventsRank (events i) + 1) +
          4 * n + 6 + as.countP (fun a => a.idle)
  ends : ∀ s, Machine.Reachable (served events) (start n) s →
    (∀ a : Action n, ¬ a.idle → served events s a = none) →
      s.main = .done ∧ ∀ i, (s.sources i).writer = .returned ∧
        (s.sources i).reports = frames newline (unframe newline (events i))

end BackendPatterns.Reactor
