import BackendPatterns.Reactor.Streams

/-! # Which descriptors are closed, and how often

A write end is closed by the writer's parameter. A read end is closed by the
loop, which reads it off the watch list, and once more by the `PipePair` that
still owns it. -/

namespace BackendPatterns.Reactor
open BackendPatterns.Lib BackendPatterns.Lib.Threads

variable {n : Nat} {s t : State n} {events : Fin n → List Bytes}

/-- The calls of `::close` that a source has seen, by what has happened to it. -/
def Source.closed (kept : Nat) (i : Fin n) (src : Source) : Multiset (Int × Bool) :=
  match src.fds with
  | none => 0
  | some (r, w) =>
    (if src.writer = .returned then {(w, true)} else 0) +
      (if src.retired = 0 then 0 else {(r, true)}) + (if i < kept then 0 else {(r, false)})

theorem closed_congr {src src' : Source} {kept kept' : Nat} {i : Fin n} (hfds : src'.fds = src.fds)
    (hw : src'.writer = .returned ↔ src.writer = .returned)
    (hr : src'.retired = 0 ↔ src.retired = 0) (hk : i < kept' ↔ i < kept) :
    src'.closed kept' i = src.closed kept i := by
  simp only [Source.closed, hfds, hw, hr, hk]

section Source

variable {kept : Nat} {i : Fin n} {src src' : Source} {r w : Int}

theorem closed_ret (hfds : src.fds = some (r, w)) (hw : src.writer ≠ .returned)
    (hfds' : src'.fds = src.fds) (hw' : src'.writer = .returned)
    (hr : src'.retired = src.retired) :
    src'.closed kept i = src.closed kept i + {(w, true)} := by
  simp only [Source.closed, hfds', hfds, hw', hr, if_true, if_neg hw, zero_add]
  rw [add_assoc, add_comm]

theorem closed_retire (hfds : src.fds = some (r, w)) (hr : src.retired = 0) (message : Bytes) :
    (src.retire message).closed kept i = src.closed kept i + {(r, true)} := by
  simp only [Source.closed, Source.retire, hfds, hr, if_true, zero_add, Nat.one_ne_zero, if_false,
    add_zero]
  rw [add_right_comm]

theorem closed_destroy (hfds : src.fds = some (r, w)) (hi : i < kept + 1) (hi' : ¬ i < kept) :
    src.closed kept i = src.closed (kept + 1) i + {(r, false)} := by
  simp only [Source.closed, hfds, if_pos hi, if_neg hi', add_zero]

end Source

/-- The log of `::close` is what the sources account for. -/
def Closes (s : State n) : Prop :=
  (s.closes : Multiset (Int × Bool)) = ∑ i, (s.sources i).closed s.main.stage.kept i

/-- A step that closes nothing. -/
theorem Closes.frame (h : Closes s) (hc : t.closes = s.closes)
    (hsrc : ∀ i, (t.sources i).closed t.main.stage.kept i =
      (s.sources i).closed s.main.stage.kept i) : Closes t := by
  rw [Closes, hc, h]
  exact Finset.sum_congr rfl fun i _ => (hsrc i).symm

/-- A step that closes one descriptor, of source `k`. -/
theorem Closes.close (h : Closes s) {c : Int × Bool} {k : Fin n} (hc : t.closes = s.closes ++ [c])
    (hk : (t.sources k).closed t.main.stage.kept k =
      (s.sources k).closed s.main.stage.kept k + {c})
    (hsrc : ∀ j, j ≠ k → (t.sources j).closed t.main.stage.kept j =
      (s.sources j).closed s.main.stage.kept j) : Closes t := by
  rw [Closes, hc, ← Multiset.coe_add, h, sum_add_of_ne hsrc hk]
  rfl

/-- Source `k` moves and closes nothing. -/
theorem Closes.modify (h : Closes s) {k : Fin n} {f : Source → Source} {pc : MainPc n}
    {table : Int → Option (End n)} (hpc : pc.stage.kept = s.main.stage.kept)
    (hk : (f (s.sources k)).closed pc.stage.kept k = (s.sources k).closed pc.stage.kept k) :
    Closes (State.modify { s with table := table, main := pc } k f) := by
  refine h.frame rfl (forall_modify (P := fun i src => src.closed pc.stage.kept i =
    (s.sources i).closed s.main.stage.kept i) ?_ ?_)
  · rw [← hpc]
    exact hk
  · intro j _
    rw [hpc]

/-- Only `main` moves. -/
theorem Closes.mainOnly (h : Closes s) {pc : MainPc n} (hpc : pc.stage.kept = s.main.stage.kept) :
    Closes { s with main := pc } := by
  refine h.frame rfl fun i => ?_
  rw [hpc]

theorem Closes.step (h : Closes s) (hw : Wired s) {a : Action n} (hs : Moves events s a t) :
    Closes t := by
  cases hs with
  | @pipe k r w hm hk =>
    have hold := hw.source ⟨k, hk⟩
    rw [hm] at hold
    have hnone := hold.unmade (Nat.lt_irrefl k)
    have hwriter := hold.unstarted (Nat.not_lt_zero k)
    have hret : (s.sources ⟨k, hk⟩).retired = 0 := hold.fresh rfl
    refine h.modify (by rw [hm]; rfl) ?_
    simp [Source.closed, hnone, hwriter, hret, MainPc.stage, hk]
  | piped hm => exact h.mainOnly (by rw [hm]; rfl)
  | @spawn k hm hk =>
    have hold := hw.source ⟨k, hk⟩
    rw [hm] at hold
    have hwriter := hold.unstarted (Nat.lt_irrefl k)
    exact h.modify (by rw [hm]; rfl) (closed_congr rfl (by simp [hwriter]) Iff.rfl Iff.rfl)
  | watch hm =>
    refine h.frame rfl fun i => ?_
    rw [hm]
    rfl
  | enter hm => exact h.mainOnly (by rw [hm]; rfl)
  | exit hm => exact h.mainOnly (by rw [hm]; rfl)
  | idle hm => exact h.mainOnly (by rw [hm]; rfl)
  | ready hm => exact h.mainOnly (by rw [hm]; rfl)
  | skip hm => exact h.mainOnly (by rw [hm]; rfl)
  | pass hm => exact h.mainOnly (by rw [hm]; rfl)
  | call hm => exact h.mainOnly (by rw [hm]; rfl)
  | line hm => exact h.modify (by rw [hm]; rfl) rfl
  | byte hm => exact h.modify (by rw [hm]; rfl) rfl
  | @eof rv k message r w hm hb hopen hfds =>
    have hret := (hw.draining _ _ _ _ hm).2
    have hkept : (MainPc.dispatch rv (k + 1) : MainPc n).stage.kept = s.main.stage.kept := by
      rw [hm]
      rfl
    refine h.close (c := (r, true)) (k := k) rfl ?_ fun j hj => ?_
    · rw [modify_sources_self, ← hkept]
      exact closed_retire hfds hret message
    · rw [modify_sources_of_ne _ _ hj]
      exact closed_congr rfl Iff.rfl Iff.rfl (by rw [← hkept]; rfl)
  | join hm => exact h.mainOnly (by rw [hm]; rfl)
  | joined hm => exact h.mainOnly (by rw [hm]; rfl)
  | @destroy k r w hm hk hfds =>
    refine h.close (c := (r, false)) (k := ⟨k, hk⟩) rfl ?_ fun j hj => ?_
    · rw [modify_sources_self, hm]
      exact closed_destroy hfds (Nat.lt_succ_self k) (Nat.lt_irrefl k)
    · have hval : (j : Nat) ≠ k := fun hv => hj (Fin.ext hv)
      have hlt : (j : Nat) < k ↔ (j : Nat) < k + 1 := by omega
      rw [modify_sources_of_ne _ _ hj, hm]
      exact closed_congr rfl Iff.rfl Iff.rfl hlt
  | destroyed hm => exact h.mainOnly (by rw [hm]; rfl)
  | start hs => exact h.modify rfl (closed_congr rfl (by simp [hs]) Iff.rfl Iff.rfl)
  | @ret i _ r w hs hfds =>
    refine h.close (c := (w, true)) (k := i) rfl ?_ fun j hj => ?_
    · rw [modify_sources_self]
      exact closed_ret hfds (by simp [hs]) rfl rfl rfl
    · rw [modify_sources_of_ne _ _ hj]
      rfl
  | event hs => exact h.modify rfl (closed_congr rfl (by simp [hs]) Iff.rfl Iff.rfl)
  | written hs => exact h.modify rfl (closed_congr rfl (by simp [hs]) Iff.rfl Iff.rfl)
  | write hs => exact h.modify rfl (closed_congr rfl (by simp [hs]) Iff.rfl Iff.rfl)

theorem reachable_closes (h : Machine.Reachable (step events) (start n) s) : Closes s := by
  refine h.invariant ?_ fun hr hc hs => hc.step (reachable_wired hr) ((reachable_wired hr).moves hs)
  simp [Closes, start, Source.init, Source.closed]

/-! ## The whole run -/

/-- How often `::close` is called on `fd`. -/
def State.closings (s : State n) (fd : Int) : Nat := s.closes.countP fun c => c.1 = fd

/-- Every descriptor of `make_pipe` is closed once, and no other number. -/
structure ClosedOnce (s : State n) : Prop where
  once : ∀ i r w, (s.sources i).fds = some (r, w) → s.closings r = 1 ∧ s.closings w = 1
  isOpen : ∀ c ∈ s.closes, c.2 = true

theorem Closes.closings (h : Closes s) (fd : Int) : s.closings fd =
    ∑ i, ((s.sources i).closed s.main.stage.kept i).countP fun c => c.1 = fd := by
  have hsum := map_sum (Multiset.countPAddMonoidHom fun c : Int × Bool => c.1 = fd)
    (fun i => (s.sources i).closed s.main.stage.kept i) Finset.univ
  rw [← h] at hsum
  exact hsum

/-- When `main` has returned, each source has seen three calls. -/
theorem Wired.closed_done (h : Wired s) (hm : s.main = .done) {i : Fin n} {r w : Int}
    (hfds : (s.sources i).fds = some (r, w)) : (s.sources i).closed s.main.stage.kept i =
      {(w, true)} + {(r, true)} + {(r, false)} := by
  have hret := (h.source i).left (by rw [hm]; rfl)
  have hreturned := (h.source i).late hret
  simp [Source.closed, hfds, hret, hreturned, hm, MainPc.stage]

/-- When `main` has returned, each read end has been closed twice. -/
theorem closings_done (h : Machine.Reachable (step events) (start n) s) (hm : s.main = .done)
    {i : Fin n} {r w : Int} (hfds : (s.sources i).fds = some (r, w)) :
    s.closings r = 2 ∧ s.closings w = 1 := by
  have hw := reachable_wired h
  have hc := reachable_closes h
  have hne := ((hw.source i).wires r w hfds).ne
  have hother : ∀ fd, fd = r ∨ fd = w → ∀ j, j ≠ i →
      ((s.sources j).closed s.main.stage.kept j).countP (fun c => c.1 = fd) = 0 := by
    intro fd hfd j hj
    obtain ⟨r', w', hfds'⟩ := (hw.source j).fds (by rw [hm]; exact j.isLt)
    obtain ⟨h₁, h₂, h₃, h₄⟩ := hw.distinct j i r' w' r w hj hfds' hfds
    rw [hw.closed_done hm hfds']
    obtain rfl | rfl := hfd
    · simp [← Multiset.cons_zero, h₁, h₃]
    · simp [← Multiset.cons_zero, h₂, h₄]
  have hself : ∀ fd, fd = r ∨ fd = w → s.closings fd =
      ((s.sources i).closed s.main.stage.kept i).countP (fun c => c.1 = fd) := by
    intro fd hfd
    rw [hc.closings fd]
    exact Fintype.sum_eq_single i (hother fd hfd)
  rw [hself r (.inl rfl), hself w (.inr rfl), hw.closed_done hm hfds]
  simp [← Multiset.cons_zero, hne, Ne.symm hne]

/-- A finished run has closed every descriptor exactly once, each while it was
open, only if it had no source: the `PipePair` of a source closes its read end
after the loop has. -/
theorem reactor_closes_once_iff (h : Machine.Reachable (step events) (start n) s)
    (hm : s.main = .done) : ClosedOnce s ↔ n = 0 := by
  constructor
  · intro hclosed
    by_contra hn
    let i : Fin n := ⟨0, Nat.pos_of_ne_zero hn⟩
    obtain ⟨r, w, hfds⟩ := ((reachable_wired h).source i).fds (by rw [hm]; exact i.isLt)
    have htwice := (closings_done h hm hfds).1
    rw [(hclosed.once i r w hfds).1] at htwice
    cases htwice
  · intro hn
    subst hn
    have hnil : s.closes = [] := by
      have hc := reachable_closes h
      rwa [Closes, Fintype.sum_empty, Multiset.coe_eq_zero] at hc
    refine ⟨fun i => i.elim0, ?_⟩
    rw [hnil]
    intro c hc
    cases hc

/-- One source: after the loop has closed descriptor 3, the destructor of its
`PipePair` closes that number again. -/
theorem read_end_closed_twice :
    ∃ s, Machine.run (step hello) (start 1) helloRun = some s ∧ s.main = .done ∧
      s.closes = [(4, true), (3, true), (3, false)] ∧ ¬ ClosedOnce s :=
  ⟨_, rfl, rfl, rfl, fun h => absurd (h.isOpen (3, false) (by decide)) (by decide)⟩

theorem reactor_closes_once_iff_hello :
    ∃ s, Machine.run (step hello) (start 1) helloRun = some s ∧ ¬ ClosedOnce s := by
  have hend : ∃ s, Machine.run (step hello) (start 1) helloRun = some s ∧ s.main = .done :=
    ⟨_, rfl, rfl⟩
  obtain ⟨s, hs, hm⟩ := hend
  have hiff := reactor_closes_once_iff (Machine.reachable_of_run hs) hm
  exact ⟨s, hs, mt hiff.mp Nat.one_ne_zero⟩

end BackendPatterns.Reactor
