import BackendPatterns.Reactor.Wiring

/-! # The wiring is kept

Each step touches one source, or moves `main` on. No descriptor is handed out
twice, and only the end of its own source or writer closes one. -/

namespace BackendPatterns.Reactor
open BackendPatterns.Lib BackendPatterns.Lib.Threads BackendPatterns.Lib.Frames

variable {n : Nat} {s t : State n} {events : Fin n → List Bytes}

section Source

variable {g g' : Stage} {table table' : Int → Option (End n)} {i : Fin n} {src : Source}

/-- A source that is not touched, while its descriptors stay as they are. -/
theorem SourceOk.frame (h : SourceOk g table i src) (ht : ∀ r w, src.fds = some (r, w) →
      table' r = table r ∧ table' w = table w) : SourceOk g table' i src := by
  refine { h with wires := fun r w hfds => ?_ }
  obtain ⟨hr, hw⟩ := ht r w hfds
  exact { h.wires r w hfds with
    read := hr.trans (h.wires r w hfds).read
    write := hw.trans (h.wires r w hfds).write }

/-- `main` moves on: what the new stage promises about a source is already so. -/
theorem SourceOk.stage (h : SourceOk g table i src) (hmade : i < g'.made ↔ i < g.made)
    (hspawned : i < g'.spawned ↔ i < g.spawned)
    (hfresh : g'.started = false → src.retired = 0) (hleft : g'.left = true → src.retired ≠ 0)
    (hkept : i < g'.kept ↔ i < g.kept) (hwatch : g'.started = true → g.started = true) :
    SourceOk g' table i src := by
  refine { h with
    made := h.made.trans hmade.symm
    spawned := h.spawned.trans hspawned.symm
    fresh := hfresh
    left := hleft
    wires := fun r w hfds => ?_ }
  have hw := h.wires r w hfds
  refine { hw with readEnd := ?_, watcher := fun hs => hw.watcher (hwatch hs) }
  rw [hw.readEnd]
  simp only [hkept]

/-- Reading and reporting do not touch a descriptor. -/
theorem SourceOk.read (h : SourceOk g table i src) (buffer : Bytes) (reports : List Bytes) :
    SourceOk g table i
      { src with pipe := { src.pipe with buffer := buffer }, reports := reports } :=
  ⟨h.made, h.blank, h.spawned, h.alive, h.fresh, h.left, h.readOpen, h.writeOpen, h.late, h.once,
    fun r w hfds =>
      have hw := h.wires r w hfds
      ⟨hw.readFd, hw.writeFd, hw.ne, hw.read, hw.write, hw.readEnd, hw.watcher, hw.owner⟩⟩

/-- Inside `simulate_source`, after its move of the descriptor and before its return. -/
def WriterPc.running : WriterPc → Bool
  | .events _ | .writing _ _ => true
  | _ => false

theorem running_ne {pc : WriterPc} (h : pc.running = true) :
    pc ≠ .unstarted ∧ pc ≠ .failed ∧ pc ≠ .returned := by
  refine ⟨?_, ?_, ?_⟩ <;> rintro rfl <;> cases h

theorem owner_running {w : Int} (h : src.writer.running = true) : src.Owner w ↔
    src.pair.writeEnd.fd = -1 ∧ src.capture.fd = -1 ∧ src.param.fd = w := by
  unfold Source.Owner
  cases hw : src.writer with
  | events => exact Iff.rfl
  | writing => exact Iff.rfl
  | _ => rw [hw] at h; cases h

/-- A writer at work keeps its descriptor. -/
theorem SourceOk.writing (h : SourceOk g table i src) (hr : src.writer.running = true)
    {pc : WriterPc} (hpc : pc.running = true) (buffer written : Bytes) :
    SourceOk g table i { src with
      pipe := { src.pipe with buffer := buffer }, written := written, writer := pc } := by
  obtain ⟨hu, -, hret⟩ := running_ne hr
  obtain ⟨hu', hf', hret'⟩ := running_ne hpc
  refine ⟨h.made, h.blank, ?_, hf', h.fresh, h.left, h.readOpen, ?_, ?_, h.once, ?_⟩
  · exact ⟨fun _ => h.spawned.mp hu, fun _ => hu'⟩
  · exact ⟨fun _ => hret', fun _ => h.writeOpen.mpr hret⟩
  · intro hne
    exact absurd (h.late hne) hret
  · intro r w hfds
    have hw := h.wires r w hfds
    refine ⟨hw.readFd, hw.writeFd, hw.ne, hw.read, hw.write, hw.readEnd, hw.watcher, ?_⟩
    exact (owner_running hpc).mpr ((owner_running hr).mp hw.owner)

/-- The writer thread moves the captured descriptor into its parameter. -/
theorem SourceOk.start (h : SourceOk g table i src) (hs : src.writer = .started)
    (rest : List Bytes) :
    SourceOk g table i { src with
      param := ⟨src.capture.fd⟩, capture := .none, writer := .events rest } := by
  have hne : src.writer ≠ .returned := by rw [hs]; simp
  refine ⟨h.made, fun hn => ⟨rfl, (h.blank hn).1⟩, ?_, by simp, h.fresh, h.left, h.readOpen, ?_, ?_,
    h.once, ?_⟩
  · exact ⟨fun _ => h.spawned.mp (by rw [hs]; simp), fun _ => by simp⟩
  · exact ⟨fun _ => by simp, fun _ => h.writeOpen.mpr hne⟩
  · intro hret
    exact absurd (h.late hret) hne
  · intro r w hfds
    have hw := h.wires r w hfds
    have howner := hw.owner
    rw [Source.Owner, hs] at howner
    exact ⟨hw.readFd, hw.writeFd, hw.ne, hw.read, hw.write, hw.readEnd, hw.watcher,
      howner.1, rfl, howner.2.1⟩

/-- The writer returns and its parameter closes the write end. -/
theorem SourceOk.ret {r w : Int} (h : SourceOk g table i src) (hs : src.writer = .events [])
    (hfds : src.fds = some (r, w)) :
    SourceOk g (Function.update table w none) i { src with
      pipe := { src.pipe with writeOpen := false }
      param := .none
      capture := .none
      writer := .returned } := by
  have hr : src.writer.running = true := by rw [hs]; rfl
  refine ⟨h.made, fun _ => ⟨rfl, rfl⟩, ?_, by simp, h.fresh, h.left, h.readOpen, ?_, fun _ => rfl,
    h.once, ?_⟩
  · exact ⟨fun _ => h.spawned.mp (running_ne hr).1, fun _ => by simp⟩
  · simp
  · intro r' w' hfds'
    have hw := h.wires r' w' hfds'
    cases hfds.symm.trans hfds'
    refine ⟨hw.readFd, hw.writeFd, hw.ne, ?_, by simp, hw.readEnd, hw.watcher, ?_⟩
    · rw [Function.update_of_ne hw.ne]
      exact hw.read
    · exact ⟨((owner_running hr).mp hw.owner).1, rfl, rfl⟩

/-- The loop retires a source whose writer has returned. -/
theorem SourceOk.eof {r w : Int} (h : SourceOk g table i src) (hret : src.retired = 0)
    (hwo : src.pipe.writeOpen = false) (hst : g.started = true) (hfds : src.fds = some (r, w))
    (message : Bytes) : SourceOk g (Function.update table r none) i (src.retire message) := by
  have hreturned : src.writer = .returned := by
    by_contra hne
    rw [h.writeOpen.mpr hne] at hwo
    cases hwo
  have hone : (src.retire message).retired = 1 := congrArg (· + 1) hret
  refine ⟨h.made, h.blank, h.spawned, h.alive, ?_, ?_, ?_, h.writeOpen, fun _ => hreturned, hone.le,
    ?_⟩
  · intro hf
    rw [hst] at hf
    cases hf
  · intro _
    rw [hone]
    exact Nat.one_ne_zero
  · rw [hone]
    simp [Source.retire]
  · intro r' w' hfds'
    have hw := h.wires r' w' hfds'
    cases hfds.symm.trans hfds'
    refine ⟨hw.readFd, hw.writeFd, hw.ne, by simp [Source.retire], ?_, hw.readEnd,
      fun _ => by rw [hone]; rfl, hw.owner⟩
    rw [Function.update_of_ne hw.ne.symm]
    exact hw.write

/-- `make_pipe` gives a source its descriptors. -/
theorem SourceOk.pipe {k : Nat} {hk : k < n} {r w : Int}
    (h : SourceOk (MainPc.makePipe k : MainPc n).stage table ⟨k, hk⟩ src)
    (hr : IsFd r) (hw : IsFd w) (hne : r ≠ w) :
    SourceOk (MainPc.makePipe (k + 1) : MainPc n).stage
      (Function.update (Function.update table r (some (.read ⟨k, hk⟩))) w (some (.write ⟨k, hk⟩)))
      ⟨k, hk⟩ { src with pair := ⟨⟨r⟩, ⟨w⟩⟩, fds := some (r, w) } := by
  have hblank := h.blank (h.unmade (Nat.lt_irrefl k))
  have hunstarted := h.unstarted (Nat.not_lt_zero k)
  have hret : src.retired = 0 := h.fresh rfl
  refine ⟨by simp [MainPc.stage], by simp, h.spawned, h.alive, fun _ => hret, h.left, h.readOpen,
    h.writeOpen, h.late, h.once, fun r' w' hfds => ?_⟩
  cases hfds
  refine ⟨hr, hw, hne, ?_, ?_, by simp [MainPc.stage, hk], ?_, ?_⟩
  · rw [Function.update_of_ne hne, Function.update_self]
    simp [h.readOpen.mpr hret]
  · rw [Function.update_self]
    simp [h.writeOpen.mpr (by rw [hunstarted]; simp)]
  · intro hst
    cases hst
  · simp [Source.Owner, hunstarted, hblank]

/-- The write end moves from the pair into the lambda of the new thread. -/
theorem SourceOk.spawn {k : Nat} {hk : k < n}
    (h : SourceOk (MainPc.spawn k : MainPc n).stage table ⟨k, hk⟩ src) :
    SourceOk (MainPc.spawn (k + 1) : MainPc n).stage table ⟨k, hk⟩ { src with
      capture := ⟨src.pair.writeEnd.fd⟩
      pair := { src.pair with writeEnd := .none }
      writer := .started } := by
  have hunstarted := h.unstarted (Nat.lt_irrefl k)
  have hret : src.retired = 0 := h.fresh rfl
  refine ⟨h.made, ?_, by simp [MainPc.stage], by simp, h.fresh, h.left, h.readOpen, ?_, ?_, h.once,
    ?_⟩
  · intro hnone
    obtain ⟨r, w, hfds⟩ := h.fds hk
    cases hfds.symm.trans hnone
  · simp [h.writeOpen.mpr (by rw [hunstarted]; simp)]
  · intro hne
    exact absurd hret hne
  · intro r w hfds
    have hw := h.wires r w hfds
    have howner := hw.owner
    rw [Source.Owner, hunstarted] at howner
    exact ⟨hw.readFd, hw.writeFd, hw.ne, hw.read, hw.write, hw.readEnd, hw.watcher, rfl,
      howner.1, howner.2.2⟩

/-- The pair of a retired source is destroyed. -/
theorem SourceOk.destroy {k : Nat} {hk : k < n} {r w : Int}
    (h : SourceOk (MainPc.destroy (k + 1) : MainPc n).stage table ⟨k, hk⟩ src)
    (hfds : src.fds = some (r, w)) :
    SourceOk (MainPc.destroy k : MainPc n).stage (Function.update table r none) ⟨k, hk⟩
      { src with pair := ⟨.none, .none⟩ } := by
  have hret : src.retired ≠ 0 := h.left rfl
  have hreturned := h.late hret
  refine ⟨h.made, h.blank, h.spawned, h.alive, h.fresh, h.left, h.readOpen, h.writeOpen, h.late,
    h.once, fun r' w' hfds' => ?_⟩
  have hw := h.wires r' w' hfds'
  cases hfds.symm.trans hfds'
  refine ⟨hw.readFd, hw.writeFd, hw.ne, ?_, ?_, ?_, hw.watcher, ?_⟩
  · rw [Function.update_self, if_neg (mt h.readOpen.mp hret)]
  · rw [Function.update_of_ne hw.ne.symm]
    exact hw.write
  · simp [MainPc.stage, UniqueFd.none]
  · have howner := hw.owner
    rw [Source.Owner, hreturned] at howner
    simpa [Source.Owner, hreturned, UniqueFd.none] using howner.2

end Source

/-- Facts about the sources after one of them changed. -/
theorem forall_modify {P : Fin n → Source → Prop} {i : Fin n} {f : Source → Source}
    (hi : P i (f (s.sources i))) (hj : ∀ j, j ≠ i → P j (s.sources j)) (j : Fin n) :
    P j ((s.modify i f).sources j) := by
  by_cases hji : j = i
  · subst hji
    rw [modify_sources_self]
    exact hi
  · rw [modify_sources_of_ne _ _ hji]
    exact hj j hji

/-- What holds of `main` inside the loop. -/
structure Going (s : State n) : Prop where
  polling : s.main = .poll → 0 < s.active
  draining : ∀ rv k handler message, s.main = .drain rv k handler message →
    handler = k ∧ (s.sources k).retired = 0
  running : ∀ what, s.main ≠ .failed what

/-- At these statements that says nothing. -/
def MainPc.quiet : MainPc n → Bool
  | .poll | .drain _ _ _ _ | .failed _ => false
  | _ => true

theorem going_of_quiet (h : s.main.quiet = true) : Going s := by
  refine ⟨fun hm => ?_, fun rv k handler message hm => ?_, fun what hm => ?_⟩ <;>
    · rw [hm] at h
      cases h

theorem Wired.going (h : Wired s) : Going s := ⟨h.polling, h.draining, h.running⟩

/-- The sources keep their descriptors and retirements, and `main` its lists. -/
theorem Wired.keep (h : Wired s) (hsrc : ∀ i, SourceOk t.main.stage t.table i (t.sources i))
    (hfds : ∀ i, (t.sources i).fds = (s.sources i).fds)
    (hret : ∀ i, (t.sources i).retired = (s.sources i).retired)
    (hst : t.main.stage.started = true → s.main.stage.started = true)
    (hh : t.handlers = s.handlers) (ha : t.active = s.active) (hg : Going t) : Wired t := by
  refine ⟨hsrc, ?_, ?_, ?_, hg.polling, hg.draining, hg.running⟩
  · intro i j r w r' w' hij hi hj
    rw [hfds] at hi hj
    exact h.distinct i j r w r' w' hij hi hj
  · intro hs
    rw [ha, h.active (hst hs)]
    exact congrArg _ (count_congr fun i => by rw [hret]).symm
  · intro hs i r w hi
    rw [hfds] at hi
    rw [hh]
    exact h.handlers (hst hs) i r w hi

/-- `main` moves on, with nothing else. -/
theorem Wired.advance (h : Wired s) {pc : MainPc n}
    (hsrc : ∀ i, SourceOk pc.stage s.table i (s.sources i))
    (hst : pc.stage.started = true → s.main.stage.started = true)
    (hg : Going { s with main := pc }) : Wired { s with main := pc } :=
  h.keep hsrc (fun _ => rfl) (fun _ => rfl) hst rfl rfl hg

/-- `main` moves within a stage. -/
theorem Wired.mainOnly (h : Wired s) {pc : MainPc n} (hst : pc.stage = s.main.stage)
    (hg : Going { s with main := pc }) : Wired { s with main := pc } := by
  refine h.advance (fun i => ?_) ?_ hg
  · rw [hst]
    exact h.source i
  · rw [hst]
    exact id

/-- Source `i` moves, and `main` may; no source gains or loses its descriptors,
and none is retired. -/
theorem Wired.move (h : Wired s) {i : Fin n} {f : Source → Source} {pc : MainPc n}
    {table : Int → Option (End n)} {closes : List (Int × Bool)}
    (hi : SourceOk pc.stage table i (f (s.sources i)))
    (hj : ∀ j, j ≠ i → SourceOk pc.stage table j (s.sources j))
    (hfds : (f (s.sources i)).fds = (s.sources i).fds)
    (hret : (f (s.sources i)).retired = (s.sources i).retired)
    (hst : pc.stage.started = true → s.main.stage.started = true)
    (hg : Going { s with main := pc }) :
    Wired (State.modify { s with table := table, closes := closes, main := pc } i f) := by
  have hkept := forall_modify (P := fun j src => src.retired = (s.sources j).retired) hret
    fun _ _ => rfl
  refine h.keep (forall_modify (P := fun j src => SourceOk pc.stage table j src) hi hj)
    (forall_modify (P := fun j src => src.fds = (s.sources j).fds) hfds fun _ _ => rfl) hkept hst
    rfl rfl ⟨hg.polling, fun rv k handler message hm => ?_, hg.running⟩
  obtain ⟨hk, hzero⟩ := hg.draining rv k handler message hm
  exact ⟨hk, (hkept k).trans hzero⟩

/-- Only source `i` moves. -/
theorem Wired.modify (h : Wired s) {i : Fin n} {f : Source → Source}
    (hi : SourceOk s.main.stage s.table i (f (s.sources i)))
    (hfds : (f (s.sources i)).fds = (s.sources i).fds)
    (hret : (f (s.sources i)).retired = (s.sources i).retired) : Wired (s.modify i f) :=
  h.move hi (fun j _ => h.source j) hfds hret id h.going

/-- Closing a descriptor of source `i` leaves the other sources theirs. -/
theorem Wired.others (h : Wired s) {i j : Fin n} (hj : j ≠ i) {r w fd : Int}
    (hfds : (s.sources i).fds = some (r, w)) (hfd : fd = r ∨ fd = w) (e : Option (End n)) :
    SourceOk s.main.stage (Function.update s.table fd e) j (s.sources j) := by
  refine (h.source j).frame fun r' w' hj' => ?_
  obtain ⟨h₁, h₂, h₃, h₄⟩ := h.distinct j i r' w' r w hj hj' hfds
  obtain rfl | rfl := hfd
  · exact ⟨Function.update_of_ne h₁ _ _, Function.update_of_ne h₃ _ _⟩
  · exact ⟨Function.update_of_ne h₂ _ _, Function.update_of_ne h₄ _ _⟩

/-- A retirement takes one from the sources that are not retired. -/
theorem count_retire {i : Fin n} {f : Source → Source} (hi : (s.sources i).retired = 0)
    (hf : (f (s.sources i)).retired ≠ 0) :
    count (fun src : Source => src.retired = 0) (s.modify i f).sources + 1 =
      count (fun src : Source => src.retired = 0) s.sources := by
  have hcount := count_update (fun src : Source => src.retired = 0) s.sources i (f (s.sources i))
  rwa [if_pos hi, if_neg hf] at hcount

/-! ## The steps of `main` that change its stage -/

/-- Before the loop, a descriptor in use is open. -/
theorem Wired.taken (h : Wired s) {k : Nat} (hm : s.main = .makePipe k) {j : Fin n} {r w fd : Int}
    (hfds : (s.sources j).fds = some (r, w)) (hfd : s.table fd = none) : r ≠ fd ∧ w ≠ fd := by
  have hsrc := h.source j
  rw [hm] at hsrc
  have hw := hsrc.wires r w hfds
  have hret : (s.sources j).retired = 0 := hsrc.fresh rfl
  have hwriter : (s.sources j).writer ≠ .returned := by
    rw [hsrc.unstarted (Nat.not_lt_zero _)]
    simp
  refine ⟨?_, ?_⟩
  · intro hr
    subst hr
    rw [hw.read, hsrc.readOpen.mpr hret] at hfd
    cases hfd
  · intro hr
    subst hr
    rw [hw.write, hsrc.writeOpen.mpr hwriter] at hfd
    cases hfd

/-- A new pipe gets descriptors that nobody else has. -/
theorem Wired.pipe (h : Wired s) {k : Nat} {r w : Int} (hm : s.main = .makePipe k) (hk : k < n)
    (hr : IsFd r) (hw : IsFd w) (hne : r ≠ w) (htr : s.table r = none) (htw : s.table w = none) :
    Wired ({ s with
      table := Function.update (Function.update s.table r (some (.read ⟨k, hk⟩))) w
        (some (.write ⟨k, hk⟩))
      main := .makePipe (k + 1) }.modify ⟨k, hk⟩ fun src =>
        { src with pair := ⟨⟨r⟩, ⟨w⟩⟩, fds := some (r, w) }) := by
  have hold := h.source ⟨k, hk⟩
  rw [hm] at hold
  have hnew : ∀ j r' w', (s.sources j).fds = some (r', w') → r' ≠ r ∧ r' ≠ w ∧ w' ≠ r ∧ w' ≠ w := by
    intro j r' w' hj
    obtain ⟨h₁, h₃⟩ := h.taken hm hj htr
    obtain ⟨h₂, h₄⟩ := h.taken hm hj htw
    exact ⟨h₁, h₂, h₃, h₄⟩
  have hg : Going { s with main := .makePipe (k + 1) } := going_of_quiet rfl
  refine ⟨forall_modify (P := fun i src => SourceOk (MainPc.makePipe (k + 1) : MainPc n).stage
      (Function.update (Function.update s.table r (some (.read ⟨k, hk⟩))) w
        (some (.write ⟨k, hk⟩))) i src) (hold.pipe hr hw hne) ?_, ?_, ?_, ?_, hg.polling, ?_,
    hg.running⟩
  · intro j hj
    have hval : (j : Nat) ≠ k := fun hv => hj (Fin.ext hv)
    have hsrc := h.source j
    rw [hm] at hsrc
    have hmade : (j : Nat) < k + 1 ↔ (j : Nat) < k := by omega
    have hstage : SourceOk (MainPc.makePipe (k + 1) : MainPc n).stage s.table j (s.sources j) :=
      hsrc.stage hmade Iff.rfl hsrc.fresh hsrc.left Iff.rfl id
    refine hstage.frame fun r' w' hfds => ?_
    obtain ⟨h₁, h₂, h₃, h₄⟩ := hnew j r' w' hfds
    simp [h₁, h₂, h₃, h₄]
  · intro i j r' w' r'' w'' hij hi hj
    by_cases hik : i = ⟨k, hk⟩
    · subst hik
      rw [modify_sources_self] at hi
      rw [modify_sources_of_ne _ _ (Ne.symm hij)] at hj
      cases hi
      obtain ⟨h₁, h₂, h₃, h₄⟩ := hnew j r'' w'' hj
      exact ⟨h₁.symm, h₃.symm, h₂.symm, h₄.symm⟩
    · rw [modify_sources_of_ne _ _ hik] at hi
      by_cases hjk : j = ⟨k, hk⟩
      · subst hjk
        rw [modify_sources_self] at hj
        cases hj
        exact hnew i r' w' hi
      · rw [modify_sources_of_ne _ _ hjk] at hj
        exact h.distinct i j r' w' r'' w'' hij hi hj
  · intro hst
    cases hst
  · intro hst
    cases hst
  · intro _ _ _ _ hdrain
    cases hdrain

/-- The write end moves into the lambda of a new thread. -/
theorem Wired.spawned (h : Wired s) {k : Nat} (hm : s.main = .spawn k) (hk : k < n) :
    Wired (s.spawn ⟨k, hk⟩) := by
  have hold := h.source ⟨k, hk⟩
  rw [hm] at hold
  refine h.move hold.spawn (fun j hj => ?_) rfl rfl ?_ (going_of_quiet rfl)
  · have hval : (j : Nat) ≠ k := fun hv => hj (Fin.ext hv)
    have hsrc := h.source j
    rw [hm] at hsrc
    refine hsrc.stage Iff.rfl ?_ hsrc.fresh hsrc.left Iff.rfl id
    simp only [MainPc.stage]
    omega
  · intro hst
    cases hst

/-- A map built from distinct keys holds each entry. -/
theorem lookup_map {κ ι : Type*} [BEq κ] [LawfulBEq κ] {key : ι → κ} {l : List ι} {i : ι}
    (hkey : ∀ j, key j = key i → j = i) (hi : i ∈ l) :
    (l.map fun j => (key j, j)).lookup (key i) = some i := by
  induction l with
  | nil => cases hi
  | cons j l ih =>
    rw [List.map_cons, List.lookup_cons]
    by_cases hj : key j = key i
    · rw [hkey j hj, beq_self_eq_true]
    · have hbeq : (key i == key j) = false := beq_eq_false_iff_ne.mpr (Ne.symm hj)
      rw [hbeq]
      refine ih ((List.mem_cons.mp hi).resolve_left ?_)
      intro heq
      subst heq
      exact hj rfl

/-- The watch list and the handler map are built from the read ends. -/
theorem Wired.watch (h : Wired s) {k : Nat} (hm : s.main = .spawn k) (hk : n ≤ k) :
    Wired s.watch := by
  have hsrc : ∀ i, SourceOk (MainPc.spawn k : MainPc n).stage s.table i (s.sources i) := by
    intro i
    rw [← hm]
    exact h.source i
  have hread : ∀ i r w, (s.sources i).fds = some (r, w) → (s.sources i).pair.readEnd.fd = r := by
    intro i r w hfds
    exact ((hsrc i).wires r w hfds).readEnd.trans (if_pos i.isLt)
  have hg : Going s.watch := going_of_quiet rfl
  refine ⟨?_, h.distinct, ?_, ?_, hg.polling, hg.draining, hg.running⟩
  · intro i
    have hi := hsrc i
    have hlt := i.isLt
    refine ⟨hi.made, hi.blank, ?_, hi.alive, ?_, ?_, hi.readOpen, hi.writeOpen, hi.late, hi.once,
      ?_⟩
    · rw [show (s.watch.sources i).writer = (s.sources i).writer from rfl, hi.spawned]
      simp only [MainPc.stage, State.watch]
      omega
    · intro hst
      cases hst
    · intro hleft
      cases hleft
    · intro r w hfds
      have hw := hi.wires r w hfds
      refine ⟨hw.readFd, hw.writeFd, hw.ne, hw.read, hw.write, hw.readEnd, fun _ => ?_, hw.owner⟩
      rw [if_pos (show (s.watch.sources i).retired = 0 from hi.fresh rfl)]
      exact hread i r w hfds
  · intro _
    have hall : ∀ i, (s.watch.sources i).retired = 0 := fun i => (hsrc i).fresh rfl
    have hcount : count (fun src : Source => src.retired = 0) s.watch.sources = n := by
      rw [count, Finset.filter_true_of_mem fun i _ => hall i, Finset.card_fin]
    rw [hcount]
    rfl
  · intro _ i r w hfds
    have hkey : ∀ j, (s.sources j).pair.readEnd.fd = (s.sources i).pair.readEnd.fd → j = i := by
      intro j hj
      by_contra hne
      obtain ⟨r', w', hfds'⟩ := (hsrc j).fds j.isLt
      rw [hread j r' w' hfds', hread i r w hfds] at hj
      exact (h.distinct j i r' w' r w hne hfds' hfds).1 hj
    rw [← hread i r w hfds]
    exact lookup_map hkey (List.mem_finRange i)

/-! ## The steps that close a descriptor -/

/-- The loop retires the source of the slot it drains. -/
theorem Wired.eof (h : Wired s) {rv : Fin n → Revents} {k : Fin n} {message : Bytes} {r w : Int}
    (hm : s.main = .drain rv k k message) (hw : (s.sources k).pipe.writeOpen = false)
    (hfds : (s.sources k).fds = some (r, w)) :
    Wired ({ s with
      table := Function.update s.table r none
      closes := s.closes ++ [(r, true)]
      active := s.active - 1
      main := .dispatch rv (k + 1) }.modify k (Source.retire message)) := by
  have hst : s.main.stage = (MainPc.dispatch rv (k + 1) : MainPc n).stage := by rw [hm]; rfl
  have hg : Going { s with active := s.active - 1, main := .dispatch rv (k + 1) } :=
    going_of_quiet rfl
  have hret : (s.sources k).retired = 0 := (h.draining _ _ _ _ hm).2
  have hfds' := forall_modify (s := s) (i := k) (f := Source.retire message)
    (P := fun j src => src.fds = (s.sources j).fds) rfl fun _ _ => rfl
  refine ⟨forall_modify (P := fun i src => SourceOk (MainPc.dispatch rv (k + 1) : MainPc n).stage
      (Function.update s.table r none) i src) ?_ ?_, ?_, fun _ => ?_, ?_, hg.polling, ?_,
    hg.running⟩
  · rw [← hst]
    exact (h.source k).eof hret hw (by rw [hm]; rfl) hfds _
  · intro j hj
    rw [← hst]
    exact h.others hj hfds (.inl rfl) none
  · intro i j r₁ w₁ r₂ w₂ hij hi hj
    exact h.distinct i j r₁ w₁ r₂ w₂ hij ((hfds' i).symm.trans hi) ((hfds' j).symm.trans hj)
  · have hactive := h.active (by rw [hm]; rfl)
    have hcount := count_retire (s := s) (f := Source.retire message) hret (Nat.succ_ne_zero _)
    show s.active - 1 = (count (fun src : Source => src.retired = 0)
      (s.modify k (Source.retire message)).sources : Int)
    omega
  · intro _ i r₁ w₁ hi
    exact h.handlers (by rw [hm]; rfl) i r₁ w₁ ((hfds' i).symm.trans hi)
  · intro _ _ _ _ hdrain
    cases hdrain

/-- A writer returns. -/
theorem Wired.ret (h : Wired s) {i : Fin n} {r w : Int} (hw : (s.sources i).writer = .events [])
    (hfds : (s.sources i).fds = some (r, w)) :
    Wired ({ s with
      table := Function.update s.table w none
      closes := s.closes ++ [(w, true)] }.modify i fun src =>
        { src with
          pipe := { src.pipe with writeOpen := false }
          param := .none
          capture := .none
          writer := .returned }) :=
  h.move ((h.source i).ret hw hfds) (fun _ hj => h.others hj hfds (.inr rfl) none) rfl rfl id
    h.going

/-- A pair is destroyed: the second close of its read end meets no descriptor. -/
theorem Wired.destroy (h : Wired s) {k : Nat} {r w : Int} (hm : s.main = .destroy (k + 1))
    (hk : k < n) (hfds : (s.sources ⟨k, hk⟩).fds = some (r, w)) :
    Wired ({ s with
      table := Function.update s.table r none
      closes := s.closes ++ [(r, false)]
      main := .destroy k }.modify ⟨k, hk⟩ fun src => { src with pair := ⟨.none, .none⟩ }) := by
  have hold := h.source ⟨k, hk⟩
  rw [hm] at hold
  refine h.move (hold.destroy hfds) (fun j hj => ?_) rfl rfl (fun _ => by rw [hm]; rfl)
    (going_of_quiet rfl)
  have hval : (j : Nat) ≠ k := fun hv => hj (Fin.ext hv)
  have hframe := h.others hj hfds (.inl rfl) none
  rw [hm] at hframe
  refine hframe.stage Iff.rfl Iff.rfl hframe.fresh hframe.left ?_ id
  simp only [MainPc.stage]
  omega

/-! ## Every run -/

theorem Wired.next (h : Wired s) {a : Action n} (hs : Moves events s a t) : Wired t := by
  cases hs with
  | pipe hm hk hr hw hne htr htw => exact h.pipe hm hk hr hw hne htr htw
  | @piped k hm hk =>
    refine h.advance (fun i => ?_) ?_ (going_of_quiet rfl)
    · have hsrc := h.source i
      have hlt := i.isLt
      rw [hm] at hsrc
      refine hsrc.stage ?_ Iff.rfl hsrc.fresh hsrc.left Iff.rfl id
      simp only [MainPc.stage]
      omega
    · intro hst
      cases hst
  | spawn hm hk => exact h.spawned hm hk
  | watch hm hk => exact h.watch hm hk
  | enter hm ha => exact h.mainOnly (by rw [hm]; rfl) ⟨fun _ => ha, by simp, by simp⟩
  | exit hm ha =>
    have hactive := h.active (by rw [hm]; rfl)
    have hzero : count (fun src : Source => src.retired = 0) s.sources = 0 := by omega
    refine h.advance (fun i => ?_) (fun _ => by rw [hm]; rfl) (going_of_quiet rfl)
    have hsrc := h.source i
    rw [hm] at hsrc
    refine hsrc.stage Iff.rfl Iff.rfl ?_ (fun _ => count_eq_zero_iff.mp hzero i) Iff.rfl
      fun _ => rfl
    intro hst
    cases hst
  | idle hm => exact h.mainOnly (by rw [hm]; rfl) (going_of_quiet rfl)
  | ready hm => exact h.mainOnly (by rw [hm]; rfl) (going_of_quiet rfl)
  | skip hm => exact h.mainOnly (by rw [hm]; rfl) (going_of_quiet rfl)
  | pass hm => exact h.mainOnly (by rw [hm]; rfl) (going_of_quiet rfl)
  | @call rv k hm hk =>
    refine h.mainOnly (by rw [hm]; rfl) ⟨by simp, ?_, by simp⟩
    intro rv' k' handler' message' hd
    cases hd
    exact ⟨rfl, hk⟩
  | @line rv k message rest hm hb =>
    have hread := h.modify (f := fun src => { src with
      pipe := { src.pipe with buffer := rest }, reports := src.reports ++ [message] })
      ((h.source k).read _ _) rfl rfl
    have hst : (MainPc.dispatch rv (k + 1) : MainPc n).stage = s.main.stage := by rw [hm]; rfl
    exact hread.mainOnly hst (going_of_quiet rfl)
  | @byte rv k message rest b hm hb hne =>
    have hread := h.modify (f := fun src => { src with pipe := { src.pipe with buffer := rest } })
      ((h.source k).read rest (s.sources k).reports) rfl rfl
    have hst : (MainPc.drain rv k k (message ++ [b])).stage = s.main.stage := by rw [hm]; rfl
    refine hread.mainOnly hst ⟨by simp, ?_, by simp⟩
    intro rv' k' handler' message' hd
    cases hd
    rw [modify_sources_self]
    exact ⟨rfl, (h.draining _ _ _ _ hm).2⟩
  | eof hm hb hw hfds => exact h.eof hm hw hfds
  | join hm => exact h.mainOnly (by rw [hm]; rfl) (going_of_quiet rfl)
  | @joined k hm hk =>
    have hst : (MainPc.destroy n : MainPc n).stage = s.main.stage := by rw [hm]; rfl
    exact h.mainOnly hst (going_of_quiet rfl)
  | destroy hm hk hfds => exact h.destroy hm hk hfds
  | destroyed hm => exact h.mainOnly (by rw [hm]; rfl) (going_of_quiet rfl)
  | start hw => exact h.modify ((h.source _).start hw _) rfl rfl
  | ret hw hfds => exact h.ret hw hfds
  | event hw =>
    exact h.modify ((h.source _).writing (by rw [hw]; rfl) rfl _ _) rfl rfl
  | written hw =>
    exact h.modify ((h.source _).writing (by rw [hw]; rfl) rfl _ _) rfl rfl
  | write hw hpos hle =>
    exact h.modify ((h.source _).writing (by rw [hw]; rfl) rfl _ _) rfl rfl

theorem wired_start : Wired (start n) := by
  have hg : Going (start n) := going_of_quiet rfl
  refine ⟨?_, ?_, ?_, ?_, hg.polling, hg.draining, hg.running⟩
  · intro i
    refine ⟨by simp [start, Source.init, MainPc.stage], fun _ => ⟨rfl, rfl⟩, ?_, ?_, fun _ => rfl,
      ?_, ?_, ?_, ?_, ?_, ?_⟩ <;> simp [start, Source.init, MainPc.stage]
  · intro i j r w r' w' _ hi
    cases hi
  · intro hst
    cases hst
  · intro hst
    cases hst

theorem reachable_wired (h : Machine.Reachable (step events) (start n) s) : Wired s :=
  h.invariant wired_start fun _ hw hs => hw.next (hw.moves hs)

end BackendPatterns.Reactor
