import BackendPatterns.Lib.Frames
import BackendPatterns.Lib.Threads
import BackendPatterns.Reactor.Loop

/-! # Which descriptor is whose

Descriptors are reached through their owners, through the watch list and through
the handler map. As long as these agree with the kernel's table, every system
call of the program meets the pipe it is meant for, and no call fails. -/

namespace BackendPatterns.Reactor
open BackendPatterns.Lib BackendPatterns.Lib.Threads BackendPatterns.Lib.Frames

variable {n : Nat}

theorem IsFd.ne {fd : Int} (h : IsFd fd) : fd ≠ -1 := by
  have hnonneg := h.1
  omega

/-- How far `main` has come with the sources. -/
structure Stage where
  /-- How many pipes are made, and how many writers spawned. -/
  made : Nat
  spawned : Nat
  /-- Whether the watch list is built, and whether the loop is left. -/
  started : Bool
  left : Bool
  /-- How many of the pairs are not destroyed. -/
  kept : Nat

def MainPc.stage : MainPc n → Stage
  | .makePipe k => ⟨k, 0, false, false, n⟩
  | .spawn k => ⟨n, k, false, false, n⟩
  | .loop | .poll | .dispatch _ _ | .drain _ _ _ _ | .failed _ => ⟨n, n, true, false, n⟩
  | .join _ => ⟨n, n, true, true, n⟩
  | .destroy k => ⟨n, n, true, true, k⟩
  | .done => ⟨n, n, true, true, 0⟩

/-- Who owns the write end `w`. -/
def Source.Owner (src : Source) (w : Int) : Prop :=
  match src.writer with
  | .unstarted => src.pair.writeEnd.fd = w ∧ src.capture.fd = -1 ∧ src.param.fd = -1
  | .started => src.pair.writeEnd.fd = -1 ∧ src.capture.fd = w ∧ src.param.fd = -1
  | .events _ | .writing _ _ =>
    src.pair.writeEnd.fd = -1 ∧ src.capture.fd = -1 ∧ src.param.fd = w
  | .returned | .failed =>
    src.pair.writeEnd.fd = -1 ∧ src.capture.fd = -1 ∧ src.param.fd = -1

/-- The descriptors `r` and `w` of source `i`. -/
structure Wires (g : Stage) (table : Int → Option (End n)) (i : Fin n) (src : Source) (r w : Int) :
    Prop where
  readFd : IsFd r
  writeFd : IsFd w
  ne : r ≠ w
  read : table r = if src.pipe.readOpen then some (.read i) else none
  write : table w = if src.pipe.writeOpen then some (.write i) else none
  readEnd : src.pair.readEnd.fd = if i < g.kept then r else -1
  watcher : g.started = true → src.watcher = if src.retired = 0 then r else -1
  owner : src.Owner w

structure SourceOk (g : Stage) (table : Int → Option (End n)) (i : Fin n) (src : Source) :
    Prop where
  made : src.fds.isSome = true ↔ i < g.made
  blank : src.fds = none → src.capture.fd = -1 ∧ src.param.fd = -1
  spawned : src.writer ≠ .unstarted ↔ i < g.spawned
  alive : src.writer ≠ .failed
  fresh : g.started = false → src.retired = 0
  left : g.left = true → src.retired ≠ 0
  readOpen : src.pipe.readOpen = true ↔ src.retired = 0
  writeOpen : src.pipe.writeOpen = true ↔ src.writer ≠ .returned
  late : src.retired ≠ 0 → src.writer = .returned
  once : src.retired ≤ 1
  wires : ∀ r w, src.fds = some (r, w) → Wires g table i src r w

structure Wired (s : State n) : Prop where
  source : ∀ i, SourceOk s.main.stage s.table i (s.sources i)
  distinct : ∀ i j r w r' w', i ≠ j → (s.sources i).fds = some (r, w) →
    (s.sources j).fds = some (r', w') → r ≠ r' ∧ r ≠ w' ∧ w ≠ r' ∧ w ≠ w'
  active : s.main.stage.started = true →
    s.active = count (fun src : Source => src.retired = 0) s.sources
  handlers : s.main.stage.started = true → ∀ i r w, (s.sources i).fds = some (r, w) →
    s.handlers.lookup r = some i
  polling : s.main = .poll → 0 < s.active
  draining : ∀ rv k h msg, s.main = .drain rv k h msg → h = k ∧ (s.sources k).retired = 0
  running : ∀ what, s.main ≠ .failed what

variable {s t : State n} {events : Fin n → List Bytes}

/-- A source that is past its `make_pipe` has descriptors. -/
theorem SourceOk.fds {g : Stage} {table : Int → Option (End n)} {i : Fin n} {src : Source}
    (h : SourceOk g table i src) (hi : i < g.made) : ∃ r w, src.fds = some (r, w) := by
  obtain ⟨⟨r, w⟩, hrw⟩ := Option.isSome_iff_exists.mp (h.made.mpr hi)
  exact ⟨r, w, hrw⟩

/-- Before its `make_pipe`, a source has none. -/
theorem SourceOk.unmade {g : Stage} {table : Int → Option (End n)} {i : Fin n} {src : Source}
    (h : SourceOk g table i src) (hi : ¬ i < g.made) : src.fds = none := by
  have hsome := mt h.made.mp hi
  simpa using hsome

theorem SourceOk.unstarted {g : Stage} {table : Int → Option (End n)} {i : Fin n} {src : Source}
    (h : SourceOk g table i src) (hi : ¬ i < g.spawned) : src.writer = .unstarted := by
  by_contra hne
  exact hi (h.spawned.mp hne)

theorem stage_made {pc : MainPc n} (h : pc.stage.started = true) : pc.stage.made = n := by
  cases pc <;> first | rfl | cases h

/-- A source after the call of its handler that met the end of the stream. -/
def Source.retire (message : Bytes) (src : Source) : Source :=
  { src with
    pipe := { src.pipe with readOpen := false }
    watcher := -1
    reports := src.reports ++ fragment message
    retired := src.retired + 1 }

/-- What the steps do, with every system call resolved. -/
inductive Moves (events : Fin n → List Bytes) (s : State n) : Action n → State n → Prop
  | pipe {k : Nat} {r w : Int} (hm : s.main = .makePipe k) (hk : k < n) (hr : IsFd r) (hw : IsFd w)
      (hne : r ≠ w) (htr : s.table r = none) (htw : s.table w = none) :
      Moves events s (.pipe r w) ({ s with
        table := Function.update (Function.update s.table r (some (.read ⟨k, hk⟩))) w
          (some (.write ⟨k, hk⟩))
        main := .makePipe (k + 1) }.modify ⟨k, hk⟩ fun src =>
          { src with pair := ⟨⟨r⟩, ⟨w⟩⟩, fds := some (r, w) })
  | piped {k : Nat} (hm : s.main = .makePipe k) (hk : n ≤ k) :
      Moves events s .main { s with main := .spawn 0 }
  | spawn {k : Nat} (hm : s.main = .spawn k) (hk : k < n) :
      Moves events s .main (s.spawn ⟨k, hk⟩)
  | watch {k : Nat} (hm : s.main = .spawn k) (hk : n ≤ k) : Moves events s .main s.watch
  | enter (hm : s.main = .loop) (ha : 0 < s.active) :
      Moves events s .main { s with main := .poll }
  | exit (hm : s.main = .loop) (ha : ¬ 0 < s.active) :
      Moves events s .main { s with main := .join 0 }
  | idle {rv : Fin n → Revents} (hm : s.main = .poll) :
      Moves events s (.poll rv) { s with main := .loop }
  | ready {rv : Fin n → Revents} (hm : s.main = .poll) :
      Moves events s (.poll rv) { s with main := .dispatch rv 0 }
  | skip {rv : Fin n → Revents} {k : Nat} (hm : s.main = .dispatch rv k) :
      Moves events s .main { s with main := .dispatch rv (k + 1) }
  | pass {rv : Fin n → Revents} {k : Nat} (hm : s.main = .dispatch rv k) :
      Moves events s .main { s with main := .loop }
  | call {rv : Fin n → Revents} {k : Fin n} (hm : s.main = .dispatch rv k)
      (hk : (s.sources k).retired = 0) :
      Moves events s .main { s with main := .drain rv k k [] }
  | line {rv : Fin n → Revents} {k : Fin n} {message rest : Bytes}
      (hm : s.main = .drain rv k k message)
      (hb : (s.sources k).pipe.buffer = newline :: rest) :
      Moves events s .main ({ s with main := .dispatch rv (k + 1) }.modify k fun src =>
        { src with
          pipe := { src.pipe with buffer := rest }
          reports := src.reports ++ [message] })
  | byte {rv : Fin n → Revents} {k : Fin n} {message rest : Bytes} {b : UInt8}
      (hm : s.main = .drain rv k k message) (hb : (s.sources k).pipe.buffer = b :: rest)
      (hne : b ≠ newline) :
      Moves events s .main ({ s with main := .drain rv k k (message ++ [b]) }.modify k fun src =>
        { src with pipe := { src.pipe with buffer := rest } })
  | eof {rv : Fin n → Revents} {k : Fin n} {message : Bytes} {r w : Int}
      (hm : s.main = .drain rv k k message) (hb : (s.sources k).pipe.buffer = [])
      (hw : (s.sources k).pipe.writeOpen = false) (hfds : (s.sources k).fds = some (r, w)) :
      Moves events s .main ({ s with
        table := Function.update s.table r none
        closes := s.closes ++ [(r, true)]
        active := s.active - 1
        main := .dispatch rv (k + 1) }.modify k (Source.retire message))
  | join {k : Nat} (hm : s.main = .join k) (hk : k < n)
      (hw : (s.sources ⟨k, hk⟩).writer = .returned) :
      Moves events s .main { s with main := .join (k + 1) }
  | joined {k : Nat} (hm : s.main = .join k) (hk : n ≤ k) :
      Moves events s .main { s with main := .destroy n }
  | destroy {k : Nat} {r w : Int} (hm : s.main = .destroy (k + 1)) (hk : k < n)
      (hfds : (s.sources ⟨k, hk⟩).fds = some (r, w)) :
      Moves events s .main ({ s with
        table := Function.update s.table r none
        closes := s.closes ++ [(r, false)]
        main := .destroy k }.modify ⟨k, hk⟩ fun src => { src with pair := ⟨.none, .none⟩ })
  | destroyed (hm : s.main = .destroy 0) : Moves events s .main { s with main := .done }
  | start {i : Fin n} {amount : Nat} (hw : (s.sources i).writer = .started) :
      Moves events s (.writer i amount) (s.modify i fun src =>
        { src with param := ⟨src.capture.fd⟩, capture := .none, writer := .events (events i) })
  | ret {i : Fin n} {amount : Nat} {r w : Int} (hw : (s.sources i).writer = .events [])
      (hfds : (s.sources i).fds = some (r, w)) :
      Moves events s (.writer i amount) ({ s with
        table := Function.update s.table w none
        closes := s.closes ++ [(w, true)] }.modify i fun src =>
          { src with
            pipe := { src.pipe with writeOpen := false }
            param := .none
            capture := .none
            writer := .returned })
  | event {i : Fin n} {amount : Nat} {payload : Bytes} {rest : List Bytes}
      (hw : (s.sources i).writer = .events (payload :: rest)) :
      Moves events s (.writer i amount) (s.modify i fun src =>
        { src with writer := .writing (payload ++ [newline]) rest })
  | written {i : Fin n} {amount : Nat} {rest : List Bytes}
      (hw : (s.sources i).writer = .writing [] rest) :
      Moves events s (.writer i amount) (s.modify i fun src => { src with writer := .events rest })
  | write {i : Fin n} {amount : Nat} {data : Bytes} {rest : List Bytes}
      (hw : (s.sources i).writer = .writing data rest) (hpos : 0 < amount)
      (hle : amount ≤ data.length) :
      Moves events s (.writer i amount) (s.modify i fun src =>
        { src with
          pipe := { src.pipe with buffer := src.pipe.buffer ++ data.take amount }
          written := src.written ++ data.take amount
          writer := .writing (data.drop amount) rest })

@[simp] theorem modify_modify (s : State n) (i : Fin n) (f g : Source → Source) :
    (s.modify i f).modify i g = s.modify i (g ∘ f) := by
  simp [State.modify]

@[simp] theorem modify_sources_self (s : State n) (i : Fin n) (f : Source → Source) :
    (s.modify i f).sources i = f (s.sources i) := by
  simp [State.modify]

theorem modify_sources_of_ne (s : State n) {i j : Fin n} (f : Source → Source) (h : j ≠ i) :
    (s.modify i f).sources j = s.sources j := by
  simp [State.modify, h]

/-- Closing an open read end. -/
theorem close_read {fd : Int} {i : Fin n} (h : s.table fd = some (.read i)) :
    s.close fd = { s with
      table := Function.update s.table fd none
      closes := s.closes ++ [(fd, true)] }.modify i fun src =>
        { src with pipe := { src.pipe with readOpen := false } } := by
  simp [State.close, h]

theorem close_write {fd : Int} {i : Fin n} (h : s.table fd = some (.write i)) :
    s.close fd = { s with
      table := Function.update s.table fd none
      closes := s.closes ++ [(fd, true)] }.modify i fun src =>
        { src with pipe := { src.pipe with writeOpen := false } } := by
  simp [State.close, h]

/-- Closing a descriptor that is not open. -/
theorem close_none {fd : Int} (h : s.table fd = none) :
    s.close fd = { s with
      table := Function.update s.table fd none
      closes := s.closes ++ [(fd, false)] } := by
  simp [State.close, h]

/-- Retiring a slot closes its read end, which is open. -/
theorem retire_eq {rv : Fin n → Revents} {k : Fin n} {r : Int}
    (hwatch : (s.sources k).watcher = r) (hread : s.table r = some (.read k)) :
    s.retire rv k = { s with
      table := Function.update s.table r none
      closes := s.closes ++ [(r, true)]
      active := s.active - 1
      main := .dispatch rv (k + 1) }.modify k fun src =>
        { src with
          pipe := { src.pipe with readOpen := false }
          watcher := -1
          retired := src.retired + 1 } := by
  rw [State.retire, hwatch, close_read hread, modify_modify]
  rfl

theorem reset_none {u : UniqueFd} (h : u.fd = -1) : s.reset u = s := if_pos h

theorem reset_fd {u : UniqueFd} {fd : Int} (h : u.fd = fd) (hne : fd ≠ -1) :
    s.reset u = s.close fd := by
  rw [State.reset, h, if_neg hne]

/-! ## Every system call meets its pipe -/

/-- The descriptor of a running writer is the write end of its own pipe. -/
theorem Wired.writer (h : Wired s) {i : Fin n} (hu : (s.sources i).writer ≠ .unstarted)
    (hr : (s.sources i).writer ≠ .returned) (hs : (s.sources i).writer ≠ .started) :
    ∃ r w, (s.sources i).fds = some (r, w) ∧ (s.sources i).param.fd = w ∧ w ≠ -1 ∧
      (s.sources i).capture.fd = -1 ∧ s.table w = some (.write i) ∧
      (s.sources i).pipe.readOpen = true := by
  have hsrc := h.source i
  have hi : (i : Nat) < s.main.stage.made := by
    have hlt := hsrc.spawned.mp hu
    cases hm : s.main <;> simp_all [MainPc.stage]
  obtain ⟨r, w, hfds⟩ := hsrc.fds hi
  have hwires := hsrc.wires r w hfds
  have howner := hwires.owner
  have hopen : (s.sources i).pipe.readOpen = true :=
    hsrc.readOpen.mpr (Classical.byContradiction fun hne => hr (hsrc.late hne))
  have hwrite : s.table w = some (.write i) := by
    rw [hwires.write, hsrc.writeOpen.mpr hr, if_pos rfl]
  have halive := hsrc.alive
  unfold Source.Owner at howner
  cases hw : (s.sources i).writer with
  | events rest =>
    rw [hw] at howner
    exact ⟨r, w, hfds, howner.2.2, hwires.writeFd.ne, howner.2.1, hwrite, hopen⟩
  | writing data rest =>
    rw [hw] at howner
    exact ⟨r, w, hfds, howner.2.2, hwires.writeFd.ne, howner.2.1, hwrite, hopen⟩
  | unstarted => exact absurd hw hu
  | started => exact absurd hw hs
  | returned => exact absurd hw hr
  | failed => exact absurd hw halive

/-- The descriptor in a slot that is not retired is the read end of its source. -/
theorem Wired.slot (h : Wired s) (hst : s.main.stage.started = true) {k : Fin n}
    (hk : (s.sources k).retired = 0) :
    ∃ r w, (s.sources k).fds = some (r, w) ∧ (s.sources k).watcher = r ∧ r ≠ -1 ∧
      s.table r = some (.read k) ∧ s.handlers.lookup r = some k := by
  have hsrc := h.source k
  obtain ⟨r, w, hfds⟩ := hsrc.fds (by rw [stage_made hst]; exact k.isLt)
  have hwires := hsrc.wires r w hfds
  refine ⟨r, w, hfds, ?_, hwires.readFd.ne, ?_, h.handlers hst k r w hfds⟩
  · rw [hwires.watcher hst, if_pos hk]
  · rw [hwires.read, hsrc.readOpen.mpr hk, if_pos rfl]

theorem Wired.dispatch_moves (h : Wired s) {rv : Fin n → Revents} {k : Nat}
    (hm : s.main = .dispatch rv k) : Moves events s .main (s.dispatch rv k) := by
  have hst : s.main.stage.started = true := by rw [hm]; rfl
  unfold State.dispatch
  split
  · rename_i hk
    simp only
    split
    · exact .skip hm
    · rename_i hskip
      have hretired : (s.sources ⟨k, hk⟩).retired = 0 := by
        by_contra hne
        have hsrc := h.source ⟨k, hk⟩
        obtain ⟨r, w, hfds⟩ := hsrc.fds (by rw [stage_made hst]; exact hk)
        have hwatch := (hsrc.wires r w hfds).watcher hst
        rw [if_neg hne] at hwatch
        exact hskip (.inl hwatch)
      obtain ⟨r, w, _, hwatch, _, _, hlookup⟩ := h.slot hst hretired
      rw [hwatch, hlookup]
      exact .call (k := ⟨k, hk⟩) hm hretired
  · exact .pass hm

theorem Wired.drain_moves (h : Wired s) {rv : Fin n → Revents} {k handler : Fin n}
    {message : Bytes} (hm : s.main = .drain rv k handler message)
    (hs : s.drain rv k handler message = some t) : Moves events s .main t := by
  obtain ⟨rfl, hk⟩ := h.draining _ _ _ _ hm
  have hst : s.main.stage.started = true := by rw [hm]; rfl
  obtain ⟨r, w, hfds, hwatch, hne, hread, -⟩ := h.slot hst hk
  unfold State.drain at hs
  simp only [hwatch, State.read, hread] at hs
  cases hb : (s.sources handler).pipe.buffer with
  | cons b rest =>
    simp only [hb] at hs
    split at hs
    · rename_i hnl
      cases hs
      subst hnl
      simp only [State.report, modify_modify]
      exact .line hm hb
    · rename_i hnl
      cases hs
      exact .byte hm hb hnl
  | nil =>
    simp only [hb] at hs
    cases hw : (s.sources handler).pipe.writeOpen with
    | true =>
      simp only [hw, if_true] at hs
      cases hs
    | false =>
      simp only [hw, Bool.false_eq_true, if_false] at hs
      cases hs
      have hmove : Moves events s .main _ := .eof hm hb hw hfds
      split
      · rename_i hnil
        rw [hnil] at hmove
        rw [retire_eq hwatch hread]
        convert hmove using 1
        simp [State.modify, Source.retire, fragment]
      · rename_i hnil
        rw [retire_eq (s := s.report handler message) (by simp [State.report, hwatch]) hread]
        convert hmove using 1
        simp [State.report, State.modify, Source.retire, fragment, hnil]

theorem Wired.writer_moves (h : Wired s) {i : Fin n} {amount : Nat}
    (hs : s.writerStep (events i) i amount = some t) : Moves events s (.writer i amount) t := by
  unfold State.writerStep at hs
  simp only at hs
  cases hw : (s.sources i).writer with
  | unstarted => rw [hw] at hs; cases hs
  | returned => rw [hw] at hs; cases hs
  | failed => rw [hw] at hs; cases hs
  | started =>
    rw [hw] at hs
    cases hs
    exact .start hw
  | events rest =>
    obtain ⟨r, w, hfds, hparam, hne, hcapture, hwrite, _⟩ :=
      h.writer (i := i) (by simp [hw]) (by simp [hw]) (by simp [hw])
    cases rest with
    | nil =>
      rw [hw] at hs
      cases hs
      rw [reset_fd hparam hne, close_write hwrite, reset_none hcapture, modify_modify]
      exact .ret hw hfds
    | cons payload rest =>
      rw [hw] at hs
      cases hs
      exact .event hw
  | writing data rest =>
    obtain ⟨r, w, hfds, hparam, hne, hcapture, hwrite, hopen⟩ :=
      h.writer (i := i) (by simp [hw]) (by simp [hw]) (by simp [hw])
    cases data with
    | nil =>
      rw [hw] at hs
      cases hs
      exact .written hw
    | cons b data =>
      rw [hw] at hs
      simp only at hs
      split at hs
      · rename_i hle
        simp only [State.write, hparam, hwrite, hopen, if_true, modify_modify] at hs
        cases hs
        exact .write hw hle.1 hle.2
      · cases hs

/-- The destructor of a pair finds its write end moved from and its read end
already closed by the loop. -/
theorem Wired.destroy_moves (h : Wired s) {k : Nat} (hm : s.main = .destroy (k + 1)) (hk : k < n) :
    Moves events s .main (s.destroyPair ⟨k, hk⟩) := by
  have hsrc := h.source ⟨k, hk⟩
  rw [hm] at hsrc
  obtain ⟨r, w, hfds⟩ := hsrc.fds hk
  have hwires := hsrc.wires r w hfds
  have hretired := hsrc.left rfl
  have howner := hwires.owner
  rw [Source.Owner, hsrc.late hretired] at howner
  have hread : s.table r = none := by
    rw [hwires.read, if_neg (mt hsrc.readOpen.mp hretired)]
  have hkept : (s.sources ⟨k, hk⟩).pair.readEnd.fd = r :=
    hwires.readEnd.trans (if_pos (Nat.lt_succ_self k))
  rw [State.destroyPair, reset_none howner.1, reset_fd hkept hwires.readFd.ne, close_none hread]
  exact .destroy hm hk hfds

theorem Wired.main_moves (h : Wired s) (hs : s.mainStep = some t) : Moves events s .main t := by
  unfold State.mainStep at hs
  split at hs
  · rename_i k hm
    split at hs
    · cases hs
    · rename_i hk
      cases hs
      exact .piped hm (Nat.le_of_not_lt hk)
  · rename_i k hm
    split at hs
    · rename_i hk
      cases hs
      exact .spawn hm hk
    · rename_i hk
      cases hs
      exact .watch hm (Nat.le_of_not_lt hk)
  · rename_i hm
    split at hs
    · rename_i ha
      cases hs
      exact .enter hm ha
    · rename_i ha
      cases hs
      exact .exit hm ha
  · cases hs
  · rename_i rv k hm
    cases hs
    exact h.dispatch_moves hm
  · rename_i rv k handler message hm
    exact h.drain_moves hm hs
  · rename_i k hm
    split at hs
    · rename_i hk
      split at hs
      · rename_i hw
        cases hs
        exact .join hm hk hw
      · cases hs
    · rename_i hk
      cases hs
      exact .joined hm (Nat.le_of_not_lt hk)
  · rename_i hm
    cases hs
    exact .destroyed hm
  · rename_i k hm
    split at hs
    · rename_i hk
      cases hs
      exact h.destroy_moves hm hk
    · cases hs
  · cases hs
  · cases hs

theorem Wired.moves (h : Wired s) {a : Action n} (hs : step events s a = some t) :
    Moves events s a t := by
  cases a with
  | pipe r w =>
    simp only [step] at hs
    split at hs
    · rename_i k hm
      split at hs
      · rename_i hk
        simp only [State.makePipe, Option.ite_none_right_eq_some, Option.some.injEq] at hs
        obtain ⟨⟨hr, hw, hne, htr, htw⟩, rfl⟩ := hs
        exact .pipe hm hk hr hw hne htr htw
      · cases hs
    · cases hs
  | poll rv =>
    simp only [step] at hs
    split at hs
    · rename_i hm
      cases hs
      unfold State.poll
      split
      · exact .ready hm
      · exact .idle hm
    · cases hs
  | main => exact h.main_moves hs
  | writer i amount => exact h.writer_moves hs

end BackendPatterns.Reactor
