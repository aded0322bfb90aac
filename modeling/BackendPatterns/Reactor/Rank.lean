import Mathlib.Algebra.BigOperators.Ring.Finset
import Mathlib.Algebra.Order.BigOperators.Group.Finset
import BackendPatterns.Reactor.Streams

/-! # What the reactor still has to do

A round of the loop that is not idle calls a handler, and a handler reads a byte
or the end of a stream. So the bytes that are not read yet and the streams that
have not ended bound the rounds, and with them the steps of `main`. -/

namespace BackendPatterns.Reactor
open BackendPatterns.Lib BackendPatterns.Lib.Threads BackendPatterns.Lib.Frames

variable {n : Nat} {s t : State n} {events : Fin n → List Bytes}

/-- A slot whose handler the rest of the round calls. -/
def Due (sources : Fin n → Source) (rv : Fin n → Revents) (k : Nat) : Prop :=
  ∃ i : Fin n, k ≤ i ∧ (sources i).retired = 0 ∧ (rv i).any = true

instance (sources : Fin n → Source) (rv : Fin n → Revents) (k : Nat) :
    Decidable (Due sources rv k) :=
  inferInstanceAs (Decidable (∃ _, _))

/-- The reads of one source to come: its bytes, and the end of its stream. -/
def Source.reads (events : List Bytes) (src : Source) : Nat :=
  (src.writer.pending events).length + src.pipe.buffer.length + if src.retired = 0 then 1 else 0

/-- The steps of a writer with the events `rest` to come. -/
def eventsRank (rest : List Bytes) : Nat := (rest.map fun payload => payload.length + 3).sum + 1

def writerRank (events : List Bytes) : WriterPc → Nat
  | .unstarted | .started => eventsRank events + 1
  | .events rest => eventsRank rest
  | .writing data rest => data.length + 1 + eventsRank rest
  | .returned | .failed => 0

/-- The steps of `main`, with `r` reads to come. -/
def mainRank (sources : Fin n → Source) (r : Nat) : MainPc n → Nat
  | .makePipe k => (2 * n + 3) * r + (n - k) + 3 * n + 6
  | .spawn k => (2 * n + 3) * r + (n - k) + 2 * n + 5
  | .loop => (2 * n + 3) * r + 2 * n + 4
  | .poll => (2 * n + 3) * r + 2 * n + 3
  | .dispatch rv k =>
    (2 * n + 3) * (if Due sources rv k then r - 1 else r) + 2 * (n - k) + 2 * n + 5
  | .drain _ k _ message =>
    if message = [] then (2 * n + 3) * (r - 1) + 2 * (n - k) + 2 * n + 4
    else (2 * n + 3) * r + 2 * (n - k) + 2 * n + 3
  | .join k => (n - k) + n + 3
  | .destroy k => k + 1
  | .done | .failed _ => 0

def State.reads (events : Fin n → List Bytes) (s : State n) : Nat :=
  ∑ i, (s.sources i).reads (events i)

def State.writes (events : Fin n → List Bytes) (s : State n) : Nat :=
  ∑ i, writerRank (events i) (s.sources i).writer

def State.rank (events : Fin n → List Bytes) (s : State n) : Nat :=
  s.writes events + mainRank s.sources (s.reads events) s.main

/-! ## The parts -/

variable (events) in
/-- One source is touched. -/
theorem reads_touch {i : Fin n} {f : Source → Source} (ht : t.sources = (s.modify i f).sources) :
    t.reads events + (s.sources i).reads (events i) =
      s.reads events + (f (s.sources i)).reads (events i) := by
  have h := sum_of_ne (i := i) (f := fun j => (s.sources j).reads (events j))
    (g := fun j => (t.sources j).reads (events j)) fun j hj => by
      rw [ht, modify_sources_of_ne _ _ hj]
  rwa [ht, modify_sources_self, ← ht] at h

variable (events) in
theorem writes_touch {i : Fin n} {f : Source → Source} (ht : t.sources = (s.modify i f).sources) :
    t.writes events + writerRank (events i) (s.sources i).writer =
      s.writes events + writerRank (events i) (f (s.sources i)).writer := by
  have h := sum_of_ne (i := i) (f := fun j => writerRank (events j) (s.sources j).writer)
    (g := fun j => writerRank (events j) (t.sources j).writer) fun j hj => by
      rw [ht, modify_sources_of_ne _ _ hj]
  rwa [ht, modify_sources_self, ← ht] at h

/-- A touched source keeps its `retired`: the same handlers are due. -/
theorem due_modify {s : State n} {i : Fin n} {f : Source → Source}
    (h : (f (s.sources i)).retired = (s.sources i).retired) (rv : Fin n → Revents) (k : Nat) :
    Due (s.modify i f).sources rv k ↔ Due s.sources rv k := by
  have hsame : ∀ j, ((s.modify i f).sources j).retired = (s.sources j).retired :=
    forall_modify (P := fun j src => src.retired = (s.sources j).retired) h fun _ _ => rfl
  simp only [Due, hsame]

theorem mainRank_modify {s : State n} {i : Fin n} {f : Source → Source}
    (h : (f (s.sources i)).retired = (s.sources i).retired) (r : Nat) (pc : MainPc n) :
    mainRank (s.modify i f).sources r pc = mainRank s.sources r pc := by
  cases pc with
  | dispatch rv k => simp only [mainRank, due_modify h]
  | _ => rfl

/-- A writer moves, and moves its bytes on. -/
theorem rank_writer {i : Fin n} {f : Source → Source}
    (hret : (f (s.sources i)).retired = (s.sources i).retired)
    (hreads : (f (s.sources i)).reads (events i) = (s.sources i).reads (events i))
    (hlt : writerRank (events i) (f (s.sources i)).writer <
      writerRank (events i) (s.sources i).writer) :
    (s.modify i f).rank events < s.rank events := by
  have hr := reads_touch (t := s.modify i f) events rfl
  have hw := writes_touch (t := s.modify i f) events rfl
  have heq : (s.modify i f).reads events = s.reads events := by omega
  unfold State.rank
  rw [heq, mainRank_modify hret]
  show _ + mainRank s.sources _ s.main < _
  omega

/-- `main` moves, and touches one source. -/
theorem rank_touch {i : Fin n} {f : Source → Source} (ht : t.sources = (s.modify i f).sources)
    (hret : (f (s.sources i)).retired = (s.sources i).retired)
    (hreads : (f (s.sources i)).reads (events i) = (s.sources i).reads (events i))
    (hwrites : writerRank (events i) (f (s.sources i)).writer =
      writerRank (events i) (s.sources i).writer)
    (hlt : mainRank s.sources (s.reads events) t.main <
      mainRank s.sources (s.reads events) s.main) : t.rank events < s.rank events := by
  have hr : t.reads events = s.reads events := by
    have hsum := reads_touch events ht
    omega
  have hw : t.writes events = s.writes events := by
    have hsum := writes_touch events ht
    omega
  unfold State.rank
  rw [hr, hw, ht, mainRank_modify hret]
  omega

/-! ## The steps of `main` -/

/-- A slot is watched until it is retired. -/
theorem Wired.live (h : Wired s) (hst : s.main.stage.started = true) (i : Fin n) :
    (s.sources i).watcher ≠ -1 ↔ (s.sources i).retired = 0 := by
  have hsrc := h.source i
  obtain ⟨r, w, hfds⟩ := hsrc.fds (by rw [stage_made hst]; exact i.isLt)
  have hwires := hsrc.wires r w hfds
  rw [hwires.watcher hst]
  split
  · rename_i hret
    exact ⟨fun _ => hret, fun _ => hwires.readFd.ne⟩
  · rename_i hret
    exact ⟨fun hne => absurd rfl hne, fun hzero => absurd hzero hret⟩

/-- A slot that is passed over was not due. -/
theorem due_succ {sources : Fin n → Source} {rv : Fin n → Revents} {k : Nat} {hk : k < n}
    (h : ¬ ((sources ⟨k, hk⟩).retired = 0 ∧ (rv ⟨k, hk⟩).any = true)) :
    Due sources rv k ↔ Due sources rv (k + 1) := by
  constructor
  · rintro ⟨i, hi, hdue⟩
    refine ⟨i, Nat.lt_of_le_of_ne hi ?_, hdue⟩
    rintro rfl
    exact h hdue
  · rintro ⟨i, hi, hdue⟩
    exact ⟨i, Nat.le_of_succ_le hi, hdue⟩

theorem rank_dispatch (h : Wired s) {rv : Fin n → Revents} {k : Nat}
    (hm : s.main = .dispatch rv k) : (s.dispatch rv k).rank events < s.rank events := by
  have hst : s.main.stage.started = true := by rw [hm]; rfl
  unfold State.dispatch
  split
  · rename_i hk
    simp only
    split
    · rename_i hskip
      have hnot : ¬ ((s.sources ⟨k, hk⟩).retired = 0 ∧ (rv ⟨k, hk⟩).any = true) := by
        rintro ⟨hret, hany⟩
        obtain hfd | hnone := hskip
        · exact (h.live hst _).mpr hret hfd
        · rw [hany] at hnone
          cases hnone
      show s.writes events + mainRank s.sources (s.reads events) (.dispatch rv (k + 1)) < _
      simp only [State.rank, hm, mainRank, due_succ hnot]
      omega
    · rename_i hcall
      simp only [not_or, Bool.not_eq_false] at hcall
      have hret := (h.live hst ⟨k, hk⟩).mp hcall.1
      have hdue : Due s.sources rv k := ⟨⟨k, hk⟩, Nat.le_refl k, hret, hcall.2⟩
      obtain ⟨r, w, _, hwatch, _, _, hlookup⟩ := h.slot hst hret
      rw [hwatch, hlookup]
      show s.writes events + mainRank s.sources (s.reads events) (.drain rv ⟨k, hk⟩ ⟨k, hk⟩ []) < _
      simp only [State.rank, hm, mainRank, hdue, if_true]
      omega
  · rename_i hk
    have hnot : ¬ Due s.sources rv k := fun ⟨i, hi, _⟩ => hk (hi.trans_lt i.isLt)
    show s.writes events + mainRank s.sources (s.reads events) .loop < _
    simp only [State.rank, hm, mainRank, hnot, if_false]
    omega

theorem mainRank_dispatch_le (sources : Fin n → Source) (r : Nat) (rv : Fin n → Revents) (k : Nat) :
    mainRank sources r (.dispatch rv k) ≤ (2 * n + 3) * r + 2 * (n - k) + 2 * n + 5 := by
  have hle : (2 * n + 3) * (if Due sources rv k then r - 1 else r) ≤ (2 * n + 3) * r := by
    refine Nat.mul_le_mul_left _ ?_
    split
    · exact Nat.sub_le r 1
    · exact Nat.le_refl r
  simp only [mainRank]
  omega

/-- A read of source `k` takes what there was to read: the round's slot is over,
or goes on. -/
theorem rank_read {rv : Fin n → Revents} {k : Fin n} {message : Bytes} {f : Source → Source}
    (hm : s.main = .drain rv k k message) (ht : t.sources = (s.modify k f).sources)
    (hf : (s.sources k).reads (events k) = (f (s.sources k)).reads (events k) + 1)
    (hwriter : (f (s.sources k)).writer = (s.sources k).writer)
    (hle : mainRank t.sources (t.reads events) t.main ≤
      (2 * n + 3) * t.reads events + 2 * (n - k) + 2 * n + 3) : t.rank events < s.rank events := by
  have hr : s.reads events = t.reads events + 1 := by
    have hsum := reads_touch events ht
    omega
  have hw : t.writes events = s.writes events := by
    have hsum := writes_touch events ht
    rw [hwriter] at hsum
    omega
  have hdrain : (2 * n + 3) * t.reads events + 2 * (n - k) + 2 * n + 4 ≤
      mainRank s.sources (s.reads events) s.main := by
    rw [hm]
    simp only [mainRank, hr, Nat.add_sub_cancel, Nat.mul_succ]
    split <;> omega
  unfold State.rank
  omega

/-- A poll that reports something begins a round with a handler to call. -/
theorem rank_poll (h : Wired s) {rv : Fin n → Revents} (hm : s.main = .poll) {i : Fin n}
    (hwatch : (s.sources i).watcher ≠ -1) (hany : (rv i).any = true) :
    (s.poll rv).rank events < s.rank events := by
  have hret := (h.live (by rw [hm]; rfl) i).mp hwatch
  have hdue : Due s.sources rv 0 := ⟨i, Nat.zero_le _, hret, hany⟩
  have hpos : 0 < s.reads events := by
    have hle : (s.sources i).reads (events i) ≤ s.reads events :=
      Finset.single_le_sum (f := fun j => (s.sources j).reads (events j))
        (fun _ _ => Nat.zero_le _) (Finset.mem_univ i)
    rw [Source.reads, if_pos hret] at hle
    omega
  obtain ⟨r, hr⟩ := Nat.exists_eq_succ_of_ne_zero (Nat.ne_of_gt hpos)
  rw [State.poll, if_pos ⟨i, hwatch, hany⟩]
  show s.writes events + mainRank s.sources (s.reads events) (.dispatch rv 0) < _
  simp only [State.rank, hm, mainRank, hdue, if_true, hr, Nat.succ_sub_one, Nat.mul_succ]
  omega

/-- A poll that reports nothing. -/
def Action.idle : Action n → Prop
  | .poll rv => ∀ i, (rv i).any = false
  | _ => False

instance : DecidablePred (Action.idle (n := n)) := fun a =>
  match a with
  | .poll rv => inferInstanceAs (Decidable (∀ i, (rv i).any = false))
  | .pipe _ _ | .main | .writer _ _ => isFalse id

/-- There is something to read, be it the end. -/
def Pipe.ready (p : Pipe) : Prop := p.buffer ≠ [] ∨ p.writeOpen = false

instance (p : Pipe) : Decidable p.ready := inferInstanceAs (Decidable (_ ∨ _))

/-- `poll` reports only what is so, and nothing for a slot whose `fd` is -1. -/
def Honest (s : State n) : Action n → Prop
  | .poll rv => ∀ i, (rv i).any = true → (s.sources i).watcher ≠ -1 ∧ (s.sources i).pipe.ready
  | _ => True

instance (s : State n) (a : Action n) : Decidable (Honest s a) :=
  match a with
  | .poll rv => inferInstanceAs (Decidable (∀ i, (rv i).any = true → _))
  | .pipe _ _ | .main | .writer _ _ => isTrue trivial

theorem rank_round (h : Wired s) {rv : Fin n → Revents} {k : Nat} (hm : s.main = .dispatch rv k)
    (hs : step events s .main = some t) : t.rank events < s.rank events := by
  have hround : step events s .main = some (s.dispatch rv k) := by
    simp only [step, State.mainStep, hm]
  cases hround.symm.trans hs
  exact rank_dispatch h hm

theorem rank_honest (h : Wired s) {rv : Fin n → Revents} (hm : s.main = .poll)
    (ha : ¬ Action.idle (.poll rv)) (hhonest : Honest s (.poll rv))
    (hs : step events s (.poll rv) = some t) : t.rank events < s.rank events := by
  have hpoll : step events s (.poll rv) = some (s.poll rv) := by simp only [step, hm]
  cases hpoll.symm.trans hs
  obtain ⟨i, hi⟩ := Classical.not_forall.mp ha
  have hany : (rv i).any = true := by simpa using hi
  exact rank_poll h hm (hhonest i hany).1 hany

theorem rank_fair (h : Wired s) {a : Action n} (ha : ¬ a.idle) (hhonest : Honest s a)
    (hs : step events s a = some t) : t.rank events < s.rank events := by
  cases h.moves hs with
  | @pipe k r w hm hk =>
    refine rank_touch (i := ⟨k, hk⟩)
      (f := fun src => { src with pair := ⟨⟨r⟩, ⟨w⟩⟩, fds := some (r, w) }) rfl rfl rfl rfl ?_
    show mainRank s.sources (s.reads events) (.makePipe (k + 1)) < _
    simp only [hm, mainRank]
    omega
  | piped hm hk =>
    show s.writes events + mainRank s.sources (s.reads events) (.spawn 0) < _
    simp only [State.rank, hm, mainRank]
    omega
  | @spawn k hm hk =>
    have hun : (s.sources ⟨k, hk⟩).writer = .unstarted :=
      (h.source ⟨k, hk⟩).unstarted (by rw [hm]; exact Nat.lt_irrefl k)
    refine rank_touch (i := ⟨k, hk⟩) (f := fun src => { src with
      capture := ⟨src.pair.writeEnd.fd⟩
      pair := { src.pair with writeEnd := .none }
      writer := .started }) rfl rfl ?_ ?_ ?_
    · simp [Source.reads, hun, WriterPc.pending]
    · simp [hun, writerRank]
    · show mainRank s.sources (s.reads events) (.spawn (k + 1)) < _
      simp only [hm, mainRank]
      omega
  | watch hm hk =>
    show s.writes events + mainRank s.sources (s.reads events) .loop < _
    simp only [State.rank, hm, mainRank]
    omega
  | enter hm =>
    show s.writes events + mainRank s.sources (s.reads events) .poll < _
    simp only [State.rank, hm, mainRank]
    omega
  | exit hm =>
    show s.writes events + mainRank s.sources (s.reads events) (.join 0) < _
    simp only [State.rank, hm, mainRank]
    omega
  | idle hm => exact rank_honest h hm ha hhonest hs
  | ready hm => exact rank_honest h hm ha hhonest hs
  | skip hm => exact rank_round h hm hs
  | pass hm => exact rank_round h hm hs
  | call hm => exact rank_round h hm hs
  | @line rv k message rest hm hb =>
    refine rank_read (f := fun src => { src with
      pipe := { src.pipe with buffer := rest }, reports := src.reports ++ [message] })
      hm rfl ?_ rfl ?_
    · simp only [Source.reads, hb, List.length_cons]
      omega
    · refine (mainRank_dispatch_le _ _ rv (k + 1)).trans ?_
      omega
  | @byte rv k message rest b hm hb =>
    refine rank_read (f := fun src => { src with pipe := { src.pipe with buffer := rest } })
      hm rfl ?_ rfl ?_
    · simp only [Source.reads, hb, List.length_cons]
      omega
    · show mainRank _ _ (.drain rv k k (message ++ [b])) ≤ _
      simp [mainRank]
  | @eof rv k message r w hm hb hw hfds =>
    have hret := (h.draining _ _ _ _ hm).2
    refine rank_read (f := Source.retire message) hm rfl ?_ rfl ?_
    · simp [Source.reads, Source.retire, hret]
    · refine (mainRank_dispatch_le _ _ rv (k + 1)).trans ?_
      omega
  | @join k hm hk =>
    show s.writes events + mainRank s.sources (s.reads events) (.join (k + 1)) < _
    simp only [State.rank, hm, mainRank]
    omega
  | joined hm =>
    show s.writes events + mainRank s.sources (s.reads events) (.destroy n) < _
    simp only [State.rank, hm, mainRank]
    omega
  | @destroy k r w hm hk =>
    refine rank_touch (i := ⟨k, hk⟩) (f := fun src => { src with pair := ⟨.none, .none⟩ })
      rfl rfl rfl rfl ?_
    show mainRank s.sources (s.reads events) (.destroy k) < _
    simp only [hm, mainRank]
    omega
  | destroyed hm =>
    show s.writes events + mainRank s.sources (s.reads events) .done < _
    simp only [State.rank, hm, mainRank]
    omega
  | start hw =>
    refine rank_writer rfl ?_ ?_
    · simp [Source.reads, hw, WriterPc.pending]
    · simp [hw, writerRank]
  | @ret i amount r w hw =>
    refine rank_writer rfl ?_ ?_
    · simp [Source.reads, hw, WriterPc.pending]
    · simp [hw, writerRank, eventsRank]
  | event hw =>
    refine rank_writer rfl ?_ ?_
    · simp [Source.reads, hw, WriterPc.pending]
    · simp [hw, writerRank, eventsRank]
      omega
  | written hw =>
    refine rank_writer rfl ?_ ?_
    · simp [Source.reads, hw, WriterPc.pending]
    · simp [hw, writerRank]
  | write hw hpos hle =>
    refine rank_writer rfl ?_ ?_
    · simp [Source.reads, hw, WriterPc.pending]
      omega
    · simp [hw, writerRank]
      omega

end BackendPatterns.Reactor
