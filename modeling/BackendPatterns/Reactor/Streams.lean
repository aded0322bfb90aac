import BackendPatterns.Reactor.Reachable

/-! # From payloads to reports

The bytes of a source pass from its events through `write_message` and the pipe
into the message under construction, and from there into the reports. None is
lost or moved on the way, so at the end of the stream the reports are its frames. -/

namespace BackendPatterns.Reactor
open BackendPatterns.Lib BackendPatterns.Lib.Threads BackendPatterns.Lib.Frames

variable {n : Nat} {s t : State n} {events : Fin n → List Bytes}

/-- What the writer has still to write. -/
def WriterPc.pending (events : List Bytes) : WriterPc → Bytes
  | .unstarted | .started => unframe newline events
  | .events rest => unframe newline rest
  | .writing data rest => data ++ unframe newline rest
  | .returned | .failed => []

/-- What `drain_one_message` has read of the next message of source `i`. -/
def MainPc.message (i : Fin n) : MainPc n → Bytes
  | .drain _ k _ message => if k = i then message else []
  | _ => []

/-- Where the bytes of one source are. -/
structure Flows (events : List Bytes) (message : Bytes) (src : Source) : Prop where
  sent : src.written ++ src.writer.pending events = unframe newline events
  lines : src.retired = 0 → src.written = unframe newline src.reports ++ message ++ src.pipe.buffer
  plain : ∀ m ∈ src.reports, newline ∉ m
  piece : newline ∉ message
  atEnd : src.retired ≠ 0 → src.pipe.buffer = [] ∧ src.pipe.writeOpen = false ∧
    src.reports = frames newline src.written

section Source

variable {payloads : List Bytes} {message : Bytes} {src : Source}

/-- The writer takes up its events, a message, or the next event. -/
theorem Flows.advance (h : Flows payloads message src) {pc : WriterPc}
    (hpc : pc.pending payloads = src.writer.pending payloads) (capture param : UniqueFd) :
    Flows payloads message { src with capture := capture, param := param, writer := pc } :=
  ⟨by rw [← h.sent]; exact congrArg _ hpc, h.lines, h.plain, h.piece, h.atEnd⟩

theorem Flows.ret (h : Flows payloads message src) (hw : src.writer = .events []) :
    Flows payloads message { src with
      pipe := { src.pipe with writeOpen := false }
      param := .none
      capture := .none
      writer := .returned } := by
  have hsent := h.sent
  rw [hw] at hsent
  exact ⟨hsent, h.lines, h.plain, h.piece, fun hr => ⟨(h.atEnd hr).1, rfl, (h.atEnd hr).2.2⟩⟩

/-- One `::write` of a part of the message. -/
theorem Flows.write (h : Flows payloads message src) {data : Bytes} {rest : List Bytes}
    (hw : src.writer = .writing data rest) (hr : src.retired = 0) (amount : Nat) :
    Flows payloads message { src with
      pipe := { src.pipe with buffer := src.pipe.buffer ++ data.take amount }
      written := src.written ++ data.take amount
      writer := .writing (data.drop amount) rest } := by
  refine ⟨?_, ?_, h.plain, h.piece, fun hne => absurd hr hne⟩
  · have hsent := h.sent
    rw [hw] at hsent
    simp only [WriterPc.pending] at hsent ⊢
    rw [List.append_assoc, ← List.append_assoc (data.take amount), List.take_append_drop, hsent]
  · intro _
    rw [h.lines hr]
    simp only [List.append_assoc]

/-- A byte is read that does not end the message. -/
theorem Flows.byte (h : Flows payloads message src) (hr : src.retired = 0) {b : UInt8}
    {rest : Bytes} (hb : src.pipe.buffer = b :: rest) (hne : b ≠ newline) :
    Flows payloads (message ++ [b]) { src with pipe := { src.pipe with buffer := rest } } := by
  refine ⟨h.sent, ?_, h.plain, ?_, fun hretired => absurd hr hretired⟩
  · intro _
    rw [h.lines hr, hb]
    simp only [List.append_assoc, List.singleton_append]
  · intro hmem
    obtain hold | hnew := List.mem_append.mp hmem
    · exact h.piece hold
    · exact hne (List.mem_singleton.mp hnew).symm

/-- The newline is read that ends the message. -/
theorem Flows.line (h : Flows payloads message src) (hr : src.retired = 0) {rest : Bytes}
    (hb : src.pipe.buffer = newline :: rest) :
    Flows payloads [] { src with
      pipe := { src.pipe with buffer := rest }, reports := src.reports ++ [message] } := by
  refine ⟨h.sent, ?_, ?_, by simp, fun hretired => absurd hr hretired⟩
  · intro _
    rw [h.lines hr, hb]
    simp only [unframe_append, unframe_cons, unframe_nil, List.append_assoc, List.cons_append,
      List.nil_append]
  · intro m hm
    obtain hold | hnew := List.mem_append.mp hm
    · exact h.plain m hold
    · rw [List.mem_singleton.mp hnew]
      exact h.piece

/-- The stream ends: what was read since the last newline is a message if it is
not empty. -/
theorem Flows.retire (h : Flows payloads message src) (hr : src.retired = 0)
    (hb : src.pipe.buffer = []) (hw : src.pipe.writeOpen = false) :
    Flows payloads [] (src.retire message) := by
  have hwritten : src.written = unframe newline src.reports ++ message := by
    rw [h.lines hr, hb, List.append_nil]
  refine ⟨h.sent, fun hzero => absurd hzero (Nat.succ_ne_zero _), ?_, by simp, fun _ =>
    ⟨hb, hw, ?_⟩⟩
  · intro m hm
    obtain hold | hnew := List.mem_append.mp hm
    · exact h.plain m hold
    · unfold fragment at hnew
      split at hnew
      · cases hnew
      · rw [List.mem_singleton.mp hnew]
        exact h.piece
  · rw [show (src.retire message).written = src.written from rfl, hwritten,
      frames_unframe_append h.plain h.piece]
    rfl

end Source

/-- Every source's bytes are where they should be. -/
def Streams (events : Fin n → List Bytes) (s : State n) : Prop :=
  ∀ i, Flows (events i) (s.main.message i) (s.sources i)

/-- Source `k` moves, the message under construction with it. -/
theorem Streams.modify (h : Streams events s) {k : Fin n} {f : Source → Source} {pc : MainPc n}
    {table : Int → Option (End n)} {closes : List (Int × Bool)} {active : Int}
    (hk : Flows (events k) (pc.message k) (f (s.sources k)))
    (hpc : ∀ j, j ≠ k → pc.message j = s.main.message j) :
    Streams events (State.modify
      { s with table := table, closes := closes, active := active, main := pc } k f) := by
  intro i
  by_cases hi : i = k
  · subst hi
    rw [modify_sources_self]
    exact hk
  · rw [modify_sources_of_ne _ _ hi]
    have hflow := h i
    rw [← hpc i hi] at hflow
    exact hflow

/-- Only `main` moves, and it reads no byte. -/
theorem Streams.mainOnly (h : Streams events s) {pc : MainPc n}
    (hpc : ∀ j, pc.message j = s.main.message j) : Streams events { s with main := pc } := by
  intro i
  have hflow := h i
  rw [← hpc i] at hflow
  exact hflow

theorem message_drain {rv : Fin n → Revents} {k handler j : Fin n} {message : Bytes} (hj : j ≠ k) :
    (MainPc.drain rv k handler message).message j = [] := if_neg (Ne.symm hj)

theorem message_drain_self {rv : Fin n → Revents} {k handler : Fin n} {message : Bytes} :
    (MainPc.drain rv k handler message).message k = message := if_pos rfl

theorem Streams.step (h : Streams events s) (hw : Wired s) {a : Action n}
    (hs : Moves events s a t) : Streams events t := by
  cases hs with
  | @pipe k r w hm hk =>
    have hflow := h ⟨k, hk⟩
    rw [hm] at hflow
    refine h.modify ⟨hflow.sent, hflow.lines, hflow.plain, hflow.piece, hflow.atEnd⟩ ?_
    intro j _
    rw [hm]
    rfl
  | piped hm => exact h.mainOnly fun j => by rw [hm]; rfl
  | @spawn k hm hk =>
    have hflow := h ⟨k, hk⟩
    have hold := hw.source ⟨k, hk⟩
    rw [hm] at hold hflow
    have hsent := hflow.sent
    rw [hold.unstarted (Nat.lt_irrefl k)] at hsent
    refine h.modify ⟨hsent, hflow.lines, hflow.plain, hflow.piece, hflow.atEnd⟩ ?_
    intro j _
    rw [hm]
    rfl
  | watch hm =>
    intro i
    have hflow := h i
    rw [hm] at hflow
    exact ⟨hflow.sent, hflow.lines, hflow.plain, hflow.piece, hflow.atEnd⟩
  | enter hm => exact h.mainOnly fun j => by rw [hm]; rfl
  | exit hm => exact h.mainOnly fun j => by rw [hm]; rfl
  | idle hm => exact h.mainOnly fun j => by rw [hm]; rfl
  | ready hm => exact h.mainOnly fun j => by rw [hm]; rfl
  | skip hm => exact h.mainOnly fun j => by rw [hm]; rfl
  | pass hm => exact h.mainOnly fun j => by rw [hm]; rfl
  | call hm => exact h.mainOnly fun j => by rw [hm]; simp [MainPc.message]
  | @line rv k message rest hm hb =>
    have hflow := h k
    rw [hm, message_drain_self] at hflow
    refine h.modify (hflow.line (hw.draining _ _ _ _ hm).2 hb) ?_
    intro j hj
    rw [hm, message_drain hj]
    rfl
  | @byte rv k message rest b hm hb hne =>
    have hflow := h k
    rw [hm, message_drain_self] at hflow
    refine h.modify ?_ ?_
    · rw [message_drain_self]
      exact hflow.byte (hw.draining _ _ _ _ hm).2 hb hne
    · intro j hj
      rw [hm, message_drain hj, message_drain hj]
  | @eof rv k message r w hm hb hopen hfds =>
    have hflow := h k
    rw [hm, message_drain_self] at hflow
    refine h.modify (hflow.retire (hw.draining _ _ _ _ hm).2 hb hopen) ?_
    intro j hj
    rw [hm, message_drain hj]
    rfl
  | join hm => exact h.mainOnly fun j => by rw [hm]; rfl
  | joined hm => exact h.mainOnly fun j => by rw [hm]; rfl
  | @destroy k r w hm hk =>
    have hflow := h ⟨k, hk⟩
    rw [hm] at hflow
    refine h.modify ⟨hflow.sent, hflow.lines, hflow.plain, hflow.piece, hflow.atEnd⟩ ?_
    intro j _
    rw [hm]
    rfl
  | destroyed hm => exact h.mainOnly fun j => by rw [hm]; rfl
  | @start i _ hs =>
    exact h.modify ((h i).advance (by rw [hs]; rfl) _ _) fun _ _ => rfl
  | @ret i _ r w hs => exact h.modify ((h i).ret hs) fun _ _ => rfl
  | @event i _ payload rest hs =>
    refine h.modify ((h i).advance ?_ _ _) fun _ _ => rfl
    rw [hs]
    simp [WriterPc.pending]
  | @written i _ rest hs =>
    exact h.modify ((h i).advance (by rw [hs]; rfl) _ _) fun _ _ => rfl
  | @write i amount data rest hs =>
    have hr : (s.sources i).retired = 0 := by
      by_contra hne
      have hreturned := (hw.source i).late hne
      rw [hs] at hreturned
      cases hreturned
    exact h.modify ((h i).write hs hr amount) fun _ _ => rfl

theorem reachable_streams (h : Machine.Reachable (step events) (start n) s) : Streams events s := by
  refine h.invariant (fun i => ?_) fun hr hst hs => hst.step (reachable_wired hr)
    ((reachable_wired hr).moves hs)
  refine ⟨rfl, fun _ => rfl, ?_, ?_, fun hne => absurd rfl hne⟩
  · intro m hm
    cases hm
  · intro hm
    cases hm

/-! ## What every run shows -/

/-- The counter is the number of slots that are still watched. -/
theorem Wired.watched (h : Wired s) (hst : s.main.stage.started = true) :
    s.active = count (fun src : Source => src.watcher ≠ -1) s.sources := by
  rw [h.active hst]
  refine congrArg Nat.cast (count_congr fun i => ?_)
  have hsrc := h.source i
  obtain ⟨r, w, hfds⟩ := hsrc.fds (by rw [stage_made hst]; exact i.isLt)
  have hwires := hsrc.wires r w hfds
  rw [hwires.watcher hst]
  split
  · rename_i hret
    exact ⟨fun _ => hwires.readFd.ne, fun _ => hret⟩
  · rename_i hret
    exact ⟨fun hzero => absurd hzero hret, fun hne => absurd rfl hne⟩

/-- There are no more descriptors than numbers for them. -/
theorem card_le_of_isFd {ι : Type} [Fintype ι] {f : ι → Int} (hinj : Function.Injective f)
    (hf : ∀ i, IsFd (f i)) : Fintype.card ι ≤ 2147483648 := by
  have hlt : ∀ i, (f i).toNat < 2147483648 := by
    intro i
    have hrange := hf i
    unfold IsFd at hrange
    omega
  have hinj' : Function.Injective fun i => (⟨(f i).toNat, hlt i⟩ : Fin 2147483648) := by
    intro i j hij
    have hnat : (f i).toNat = (f j).toNat := congrArg Fin.val hij
    have hi := (hf i).1
    have hj := (hf j).1
    exact hinj (by omega)
  have hcard := Fintype.card_le_of_injective _ hinj'
  rwa [Fintype.card_fin] at hcard

/-- There are fewer sources than an `int` counts: each has two descriptors. -/
theorem Wired.sources_le (h : Wired s) (hst : s.main.stage.started = true) : n ≤ 2147483647 := by
  have hfds : ∀ i, ∃ r w, (s.sources i).fds = some (r, w) := fun i =>
    (h.source i).fds (by rw [stage_made hst]; exact i.isLt)
  choose r w hf using hfds
  have hends : ∀ i j, i ≠ j → r i ≠ r j ∧ r i ≠ w j ∧ w i ≠ r j ∧ w i ≠ w j := fun i j hij =>
    h.distinct i j _ _ _ _ hij (hf i) (hf j)
  have hwires : ∀ i, IsFd (r i) ∧ IsFd (w i) ∧ r i ≠ w i := fun i =>
    have hw := (h.source i).wires _ _ (hf i)
    ⟨hw.readFd, hw.writeFd, hw.ne⟩
  have hcross : ∀ i j, r i ≠ w j := by
    intro i j
    by_cases hij : i = j
    · subst hij
      exact (hwires i).2.2
    · exact (hends i j hij).2.1
  have hinj : Function.Injective (Sum.elim r w) := by
    refine Function.Injective.sumElim ?_ ?_ hcross
    · intro i j hij
      by_contra hne
      exact (hends i j hne).1 hij
    · intro i j hij
      by_contra hne
      exact (hends i j hne).2.2.2 hij
  have hfd : ∀ e, IsFd (Sum.elim r w e) := by
    intro e
    cases e with
    | inl i => exact (hwires i).1
    | inr i => exact (hwires i).2.1
  have hcard := card_le_of_isFd hinj hfd
  rw [Fintype.card_sum, Fintype.card_fin] at hcard
  omega

/-- `active_sources` is an `int`, and does not outgrow it. -/
theorem Wired.active_le (h : Wired s) (hst : s.main.stage.started = true) :
    s.active ≤ 2147483647 := by
  have hn := h.sources_le hst
  have hle : count (fun src : Source => src.retired = 0) s.sources ≤ n := by
    have hcard := Finset.card_filter_le Finset.univ fun i => (s.sources i).retired = 0
    rwa [Finset.card_fin] at hcard
  rw [h.active hst]
  omega

/-- A retirement is the first of its source, at the end of its stream. -/
theorem Wired.retires (h : Wired s) {a : Action n} (hs : Moves events s a t) {i : Fin n}
    (hi : (t.sources i).retired ≠ (s.sources i).retired) :
    (s.sources i).retired = 0 ∧ (t.sources i).retired = 1 ∧ (s.sources i).pipe.buffer = [] ∧
      (s.sources i).pipe.writeOpen = false := by
  cases hs with
  | @eof rv k message r w hm hb hw hfds =>
    have hret := (h.draining _ _ _ _ hm).2
    by_cases hik : i = k
    · subst hik
      refine ⟨hret, ?_, hb, hw⟩
      rw [modify_sources_self]
      exact congrArg (· + 1) hret
    · rw [modify_sources_of_ne _ _ hik] at hi
      exact absurd rfl hi
  | pipe | spawn | line | byte | destroy | start | ret | event | written | write =>
    refine (hi (forall_modify (P := fun j src => src.retired = (s.sources j).retired) ?_ ?_ i)).elim
    · rfl
    · intro _ _
      rfl
  | _ => exact absurd rfl hi

/-- At the top of the loop: on to `poll` while a source is not retired. -/
theorem Wired.loops (h : Wired s) (hm : s.main = .loop) : step events s .main =
    some { s with main := if ∀ i, (s.sources i).retired = 1 then .join 0 else .poll } := by
  have hactive := h.active (by rw [hm]; rfl)
  have hstep : step events s .main =
      if 0 < s.active then some { s with main := .poll } else some { s with main := .join 0 } := by
    simp only [step, State.mainStep, hm]
  rw [hstep]
  by_cases hall : ∀ i, (s.sources i).retired = 1
  · have hzero : count (fun src : Source => src.retired = 0) s.sources = 0 := by
      refine count_eq_zero_iff.mpr fun i hi => ?_
      rw [hall i] at hi
      cases hi
    rw [if_pos hall, if_neg (by omega)]
  · obtain ⟨i, hi⟩ := Classical.not_forall.mp hall
    have honce := (h.source i).once
    have hpos : 0 < count (fun src : Source => src.retired = 0) s.sources :=
      count_pos_iff.mpr ⟨i, by omega⟩
    rw [if_neg hall, if_pos (by omega)]

/-- In every reachable state the reports of a retired source are the frames of
its bytes, a source retires once and at its end, the counter is exact before a
`poll`, no lookup or read fails, and the loop is left when all have retired. -/
theorem reactor_frames_exactly (h : Machine.Reachable (step events) (start n) s) :
    (∀ i, (s.sources i).retired ≠ 0 →
      (s.sources i).reports = frames newline (s.sources i).written ∧
      (s.sources i).written = unframe newline (events i) ∧
      ((∀ payload ∈ events i, newline ∉ payload) → (s.sources i).reports = events i)) ∧
    (∀ a t i, step events s a = some t → (t.sources i).retired ≠ (s.sources i).retired →
      (s.sources i).retired = 0 ∧ (t.sources i).retired = 1 ∧
      (s.sources i).pipe.buffer = [] ∧ (s.sources i).pipe.writeOpen = false) ∧
    (s.main = .poll → s.active = count (fun src : Source => src.watcher ≠ -1) s.sources ∧
      s.active ≤ 2147483647) ∧
    (∀ what, s.main ≠ .failed what) ∧
    (s.main = .loop → step events s .main =
      some { s with main := if ∀ i, (s.sources i).retired = 1 then .join 0 else .poll }) ∧
    (s.main.stage.left = true → ∀ i, (s.sources i).retired = 1) := by
  have hw := reachable_wired h
  refine ⟨?_, ?_, ?_, hw.running, hw.loops, ?_⟩
  · intro i hret
    have hflow := reachable_streams h i
    have hsent := hflow.sent
    rw [(hw.source i).late hret, WriterPc.pending, List.append_nil] at hsent
    obtain ⟨-, -, hreports⟩ := hflow.atEnd hret
    refine ⟨hreports, hsent, fun hplain => ?_⟩
    rw [hreports, hsent, frames_unframe hplain]
  · intro a t i hs hi
    exact hw.retires (hw.moves hs) hi
  · intro hm
    have hst : s.main.stage.started = true := by rw [hm]; rfl
    exact ⟨hw.watched hst, hw.active_le hst⟩
  · intro hleft i
    have hne := (hw.source i).left hleft
    have honce := (hw.source i).once
    omega

/-- One source that emits "hi": the newline comes in a write of its own. -/
def hello : Fin 1 → List Bytes := fun _ => [[104, 105]]

def readable : Fin 1 → Revents := fun _ => ⟨true, false, false⟩
def hungUp : Fin 1 → Revents := fun _ => ⟨false, true, false⟩
def silent : Fin 1 → Revents := fun _ => ⟨false, false, false⟩

/-- The run of that source, from its `make_pipe` to the end of `main`. -/
def helloRun : List (Action 1) :=
  [.pipe 3 4, .main, .main, .main, .writer 0 0, .writer 0 0, .main, .poll silent, .writer 0 2,
    .main, .poll readable, .main, .main, .main, .writer 0 1, .main, .main, .writer 0 0, .writer 0 0,
    .main, .poll hungUp, .main, .main, .main, .main, .main, .main, .main, .main]

theorem reactor_frames_exactly_hello :
    ∃ s, Machine.run (step hello) (start 1) helloRun = some s ∧
      (s.sources 0).reports = [[104, 105]] := by
  have hend : (Machine.run (step hello) (start 1) helloRun).map
      (fun s => (s.sources 0).retired) = some 1 := rfl
  obtain ⟨s, hs, hret⟩ := Option.map_eq_some_iff.mp hend
  have hexact := reactor_frames_exactly (Machine.reachable_of_run hs)
  have hne : (s.sources 0).retired ≠ 0 := by
    rw [hret]
    exact Nat.one_ne_zero
  exact ⟨s, hs, (hexact.1 0 hne).2.2 (by decide)⟩

end BackendPatterns.Reactor
