import BackendPatterns.BoundedQueue.System

/-! # The blocking queue is a linearizable bounded FIFO

Every operation takes effect in the critical section that returns its result.
Two facts are kept by every step: each thread's events are calls that take
effect once and return that effect, and the effects replay on the sequential
FIFO into the content of the object. -/

namespace BackendPatterns.BoundedQueue
open BackendPatterns.Lib BackendPatterns.Lib.CondVar BackendPatterns.Lib.Fifo
open BackendPatterns.Lib.History

variable {ι T : Type}

/-- How far a thread's current operation got, as its history shows it. -/
def Pc.phase : Pc T → Phase (Op T) (Res T)
  | .idle => .idle
  | .calling op _ => .called op
  | .closing _ => .done .close .closed
  | .done op r => .done op r

@[simp] theorem phase_wake (p : Pc T) : (Waiter.wake p).phase = p.phase := by
  cases p <;> rfl

theorem phase_after {b : BoundedQueue T} {op : Op T} {c : Section T}
    (h : b.enter op = some c) : (after op c.res).phase = .done op c.res := by
  rcases enter_cases h with ⟨_, rfl, _, _, rfl⟩ | ⟨_, rfl, _, rfl⟩ | ⟨_, _, rfl, _, rfl⟩ |
    ⟨rfl, _, _, rfl⟩ | ⟨rfl, rfl⟩ <;> rfl

theorem notifyAll_phase (cv : Cv) (f : ι → Pc T) (i : ι) :
    (CondVar.notifyAll cv f i).phase = (f i).phase := by
  unfold CondVar.notifyAll
  split <;> simp

variable [DecidableEq ι]

theorem update_phase (f : ι → Pc T) (i : ι) (p : Pc T) (j : ι) :
    (Function.update f i p j).phase = if j = i then p.phase else (f j).phase := by
  by_cases hj : j = i
  · subst hj; simp
  · simp [hj]

/-- Every thread's events leave it in the phase of its position. -/
def ThreadsOk (s : System ι T) : Prop := ∀ i, Sequential i (project i s.log) (s.pc i).phase

theorem ThreadsOk.frame {s t : System ι T} (h : ThreadsOk s) (hl : t.log = s.log)
    (hp : ∀ j, (t.pc j).phase = (s.pc j).phase) : ThreadsOk t := by
  intro j
  rw [hl, hp]
  exact h j

theorem ThreadsOk.event {s t : System ι T} {i : ι} {e : Event ι (Op T) (Res T)}
    (h : ThreadsOk s) (hi : e.thread = i) (hl : t.log = s.log ++ [e])
    (hp : ∀ j, j ≠ i → (t.pc j).phase = (s.pc j).phase)
    (he : Sequential i (project i s.log ++ [e]) (t.pc i).phase) : ThreadsOk t := by
  intro j
  rw [hl, project_snoc, hi]
  split
  · rename_i hj
    subst hj
    exact he
  · rename_i hj
    rw [hp j (Ne.symm hj)]
    exact h j

variable [Fintype ι]

theorem signal_phase {notify : Option Cv} {wakes : Option ι} {f g : ι → Pc T}
    (h : signal notify wakes f = some g) (i : ι) : (g i).phase = (f i).phase := by
  cases notify with
  | none => cases h; rfl
  | some cv =>
    rcases notifyOne_cases h with ⟨rfl, _⟩ | ⟨j, _, rfl⟩
    · rfl
    · rw [update_phase, phase_wake]
      split
      · rename_i hij; rw [hij]
      · rfl

theorem ThreadsOk.step {s t : System ι T} {a : Action ι T} (h : ThreadsOk s)
    (hs : step s a = some t) : ThreadsOk t := by
  cases step_cases hs with
  | @call i op hpc =>
    refine h.event (i := i) rfl rfl (fun j hj => ?_) ?_
    · rw [update_phase, if_neg hj]
    · have hi := h i
      rw [hpc] at hi
      rw [update_phase, if_pos rfl]
      exact hi.call
  | park hpc hw henter =>
    refine h.frame rfl fun j => ?_
    rw [update_phase]
    split
    · rename_i hj; rw [hj, hpc]; rfl
    · rfl
  | @finish i op w wakes c pc hpc hw henter hsignal =>
    refine h.event (i := i) rfl rfl (fun j hj => ?_) ?_
    · rw [signal_phase hsignal, update_phase, if_neg hj]
    · have hi := h i
      rw [hpc] at hi
      rw [signal_phase hsignal, update_phase, if_pos rfl, phase_after henter]
      exact hi.effect
  | spurious hpc =>
    refine h.frame rfl fun j => ?_
    rw [update_phase]
    split
    · rename_i hj; rw [hj, hpc]; rfl
    · rfl
  | notifyEmpty hpc =>
    refine h.frame rfl fun j => ?_
    rw [update_phase, notifyAll_phase]
    split
    · rename_i hj; rw [hj, hpc]; rfl
    · rfl
  | notifyFull hpc =>
    refine h.frame rfl fun j => ?_
    rw [update_phase, notifyAll_phase]
    split
    · rename_i hj; rw [hj, hpc]; rfl
    · rfl
  | @ret i op r hpc =>
    refine h.event (i := i) rfl rfl (fun j hj => ?_) ?_
    · rw [update_phase, if_neg hj]
    · have hi := h i
      rw [hpc] at hi
      rw [update_phase, if_pos rfl]
      exact hi.ret

/-- The effects so far replay on the sequential FIFO into the current members. -/
def Simulates (cap : Nat) (s : System ι T) : Prop :=
  ∃ f : Fifo T cap, Replays apply (empty T cap) (effects s.log) f ∧ Represents s.queue f

theorem Simulates.step {cap : Nat} {s t : System ι T} {a : Action ι T} (h : Simulates cap s)
    (hs : step s a = some t) : Simulates cap t := by
  obtain ⟨f, hf, hr⟩ := h
  cases step_cases hs with
  | call => exact ⟨f, by simpa using hf, hr⟩
  | finish _ _ henter _ =>
    obtain ⟨g, hg, hr⟩ := enter_refines hr henter
    exact ⟨g, by simpa using hf.snoc hg, hr⟩
  | ret => exact ⟨f, by simpa using hf, hr⟩
  | _ => exact ⟨f, hf, hr⟩

theorem reachable_threadsOk {b : BoundedQueue T} {s : System ι T}
    (h : Machine.Reachable step (start b) s) : ThreadsOk s :=
  h.invariant (fun _ => .nil) fun _ ih hs => ih.step hs

theorem reachable_simulates {cap : Nat} {b : BoundedQueue T} (hb : make cap = .ok b)
    {s : System ι T} (h : Machine.Reachable step (start b) s) : Simulates cap s := by
  refine h.invariant ?_ fun _ ih hs => ih.step hs
  unfold make at hb
  split at hb
  · cases hb
  · cases hb
    exact ⟨empty T cap, rfl, rfl, rfl, rfl⟩

/-- What a bounded FIFO shared by threads promises about a state and its past. -/
structure BoundedFifo (s : System ι T) : Prop where
  /-- The effects are a run of the sequential FIFO, each inside its own call. -/
  linearizable : Linearizable apply (empty T s.queue.capacity) s.log
  bounded : s.queue.q.length ≤ s.queue.capacity
  /-- No loss, no duplication, no reordering. -/
  conserved : accepted (effects s.log) = taken (effects s.log) ++ s.queue.q
  /-- A push that returned false had no other effect than being refused. -/
  refused : ∀ i v l₁ l₂, project i s.log = l₁ ++ .ret i (.push v) (.pushed false) :: l₂ →
    ∃ l₀, l₁ = l₀ ++ [.call i (.push v), .effect i (.push v) (.pushed false)]
  closed_iff : s.queue.closed = true ↔ (.close, .closed) ∈ effects s.log
  /-- Once closed, no push enqueues. -/
  closed_refuses : ∀ l₁ l₂, effects s.log = l₁ ++ (.close, .closed) :: l₂ → accepted l₂ = []
  /-- A pop returns nullopt only from a closed and empty queue. -/
  nullopt_drained : ∀ a t i, step s a = some t →
    t.log = s.log ++ [.effect i .pop (.popped none)] → s.queue.closed = true ∧ s.queue.q = []
  /-- After one nullopt no pop returns a value. -/
  nullopt_final : ∀ l₁ l₂, effects s.log = l₁ ++ (.pop, .popped none) :: l₂ → taken l₂ = []

theorem nullopt_step {s t : System ι T} {a : Action ι T} {i : ι} (hs : step s a = some t)
    (hl : t.log = s.log ++ [.effect i .pop (.popped none)]) :
    s.queue.closed = true ∧ s.queue.q = [] := by
  cases step_cases hs with
  | finish _ _ henter _ =>
    simp only [List.append_cancel_left_eq, List.cons.injEq, Event.effect.injEq, and_true] at hl
    obtain ⟨_, rfl, hres⟩ := hl
    rcases enter_cases henter with ⟨_, ho, _⟩ | ⟨_, ho, _⟩ | ⟨_, _, _, _, rfl⟩ |
      ⟨_, hq, hc, _⟩ | ⟨ho, _⟩
    · cases ho
    · cases ho
    · cases hres
    · exact ⟨hc, hq⟩
    · cases ho
  | _ => simp at hl

/-- For any capacity the constructor accepts, any threads and any interleaving
of their calls, wake-ups and re-checks, every reachable state is that of a
linearizable bounded FIFO. -/
theorem boundedQueue_linearizable {cap : Nat} {b : BoundedQueue T} (hb : make cap = .ok b)
    {s : System ι T} (h : Machine.Reachable step (start b) s) : BoundedFifo s := by
  have hthreads := reachable_threadsOk h
  obtain ⟨f, hf, hcap, hi, hk⟩ := reachable_simulates hb h
  subst hcap
  have hfifo := fifo hf
  simp only [Fifo.empty, List.nil_append] at hfifo
  refine ⟨⟨fun i => ⟨_, hthreads i⟩, f, hf⟩, ?_, ?_, ?_, ?_, ?_, ?_, ?_⟩
  · rw [← hi]; exact f.bounded
  · rw [← hi]; exact hfifo
  · intro i v l₁ l₂ hl
    exact (hthreads i).ret_effect hl
  · rw [← hk, Fifo.closed_iff hf]
    simp [Fifo.empty]
  · intro l₁ l₂ hl
    exact accepted_after_close hf hl
  · intro a t i hs hl
    exact nullopt_step hs hl
  · intro l₁ l₂ hl
    exact (drained hf hl).2

/-- A consumer, thread `true`, parks on the empty queue, is woken by a push, takes
the value, and after the close finds the queue drained. -/
def handoff : List (Action Bool Nat) :=
  [.call true .pop, .lock true none, .call false (.push 7), .lock false (some true),
    .lock true none, .ret false, .ret true, .call false .close, .lock false none,
    .notifyAll false, .notifyAll false, .ret false, .call true .pop, .lock true none]

theorem boundedQueue_linearizable_handoff :
    ∃ s, Machine.run step (start ⟨[], 1, false, Nat.one_pos⟩) handoff = some s ∧
      taken (effects s.log) = [7] ∧ s.queue.q = [] ∧ s.queue.closed = true ∧ BoundedFifo s := by
  have hb : make 1 = .ok (⟨[], 1, false, Nat.one_pos⟩ : BoundedQueue Nat) := rfl
  obtain ⟨s, hs, htaken, hq, hclosed⟩ :
      ∃ s, Machine.run step (start ⟨[], 1, false, Nat.one_pos⟩) handoff = some s ∧
        taken (effects s.log) = [7] ∧ s.queue.q = [] ∧ s.queue.closed = true :=
    ⟨_, rfl, rfl, rfl, rfl⟩
  exact ⟨s, hs, htaken, hq, hclosed, boundedQueue_linearizable hb (Machine.reachable_of_run hs)⟩

end BackendPatterns.BoundedQueue
