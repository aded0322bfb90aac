import BackendPatterns.BoundedQueue.System

/-! # The blocking queue loses no wake-up

Each operation issues one `notify_one` under the lock, so while the queue is
open the items never outnumber the poppers already woken as long as one sleeps,
and likewise for the room and the pushers. `close` notifies after releasing the
lock: until its `notify_all` it stands between the flag and the sleepers. -/

namespace BackendPatterns.BoundedQueue
open BackendPatterns.Lib BackendPatterns.Lib.CondVar BackendPatterns.Lib.Fifo

variable {ι T : Type}

theorem parked_iff {cv : Cv} {p : Pc T} :
    Parked cv p ↔ ∃ op, p = .calling op .parked ∧ waitsOn op = some cv := by
  cases p with
  | calling op w =>
    simp only [Parked, Waiter.waiting, Option.map_eq_some_iff, Prod.mk.injEq, Pc.calling.injEq]
    constructor
    · intro hex
      obtain ⟨_, hc, rfl, rfl⟩ := hex
      exact ⟨op, ⟨rfl, rfl⟩, hc⟩
    · intro hex
      obtain ⟨_, ⟨rfl, rfl⟩, hc⟩ := hex
      exact ⟨cv, hc, rfl, rfl⟩
  | _ => simp [Parked, Waiter.waiting]

theorem woken_iff {cv : Cv} {p : Pc T} :
    Woken cv p ↔ ∃ op, p = .calling op .woken ∧ waitsOn op = some cv := by
  cases p with
  | calling op w =>
    simp only [Woken, Waiter.waiting, Option.map_eq_some_iff, Prod.mk.injEq, Pc.calling.injEq]
    constructor
    · intro hex
      obtain ⟨_, hc, rfl, rfl⟩ := hex
      exact ⟨op, ⟨rfl, rfl⟩, hc⟩
    · intro hex
      obtain ⟨_, ⟨rfl, rfl⟩, hc⟩ := hex
      exact ⟨cv, hc, rfl, rfl⟩
  | _ => simp [Woken, Waiter.waiting]

theorem parked_notEmpty {p : Pc T} : Parked .notEmpty p ↔ p = .calling .pop .parked := by
  rw [parked_iff]
  constructor
  · intro hex
    obtain ⟨op, rfl, h⟩ := hex
    cases op <;> simp [waitsOn] at h ⊢
  · intro heq
    subst heq
    exact ⟨.pop, rfl, rfl⟩

theorem parked_notFull {p : Pc T} :
    Parked .notFull p ↔ ∃ v, p = .calling (.push v) .parked := by
  rw [parked_iff]
  constructor
  · intro hex
    obtain ⟨op, rfl, h⟩ := hex
    cases op <;> simp [waitsOn] at h ⊢
  · intro hex
    obtain ⟨v, rfl⟩ := hex
    exact ⟨.push v, rfl, rfl⟩

theorem not_parked {cv : Cv} {op : Op T} {w : Wait} (hw : w ≠ .parked) :
    ¬ Parked cv (.calling op w : Pc T) := by
  rw [parked_iff]
  intro hex
  obtain ⟨_, he, _⟩ := hex
  cases he
  exact hw rfl

theorem not_parked_after {cv : Cv} {op : Op T} {r : Res T} : ¬ Parked cv (after op r) := by
  rw [parked_iff]
  cases op <;> simp [after]

theorem not_woken_after {cv : Cv} {op : Op T} {r : Res T} : ¬ Woken cv (after op r) := by
  rw [woken_iff]
  cases op <;> simp [after]

/-- Every sleeper left over by a close still has a notification to come. -/
structure Closing (f : ι → Pc T) : Prop where
  notEmpty : ∀ i, Parked .notEmpty (f i) → ∃ j, f j = .closing .notEmpty
  notFull : ∀ i, Parked .notFull (f i) → ∃ j cv, f j = .closing cv

theorem Closing.mono {f g : ι → Pc T} (h : Closing f)
    (hp : ∀ cv i, Parked cv (g i) → Parked cv (f i))
    (hc : ∀ j cv, f j = .closing cv → g j = .closing cv) : Closing g := by
  constructor
  · intro i hi
    obtain ⟨j, hj⟩ := h.notEmpty i (hp _ i hi)
    exact ⟨j, hc j _ hj⟩
  · intro i hi
    obtain ⟨j, cv, hj⟩ := h.notFull i (hp _ i hi)
    exact ⟨j, cv, hc j _ hj⟩

/-- A thread that is not closing moves without going to sleep. -/
theorem Closing.update [DecidableEq ι] {f : ι → Pc T} {i : ι} {p : Pc T} (h : Closing f)
    (hi : ∀ cv, f i ≠ .closing cv) (hp : ∀ cv, ¬ Parked cv p) :
    Closing (Function.update f i p) := by
  refine h.mono (fun cv j hj => ?_) fun j cv hj => ?_
  · by_cases hji : j = i
    · subst hji
      rw [Function.update_self] at hj
      exact absurd hj (hp cv)
    · rwa [Function.update_of_ne hji] at hj
  · have hji : j ≠ i := fun he => hi cv (he ▸ hj)
    rwa [Function.update_of_ne hji]

theorem notifyAll_closing {cv cv' : Cv} {f : ι → Pc T} {j : ι} (h : f j = .closing cv') :
    CondVar.notifyAll cv f j = .closing cv' := by
  unfold CondVar.notifyAll
  rw [h]
  split <;> rfl

variable [Fintype ι]

/-- The counting invariant over both wait sets. -/
structure WakeUps (s : System ι T) : Prop where
  notEmpty : s.queue.closed = false → Covered .notEmpty s.pc 0 s.queue.q.length
  notFull : s.queue.closed = false →
    Covered .notFull s.pc 0 (s.queue.capacity - s.queue.q.length)
  closing : s.queue.closed = true → Closing s.pc
  opened : ∀ j cv, s.pc j = .closing cv → s.queue.closed = true

theorem wakeUps_start (b : BoundedQueue T) : WakeUps (start b : System ι T) := by
  have hnone : ∀ cv (i : ι), ¬ Parked cv ((start b : System ι T).pc i) := by
    intro cv i
    simp [start, parked_iff]
  refine ⟨fun _ => covered_of_none (hnone _) _ _, fun _ => covered_of_none (hnone _) _ _,
    fun _ => ⟨fun i hi => absurd hi (hnone _ i), fun i hi => absurd hi (hnone _ i)⟩, ?_⟩
  intro j cv hj
  cases hj

variable [DecidableEq ι]

/-- A thread finishes its critical section: if it was woken on `cv`, one woken
thread less has to be paid for by one item or slot less. -/
theorem covered_leave {cv : Cv} {f : ι → Pc T} {i : ι} {op : Op T} {r : Res T} {w : Wait}
    {pending avail pending' avail' : Nat} (h : Covered cv f pending avail)
    (hpc : f i = .calling op w) (hw : w ≠ .parked)
    (hle : avail' + pending + (if waitsOn op = some cv then 1 else 0) ≤ avail + pending') :
    Covered cv (Function.update f i (after op r)) pending' avail' := by
  refine h.move (by rw [hpc]; exact not_parked hw) not_parked_after ?_
  rw [if_neg not_woken_after]
  split
  · rename_i hwoken
    rw [hpc, woken_iff] at hwoken
    obtain ⟨_, he, hcv⟩ := hwoken
    cases he
    rw [if_pos hcv] at hle
    exact hle
  · omega

/-- A thread moves between positions outside the wait on `cv`. -/
theorem covered_frame {cv : Cv} {f : ι → Pc T} {i : ι} {p : Pc T} {avail : Nat}
    (h : Covered cv f 0 avail) (hf : ¬ Parked cv (f i)) (hw : ¬ Woken cv (f i))
    (hp : ¬ Parked cv p) : Covered cv (Function.update f i p) 0 avail := by
  refine h.move hf hp ?_
  rw [if_neg hw]
  omega

theorem Closing.signal {notify : Option Cv} {wakes : Option ι} {f g : ι → Pc T} (h : Closing f)
    (hs : signal notify wakes f = some g) : Closing g := by
  cases notify with
  | none => cases hs; exact h
  | some cv =>
    refine h.mono (fun _ _ hi => notifyOne_parked hs hi) fun j cv' hj => ?_
    have hnp : ¬ Parked cv (f j) := by
      rw [hj, parked_iff]
      simp
    rw [notifyOne_eq hs hnp, hj]

/-- Whoever is not woken after a signal did not move. -/
theorem signal_of_not_woken {notify : Option Cv} {wakes : Option ι} {f g : ι → Pc T}
    (hs : signal notify wakes f = some g) {j : ι} (hj : ∀ cv, ¬ Woken cv (g j)) : f j = g j := by
  cases notify with
  | none => cases hs; rfl
  | some cv => exact notifyOne_of_not_woken hs (hj cv)

theorem not_woken_closing {cv cv' : Cv} : ¬ Woken cv (.closing cv' : Pc T) := by
  simp [woken_iff]

theorem not_woken_parked {cv : Cv} {op : Op T} : ¬ Woken cv (.calling op .parked : Pc T) := by
  simp [woken_iff]

/-- A thread outside any wait moves to a position that is neither asleep nor
closing: a call, a return. -/
theorem WakeUps.move {s : System ι T} {i : ι} {p : Pc T} {log} (h : WakeUps s)
    (hi : ∀ op w, s.pc i ≠ .calling op w) (hc : ∀ cv, s.pc i ≠ .closing cv)
    (hp : ∀ cv, ¬ Parked cv p) (hpc : ∀ cv, p ≠ .closing cv) :
    WakeUps ⟨s.queue, Function.update s.pc i p, log⟩ := by
  have hnp : ∀ cv, ¬ Parked cv (s.pc i) := by
    intro cv hk
    obtain ⟨op, he, _⟩ := parked_iff.mp hk
    exact hi op _ he
  have hnw : ∀ cv, ¬ Woken cv (s.pc i) := by
    intro cv hk
    obtain ⟨op, he, _⟩ := woken_iff.mp hk
    exact hi op _ he
  exact ⟨fun hk => covered_frame (h.notEmpty hk) (hnp _) (hnw _) (hp _),
    fun hk => covered_frame (h.notFull hk) (hnp _) (hnw _) (hp _),
    fun hk => (h.closing hk).update hc hp,
    fun j cv hj => h.opened j cv (Threads.of_update hj (hpc cv))⟩

/-- Parking needs a false predicate, so nothing is available at that moment. -/
theorem WakeUps.park {s : System ι T} {i : ι} {op : Op T} {w : Wait} (h : WakeUps s)
    (hpc : s.pc i = .calling op w) (hw : w ≠ .parked) (he : s.queue.enter op = none) :
    WakeUps ⟨s.queue, Function.update s.pc i (.calling op .parked), s.log⟩ := by
  have hready := enter_eq_none_iff.mp he
  have hnp : ∀ cv, ¬ Parked cv (s.pc i) := fun cv => by rw [hpc]; exact not_parked hw
  have hopen : ∀ j cv, Function.update s.pc i (.calling op .parked) j = .closing cv →
      s.queue.closed = true :=
    fun j cv hj => h.opened j cv (Threads.of_update hj (by simp))
  cases op with
  | push v =>
    simp only [ready, Bool.or_eq_false_iff, decide_eq_false_iff_not] at hready
    have hzero : s.queue.capacity - s.queue.q.length = 0 := by omega
    refine ⟨fun hk => covered_frame (h.notEmpty hk) (hnp _) ?_ ?_, fun _ => ?_,
      fun hk => ?_, hopen⟩
    · rw [hpc, woken_iff]
      intro hex
      obtain ⟨_, he, hcv⟩ := hex
      cases he
      cases hcv
    · rw [parked_notEmpty]
      simp
    · rw [hzero]
      exact covered_zero _ _ _
    · rw [hready.1] at hk
      cases hk
  | pop =>
    simp only [ready, Bool.or_eq_false_iff, Bool.not_eq_false', List.isEmpty_iff] at hready
    refine ⟨fun _ => ?_, fun hk => covered_frame (h.notFull hk) (hnp _) ?_ ?_,
      fun hk => ?_, hopen⟩
    · rw [hready.2]
      exact covered_zero _ _ _
    · rw [hpc, woken_iff]
      intro hex
      obtain ⟨_, he, hcv⟩ := hex
      cases he
      cases hcv
    · rw [parked_notFull]
      simp
    · rw [hready.1] at hk
      cases hk
  | close => simp [ready] at hready

/-- A critical section pays for the item or slot it makes with its notification
and for the one it takes with its own wake-up. -/
theorem WakeUps.finish {s : System ι T} {i : ι} {op : Op T} {w : Wait} {wakes : Option ι}
    {c : Section T} {pc : ι → Pc T} {log} (h : WakeUps s) (hpc : s.pc i = .calling op w)
    (hw : w ≠ .parked) (he : s.queue.enter op = some c)
    (hs : signal c.notify wakes (Function.update s.pc i (after op c.res)) = some pc) :
    WakeUps ⟨c.queue, pc, log⟩ := by
  have hi : ∀ cv, s.pc i ≠ .closing cv := fun cv hk => by rw [hpc] at hk; cases hk
  have hclosing : s.queue.closed = true → Closing pc := fun hk =>
    ((h.closing hk).update hi fun _ => not_parked_after).signal hs
  have hopened : op ≠ .close → ∀ j cv, pc j = .closing cv → s.queue.closed = true := by
    intro hop j cv hj
    have hnw : ∀ d, ¬ Woken d (pc j) := fun d => by rw [hj]; exact not_woken_closing
    refine h.opened j cv (Threads.of_update ((signal_of_not_woken hs hnw).trans hj) ?_)
    cases op <;> simp_all [after]
  rcases enter_cases he with ⟨v, rfl, hc, hl, rfl⟩ | ⟨v, rfl, hc, rfl⟩ | ⟨v, rest, rfl, hq, rfl⟩ |
    ⟨rfl, hq, hc, rfl⟩ | ⟨rfl, rfl⟩
  · -- an item more, a slot less, one popper notified
    refine ⟨?_, ?_, fun hk => hclosing hk, hopened (by simp)⟩
    · intro hk
      have hleave : Covered .notEmpty (Function.update s.pc i (after (.push v) (.pushed true)))
          1 (s.queue.q.length + 1) :=
        covered_leave (h.notEmpty hk) hpc hw (by simp [waitsOn])
      simpa using hleave.notifyOne hs
    · intro hk
      have hleave : Covered .notFull (Function.update s.pc i (after (.push v) (.pushed true)))
          0 (s.queue.capacity - (s.queue.q.length + 1)) :=
        covered_leave (h.notFull hk) hpc hw (by simp [waitsOn]; omega)
      simpa using hleave.notifyOne_other hs
  · have hfalse : ∀ {P : Prop}, s.queue.closed = false → P := fun hk => by rw [hc] at hk; cases hk
    exact ⟨fun hk => hfalse hk, fun hk => hfalse hk, fun hk => hclosing hk, hopened (by simp)⟩
  · -- an item less, a slot more, one pusher notified
    refine ⟨?_, ?_, fun hk => hclosing hk, hopened (by simp)⟩
    · intro hk
      have hleave : Covered .notEmpty (Function.update s.pc i (after .pop (.popped (some v))))
          0 rest.length :=
        covered_leave (h.notEmpty hk) hpc hw (by simp [waitsOn, hq])
      exact hleave.notifyOne_other hs
    · intro hk
      have hleave : Covered .notFull (Function.update s.pc i (after .pop (.popped (some v))))
          1 (s.queue.capacity - rest.length) :=
        covered_leave (h.notFull hk) hpc hw (by simp [waitsOn, hq]; omega)
      exact hleave.notifyOne hs
  · have hfalse : ∀ {P : Prop}, s.queue.closed = false → P := fun hk => by rw [hc] at hk; cases hk
    exact ⟨fun hk => hfalse hk, fun hk => hfalse hk, fun hk => hclosing hk, hopened (by simp)⟩
  · -- the flag is up and the closing thread owes both notifications
    cases hs
    refine ⟨nofun, nofun, fun _ => ⟨fun _ _ => ⟨i, ?_⟩, fun _ _ => ⟨i, .notEmpty, ?_⟩⟩,
      fun _ _ _ => rfl⟩ <;> simp [after]

/-- After its `notify_all` on `cv` a close leaves nobody asleep there. -/
theorem WakeUps.notifyAll {s : System ι T} {i : ι} {cv : Cv} {p : Pc T} {log} (h : WakeUps s)
    (hpc : s.pc i = .closing cv)
    (hp : cv = .notEmpty ∧ p = .closing .notFull ∨ cv = .notFull ∧ p = .done .close .closed) :
    WakeUps ⟨s.queue, Function.update (CondVar.notifyAll cv s.pc) i p, log⟩ := by
  have hk : s.queue.closed = true := h.opened i cv hpc
  have hno : ∀ {P : Prop}, s.queue.closed = false → P := fun hf => by rw [hk] at hf; cases hf
  -- who sleeps now slept before, on the other condition variable
  have hpark : ∀ d j, Parked d (Function.update (CondVar.notifyAll cv s.pc) i p j) →
      d ≠ cv ∧ Parked d (s.pc j) := by
    intro d j hj
    by_cases hji : j = i
    · rw [hji, Function.update_self, parked_iff] at hj
      obtain ⟨_, he, _⟩ := hj
      rcases hp with ⟨_, rfl⟩ | ⟨_, rfl⟩ <;> cases he
    · rw [Function.update_of_ne hji] at hj
      have hne : d ≠ cv := fun hd => notifyAll_not_parked cv s.pc j (hd ▸ hj)
      exact ⟨hne, (notifyAll_parked_iff hne s.pc j).mp hj⟩
  refine ⟨fun hf => hno hf, fun hf => hno hf, fun _ => ⟨fun j hj => ?_, fun j hj => ?_⟩,
    fun _ _ _ => hk⟩
  · obtain ⟨hne, hj⟩ := hpark _ j hj
    obtain ⟨k, hkc⟩ := (h.closing hk).notEmpty j hj
    have hki : k ≠ i := by
      intro heq
      subst heq
      rw [hpc] at hkc
      cases hkc
      exact hne rfl
    exact ⟨k, (Function.update_of_ne hki _ _).trans (notifyAll_closing hkc)⟩
  · obtain ⟨hne, hj⟩ := hpark _ j hj
    rcases hp with ⟨rfl, rfl⟩ | ⟨rfl, rfl⟩
    · exact ⟨i, .notFull, by simp⟩
    · exact absurd rfl hne

theorem WakeUps.step {s t : System ι T} {a : Action ι T} (h : WakeUps s)
    (hs : step s a = some t) : WakeUps t := by
  cases step_cases hs with
  | call hpc =>
    exact h.move (by simp [hpc]) (by simp [hpc]) (fun _ => not_parked (by simp)) (by simp)
  | park hpc hw henter => exact h.park hpc hw henter
  | finish hpc hw henter hsignal => exact h.finish hpc hw henter hsignal
  | @spurious i op hpc =>
    have hwoken : (.calling op .woken : Pc T) = Waiter.wake (s.pc i) := by rw [hpc]; rfl
    have hnp : ∀ cv, ¬ Parked cv (.calling op .woken : Pc T) := fun _ => not_parked (by simp)
    have hclosing : ∀ cv, s.pc i ≠ .closing cv := by simp [hpc]
    cases hop : waitsOn op with
    | none =>
      cases op <;> cases hop
      exact ⟨fun hk => covered_frame (h.notEmpty hk) (by simp [hpc, parked_iff, waitsOn])
          (by simp [hpc, woken_iff]) (hnp _),
        fun hk => covered_frame (h.notFull hk) (by simp [hpc, parked_iff, waitsOn])
          (by simp [hpc, woken_iff]) (hnp _),
        fun hk => (h.closing hk).update hclosing hnp,
        fun j cv hj => h.opened j cv (Threads.of_update hj (by simp))⟩
    | some cv =>
      have hpk : Parked cv (s.pc i) := parked_iff.mpr ⟨op, hpc, hop⟩
      exact ⟨fun hk => by rw [hwoken]; exact (h.notEmpty hk).wake hpk,
        fun hk => by rw [hwoken]; exact (h.notFull hk).wake hpk,
        fun hk => (h.closing hk).update hclosing hnp,
        fun j cv hj => h.opened j cv (Threads.of_update hj (by simp))⟩
  | notifyEmpty hpc => exact h.notifyAll hpc (.inl ⟨rfl, rfl⟩)
  | notifyFull hpc => exact h.notifyAll hpc (.inr ⟨rfl, rfl⟩)
  | ret hpc =>
    exact h.move (by simp [hpc]) (by simp [hpc]) (fun cv => by simp [parked_iff]) (by simp)

/-- `close` has no wait to sleep in. -/
def CloseAwake (s : System ι T) : Prop := ∀ i, s.pc i ≠ .calling .close .parked

theorem CloseAwake.step {s t : System ι T} {a : Action ι T} (h : CloseAwake s)
    (hs : step s a = some t) : CloseAwake t := by
  intro j hj
  cases step_cases hs with
  | call => exact h j (Threads.of_update hj (by simp))
  | @park i op w _ hpc hw henter =>
    refine h j (Threads.of_update hj ?_)
    intro he
    cases he
    cases henter
  | @finish i op w wakes c pc hpc hw henter hsignal =>
    have hnw : ∀ cv, ¬ Woken cv (pc j) := fun cv => by
      change pc j = _ at hj
      rw [hj]
      exact not_woken_parked
    refine h j (Threads.of_update ((signal_of_not_woken hsignal hnw).trans hj) ?_)
    cases op <;> simp [after]
  | spurious => exact h j (Threads.of_update hj (by simp))
  | notifyEmpty | notifyFull =>
    have hj := Threads.of_update hj (by simp)
    unfold CondVar.notifyAll at hj
    split at hj
    · rename_i hp
      have hw := hp.woken_wake
      rw [hj] at hw
      exact not_woken_parked hw
    · exact h j hj
  | ret => exact h j (Threads.of_update hj (by simp))

theorem reachable_closeAwake {b : BoundedQueue T} {s : System ι T}
    (h : Machine.Reachable step (start b) s) : CloseAwake s :=
  h.invariant (fun i => by simp [start]) fun _ ih hs => ih.step hs

theorem reachable_wakeUps {b : BoundedQueue T} {s : System ι T}
    (h : Machine.Reachable step (start b) s) : WakeUps s :=
  h.invariant (wakeUps_start b) fun _ ih hs => ih.step hs

/-- The operation has been called and has not finished. -/
def Pc.unfinished : Pc T → Prop
  | .calling _ _ | .closing _ => True
  | .idle | .done _ _ => False

/-- What the wake-ups guarantee in a state. `woken cv` counts the threads woken
from a wait on `cv` that have not re-checked their predicate yet. -/
structure NoLostWakeUp (s : System ι T) : Prop where
  /-- Open, with a popper asleep: the items are paid for by woken poppers. -/
  notEmpty : s.queue.closed = false → (∃ i, s.pc i = .calling .pop .parked) →
    s.queue.q.length ≤ woken .notEmpty s.pc
  /-- Open, with a pusher asleep: the free slots are paid for by woken pushers. -/
  notFull : s.queue.closed = false → (∃ i v, s.pc i = .calling (.push v) .parked) →
    s.queue.capacity - s.queue.q.length ≤ woken .notFull s.pc
  /-- Closed: a popper sleeps only before some `not_empty_.notify_all()`. -/
  closedEmpty : s.queue.closed = true → (∃ i, s.pc i = .calling .pop .parked) →
    ∃ j, s.pc j = .closing .notEmpty
  /-- Closed: a pusher sleeps only before some `not_full_.notify_all()`. -/
  closedFull : s.queue.closed = true → (∃ i v, s.pc i = .calling (.push v) .parked) →
    ∃ j cv, s.pc j = .closing cv
  /-- Not everybody sleeps while one of the sleepers could go on. -/
  notStuck : ¬ ((∀ i, (s.pc i).unfinished → ∃ op, s.pc i = .calling op .parked) ∧
    ∃ i op, s.pc i = .calling op .parked ∧ s.queue.ready op = true)

theorem woken_notEmpty {p : Pc T} : Woken .notEmpty p ↔ p = .calling .pop .woken := by
  rw [woken_iff]
  constructor
  · intro hex
    obtain ⟨op, rfl, h⟩ := hex
    cases op <;> simp [waitsOn] at h ⊢
  · intro heq
    subst heq
    exact ⟨.pop, rfl, rfl⟩

theorem woken_notFull {p : Pc T} : Woken .notFull p ↔ ∃ v, p = .calling (.push v) .woken := by
  rw [woken_iff]
  constructor
  · intro hex
    obtain ⟨op, rfl, h⟩ := hex
    cases op <;> simp [waitsOn] at h ⊢
  · intro hex
    obtain ⟨v, rfl⟩ := hex
    exact ⟨.push v, rfl, rfl⟩

omit [DecidableEq ι] in
/-- When all unfinished operations sleep, no predicate of a sleeper is true:
open, the counts leave no item and no slot; closed, a close is still awake. -/
theorem WakeUps.not_stuck {s : System ι T} (h : WakeUps s) (hawake : CloseAwake s)
    (hall : ∀ i, (s.pc i).unfinished → ∃ op, s.pc i = .calling op .parked) {i : ι} {op : Op T}
    (hpc : s.pc i = .calling op .parked) : s.queue.ready op = false := by
  have hnowoken : ∀ cv j, ¬ Woken cv (s.pc j) := by
    intro cv j hw
    obtain ⟨op', he, _⟩ := woken_iff.mp hw
    obtain ⟨op'', hp⟩ := hall j (by rw [he]; trivial)
    rw [he] at hp
    cases hp
  have hnoclosing : ∀ j cv, s.pc j ≠ .closing cv := by
    intro j cv hj
    obtain ⟨op', hp⟩ := hall j (by rw [hj]; trivial)
    rw [hj] at hp
    cases hp
  cases hc : s.queue.closed with
  | true =>
    exfalso
    cases op with
    | push v =>
      obtain ⟨j, cv, hj⟩ := (h.closing hc).notFull i (parked_notFull.mpr ⟨v, hpc⟩)
      exact hnoclosing j cv hj
    | pop =>
      obtain ⟨j, hj⟩ := (h.closing hc).notEmpty i (parked_notEmpty.mpr hpc)
      exact hnoclosing j _ hj
    | close => exact absurd hpc (hawake i)
  | false =>
    cases op with
    | push v =>
      have := (h.notFull hc).eq_zero (parked_notFull.mpr ⟨v, hpc⟩) (hnowoken _)
      simp [ready, hc]
      omega
    | pop =>
      have := (h.notEmpty hc).eq_zero (parked_notEmpty.mpr hpc) (hnowoken _)
      simpa [ready, hc] using this
    | close => exact absurd hpc (hawake i)

/-- For any capacity, any threads and any interleaving with spurious wake-ups
and arbitrary choices of `notify_one`, no reachable state has lost a wake-up. -/
theorem boundedQueue_no_lost_wakeup {b : BoundedQueue T} {s : System ι T}
    (h : Machine.Reachable step (start b) s) : NoLostWakeUp s := by
  have hw := reachable_wakeUps h
  refine ⟨?_, ?_, ?_, ?_, ?_⟩
  · intro hc hex
    obtain ⟨i, hi⟩ := hex
    exact hw.notEmpty hc (parked_pos_iff.mpr ⟨i, parked_notEmpty.mpr hi⟩)
  · intro hc hex
    obtain ⟨i, v, hi⟩ := hex
    exact hw.notFull hc (parked_pos_iff.mpr ⟨i, parked_notFull.mpr ⟨v, hi⟩⟩)
  · intro hc hex
    obtain ⟨i, hi⟩ := hex
    exact (hw.closing hc).notEmpty i (parked_notEmpty.mpr hi)
  · intro hc hex
    obtain ⟨i, v, hi⟩ := hex
    exact (hw.closing hc).notFull i (parked_notFull.mpr ⟨v, hi⟩)
  · intro hex
    obtain ⟨hall, i, op, hi, hready⟩ := hex
    rw [hw.not_stuck (reachable_closeAwake h) hall hi] at hready
    cases hready

/-- Two consumers sleep on an empty queue and a push wakes the second of them. -/
def oneOfTwo : List (Action (Fin 3) Nat) :=
  [.call 1 .pop, .lock 1 none, .call 2 .pop, .lock 2 none, .call 0 (.push 7), .lock 0 (some 2)]

theorem boundedQueue_no_lost_wakeup_oneOfTwo :
    ∃ s, Machine.run step (start ⟨[], 4, false, by decide⟩) oneOfTwo = some s ∧
      s.queue.q.length = 1 ∧ parked .notEmpty s.pc = 1 ∧ woken .notEmpty s.pc = 1 ∧
      NoLostWakeUp s := by
  obtain ⟨s, hs, hlength, hparked, hwoken⟩ :
      ∃ s, Machine.run step (start ⟨[], 4, false, by decide⟩) oneOfTwo = some s ∧
        s.queue.q.length = 1 ∧ parked .notEmpty s.pc = 1 ∧ woken .notEmpty s.pc = 1 :=
    ⟨_, rfl, rfl, rfl, rfl⟩
  exact ⟨s, hs, hlength, hparked, hwoken,
    boundedQueue_no_lost_wakeup (Machine.reachable_of_run hs)⟩

end BackendPatterns.BoundedQueue
