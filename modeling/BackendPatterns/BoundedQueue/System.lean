import BackendPatterns.Lib.Machine
import BackendPatterns.Lib.CondVar
import BackendPatterns.BoundedQueue.Queue

/-! # Threads calling one queue

Any number of threads call `push`, `pop` and `close` on one object. A step is a
critical section under `mu_`, a wake-up, one `notify_all` of `close`, or a
call or return. The log is a history kept for the statements; no step reads it. -/

namespace BackendPatterns.BoundedQueue
open BackendPatterns.Lib BackendPatterns.Lib.CondVar BackendPatterns.Lib.Fifo
open BackendPatterns.Lib.History

variable {ι T : Type}

/-- Where a thread stands with respect to the queue. -/
inductive Pc (T : Type)
  | idle
  | calling (op : Op T) (w : Wait)
  | closing (cv : Cv)
  | done (op : Op T) (r : Res T)

/-- The condition variable an operation waits on. -/
def waitsOn : Op T → Option Cv
  | .push _ => some .notFull
  | .pop => some .notEmpty
  | .close => none

instance : Waiter (Pc T) Cv where
  waiting
    | .calling op w => (waitsOn op).map (·, w)
    | _ => none
  wake
    | .calling op _ => .calling op .woken
    | p => p
  waiting_wake {p c} h := by
    cases p with
    | calling op w =>
      simp only [Option.map_eq_some_iff, Prod.mk.injEq] at h ⊢
      obtain ⟨_, hc, rfl, _⟩ := h
      exact ⟨_, hc, rfl, trivial⟩
    | _ => cases h

structure System (ι T : Type) where
  queue : BoundedQueue T
  pc : ι → Pc T
  log : List (Event ι (Op T) (Res T))

/-- The choices of the scheduler: who moves, and whom a `notify_one` wakes. -/
inductive Action (ι T : Type)
  | call (i : ι) (op : Op T)
  | lock (i : ι) (wakes : Option ι)
  | spurious (i : ι)
  | notifyAll (i : ι)
  | ret (i : ι)

def start (b : BoundedQueue T) : System ι T := ⟨b, fun _ => .idle, []⟩

/-- `close` still has its notifications to do when it releases the lock. -/
def after (op : Op T) (r : Res T) : Pc T :=
  match op with
  | .close => .closing .notEmpty
  | _ => .done op r

variable [DecidableEq ι] [Fintype ι]

/-- The `notify_one` of a critical section, if it issued one. -/
def signal (notify : Option Cv) (wakes : Option ι) (pc : ι → Pc T) : Option (ι → Pc T) :=
  match notify with
  | none => some pc
  | some cv => notifyOne cv wakes pc

def step (s : System ι T) : Action ι T → Option (System ι T)
  | .call i op =>
    match s.pc i with
    | .idle => some { s with
        pc := Function.update s.pc i (.calling op .entry), log := s.log ++ [.call i op] }
    | _ => none
  | .lock i wakes =>
    match s.pc i with
    | .calling _ .parked => none
    | .calling op _ =>
      match s.queue.enter op with
      | none => some { s with pc := Function.update s.pc i (.calling op .parked) }
      | some c => (signal c.notify wakes (Function.update s.pc i (after op c.res))).map fun pc =>
          ⟨c.queue, pc, s.log ++ [.effect i op c.res]⟩
    | _ => none
  | .spurious i =>
    match s.pc i with
    | .calling op .parked => some { s with pc := Function.update s.pc i (.calling op .woken) }
    | _ => none
  | .notifyAll i =>
    match s.pc i with
    | .closing .notEmpty => some { s with
        pc := Function.update (CondVar.notifyAll .notEmpty s.pc) i (.closing .notFull) }
    | .closing .notFull => some { s with
        pc := Function.update (CondVar.notifyAll .notFull s.pc) i (.done .close .closed) }
    | _ => none
  | .ret i =>
    match s.pc i with
    | .done op r => some { s with
        pc := Function.update s.pc i .idle, log := s.log ++ [.ret i op r] }
    | _ => none

/-- What each action does, guards included; the proofs below split on this
instead of unfolding `step`. -/
inductive Steps (s : System ι T) : Action ι T → System ι T → Prop
  | call {i : ι} {op : Op T} (hpc : s.pc i = .idle) :
      Steps s (.call i op) ⟨s.queue, Function.update s.pc i (.calling op .entry),
        s.log ++ [.call i op]⟩
  | park {i : ι} {op : Op T} {w : Wait} {wakes : Option ι} (hpc : s.pc i = .calling op w)
      (hw : w ≠ .parked) (henter : s.queue.enter op = none) :
      Steps s (.lock i wakes) ⟨s.queue, Function.update s.pc i (.calling op .parked), s.log⟩
  | finish {i : ι} {op : Op T} {w : Wait} {wakes : Option ι} {c : Section T} {pc : ι → Pc T}
      (hpc : s.pc i = .calling op w) (hw : w ≠ .parked) (henter : s.queue.enter op = some c)
      (hsignal : signal c.notify wakes (Function.update s.pc i (after op c.res)) = some pc) :
      Steps s (.lock i wakes) ⟨c.queue, pc, s.log ++ [.effect i op c.res]⟩
  | spurious {i : ι} {op : Op T} (hpc : s.pc i = .calling op .parked) :
      Steps s (.spurious i) ⟨s.queue, Function.update s.pc i (.calling op .woken), s.log⟩
  | notifyEmpty {i : ι} (hpc : s.pc i = .closing .notEmpty) :
      Steps s (.notifyAll i) ⟨s.queue,
        Function.update (CondVar.notifyAll .notEmpty s.pc) i (.closing .notFull), s.log⟩
  | notifyFull {i : ι} (hpc : s.pc i = .closing .notFull) :
      Steps s (.notifyAll i) ⟨s.queue,
        Function.update (CondVar.notifyAll .notFull s.pc) i (.done .close .closed), s.log⟩
  | ret {i : ι} {op : Op T} {r : Res T} (hpc : s.pc i = .done op r) :
      Steps s (.ret i) ⟨s.queue, Function.update s.pc i .idle, s.log ++ [.ret i op r]⟩

theorem step_cases {s t : System ι T} {a : Action ι T} (h : step s a = some t) : Steps s a t := by
  cases a with
  | call i op =>
    simp only [step] at h
    split at h
    · rename_i hpc; cases h; exact .call hpc
    · cases h
  | lock i wakes =>
    simp only [step] at h
    split at h
    · cases h
    · rename_i op w hw hpc
      split at h
      · rename_i he; cases h; exact .park hpc hw he
      · rename_i c he
        obtain ⟨pc, hs, rfl⟩ := Option.map_eq_some_iff.mp h
        exact .finish hpc hw he hs
    · cases h
  | spurious i =>
    simp only [step] at h
    split at h
    · rename_i hpc; cases h; exact .spurious hpc
    · cases h
  | notifyAll i =>
    simp only [step] at h
    split at h
    · rename_i hpc; cases h; exact .notifyEmpty hpc
    · rename_i hpc; cases h; exact .notifyFull hpc
    · cases h
  | ret i =>
    simp only [step] at h
    split at h
    · rename_i hpc; cases h; exact .ret hpc
    · cases h

/-- A thread that is about to take the lock can take it. -/
theorem lock_enabled {s : System ι T} {i : ι} {op : Op T} {w : Wait}
    (hpc : s.pc i = .calling op w) (hw : w ≠ .parked) :
    ∃ wakes t, step s (.lock i wakes) = some t := by
  cases he : s.queue.enter op with
  | none =>
    refine ⟨none, ⟨s.queue, Function.update s.pc i (.calling op .parked), s.log⟩, ?_⟩
    cases w <;> simp_all [step]
  | some c =>
    have hsig : ∃ wakes pc,
        signal c.notify wakes (Function.update s.pc i (after op c.res)) = some pc := by
      cases hn : c.notify with
      | none => exact ⟨none, _, rfl⟩
      | some cv => exact notifyOne_total cv _
    obtain ⟨wakes, pc, hs⟩ := hsig
    refine ⟨wakes, ⟨c.queue, pc, s.log ++ [.effect i op c.res]⟩, ?_⟩
    cases w <;> simp_all [step]

theorem notifyAll_enabled {s : System ι T} {i : ι} {cv : Cv} (hpc : s.pc i = .closing cv) :
    ∃ t, step s (.notifyAll i) = some t := by
  cases cv <;> simp [step, hpc]

end BackendPatterns.BoundedQueue
