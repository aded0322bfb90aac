import BackendPatterns.BoundedQueue.WakeUp
import BackendPatterns.BoundedQueue.Program

/-! # Control in the producer/consumer program

Where each program thread stands determines where it stands in the queue. Since
`main` closes only after joining the producers, no producer ever sees the queue
closed, and a consumer leaves only when the queue is closed and drained. -/

namespace BackendPatterns.BoundedQueue
open BackendPatterns.Lib BackendPatterns.Lib.CondVar BackendPatterns.Lib.Fifo
open BackendPatterns.Lib.History

section Calls

variable {ι T : Type}

/-- How a position changes while its call has no effect. -/
inductive Moved : Pc T → Pc T → Prop
  | refl (p : Pc T) : Moved p p
  | wait (op : Op T) (w w' : Wait) : Moved (.calling op w) (.calling op w')
  | notified (cv : Cv) : Moved (.closing cv) (.closing .notFull)
  | closed (cv : Cv) : Moved (.closing cv) (.done .close .closed)

theorem wake_moved (p : Pc T) : Moved p (Waiter.wake p) := by
  cases p with
  | calling op w => exact .wait op w .woken
  | _ => exact .refl _

theorem notifyAll_moved (cv : Cv) (f : ι → Pc T) (j : ι) :
    Moved (f j) (CondVar.notifyAll cv f j) := by
  unfold CondVar.notifyAll
  split
  · exact wake_moved _
  · exact .refl _

theorem moved_update [DecidableEq ι] {f : ι → Pc T} {i : ι} {p : Pc T} (h : Moved (f i) p) (j : ι) :
    Moved (f j) (Function.update f i p j) := by
  by_cases hji : j = i
  · subst hji
    rw [Function.update_self]
    exact h
  · rw [Function.update_of_ne hji]
    exact .refl _

variable [DecidableEq ι] [Fintype ι]

theorem signal_moved {notify : Option Cv} {wakes : Option ι} {f g : ι → Pc T}
    (hs : signal notify wakes f = some g) (j : ι) : Moved (f j) (g j) := by
  cases notify with
  | none => cases hs; exact .refl _
  | some cv =>
    rcases notifyOne_cases hs with ⟨rfl, _⟩ | ⟨k, _, rfl⟩
    · exact .refl _
    · by_cases hjk : j = k
      · subst hjk
        rw [Function.update_self]
        exact wake_moved _
      · rw [Function.update_of_ne hjk]
        exact .refl _

theorem signal_after {notify : Option Cv} {wakes : Option ι} {f g : ι → Pc T} {i : ι}
    {op : Op T} {r : Res T} (hf : f i = after op r) (hs : signal notify wakes f = some g) :
    g i = after op r := by
  cases notify with
  | none => cases hs; exact hf
  | some cv => rw [notifyOne_eq hs (by rw [hf]; exact not_parked_after), hf]

/-- An action inside a call either changes nothing but positions, or is the
critical section that gives one call its effect. -/
inductive InCall (s t : System ι T) : Prop
  | quiet (hq : t.queue = s.queue) (hl : t.log = s.log) (hm : ∀ j, Moved (s.pc j) (t.pc j))
  | effect {i : ι} {op : Op T} {w : Wait} {c : Section T} (hpc : s.pc i = .calling op w)
      (henter : s.queue.enter op = some c) (hq : t.queue = c.queue)
      (hl : t.log = s.log ++ [.effect i op c.res]) (hi : t.pc i = after op c.res)
      (hm : ∀ j, j ≠ i → Moved (s.pc j) (t.pc j))

theorem inCall_cases {s t : System ι T} {a : Action ι T} (hs : step s a = some t)
    (hcall : ∀ i op, a ≠ .call i op) (hret : ∀ i, a ≠ .ret i) : InCall s t := by
  cases step_cases hs with
  | call => exact absurd rfl (hcall _ _)
  | park hpc hw henter =>
    exact .quiet rfl rfl (moved_update (by rw [hpc]; exact .wait _ _ _))
  | @finish i op w wakes c pc hpc hw henter hsignal =>
    refine .effect hpc henter rfl rfl (signal_after (Function.update_self ..) hsignal) ?_
    intro j hj
    have hm := signal_moved hsignal j
    rwa [Function.update_of_ne hj] at hm
  | spurious hpc => exact .quiet rfl rfl (moved_update (by rw [hpc]; exact .wait _ _ _))
  | @notifyEmpty i hpc =>
    refine .quiet rfl rfl fun j => ?_
    by_cases hji : j = i
    · subst hji
      simp only [Function.update_self, hpc]
      exact .notified _
    · simp only [Function.update_of_ne hji]
      exact notifyAll_moved _ _ _
  | @notifyFull i hpc =>
    refine .quiet rfl rfl fun j => ?_
    by_cases hji : j = i
    · subst hji
      simp only [Function.update_self, hpc]
      exact .closed _
    · simp only [Function.update_of_ne hji]
      exact notifyAll_moved _ _ _
  | ret => exact absurd rfl (hret _)

theorem call_eq {s t : System ι T} {i : ι} {op : Op T} (hs : step s (.call i op) = some t) :
    s.pc i = .idle ∧
      t = ⟨s.queue, Function.update s.pc i (.calling op .entry), s.log ++ [.call i op]⟩ := by
  cases step_cases hs with
  | call hpc => exact ⟨hpc, rfl⟩

theorem ret_eq {s t : System ι T} {i : ι} (hs : step s (.ret i) = some t) :
    ∃ op r, s.pc i = .done op r ∧
      t = ⟨s.queue, Function.update s.pc i .idle, s.log ++ [.ret i op r]⟩ := by
  cases step_cases hs with
  | ret hpc => exact ⟨_, _, hpc, rfl⟩

end Calls

variable {P C : Nat}

def Drained {T : Type} (b : BoundedQueue T) : Prop := b.closed = true ∧ b.q = []

/-- A producer's place in its loop and in the queue. It is never refused. -/
def ProducerOk (cfg : Config P) (p : Fin P) : ProducerPc → Pc (Item P) → Prop
  | .loop i, pc => pc = .idle ∧ i ≤ cfg.count p
  | .pushing i, pc => i < cfg.count p ∧ ((∃ w, pc = .calling (.push (cfg.item p i)) w) ∨
      pc = .done (.push (cfg.item p i)) (.pushed true))
  | .done, pc => pc = .idle
  | .stopped, _ => False

/-- A consumer's place; it learns of the end only when `drained` holds. -/
def ConsumerOk (drained : Prop) : ConsumerPc P → Pc (Item P) → Prop
  | .loop, pc => pc = .idle
  | .popping, pc => (∃ w, pc = .calling .pop w) ∨
      (∃ item, pc = .done .pop (.popped (some item))) ∨ (pc = .done .pop (.popped none) ∧ drained)
  | .handling _, pc => pc = .idle
  | .done, pc => pc = .idle ∧ drained

/-- `closed_` is false up to the critical section of `main`'s own close. -/
def MainOk (closed : Bool) : MainPc → Pc (Item P) → Prop
  | .joinProducers _, pc => pc = .idle ∧ closed = false
  | .close, pc => pc = .idle ∧ closed = false
  | .closing, pc => ((∃ w, pc = .calling .close w) ∧ closed = false) ∨
      (((∃ cv, pc = .closing cv) ∨ pc = .done .close .closed) ∧ closed = true)
  | .joinConsumers _, pc => pc = .idle ∧ closed = true
  | .done, pc => pc = .idle ∧ closed = true

theorem ProducerOk.moved {cfg : Config P} {p : Fin P} {pr : ProducerPc} {pc pc' : Pc (Item P)}
    (h : ProducerOk cfg p pr pc) (hm : Moved pc pc') : ProducerOk cfg p pr pc' := by
  cases hm with
  | refl => exact h
  | wait op w w' => cases pr <;> simp_all [ProducerOk]
  | notified => cases pr <;> simp_all [ProducerOk]
  | closed => cases pr <;> simp_all [ProducerOk]

theorem ConsumerOk.moved {d d' : Prop} {co : ConsumerPc P} {pc pc' : Pc (Item P)}
    (h : ConsumerOk d co pc) (hd : d → d') (hm : Moved pc pc') : ConsumerOk d' co pc' := by
  cases hm with
  | refl =>
    cases co with
    | popping =>
      rcases h with hw | hs | ⟨hn, hdr⟩
      · exact .inl hw
      · exact .inr (.inl hs)
      · exact .inr (.inr ⟨hn, hd hdr⟩)
    | done => exact ⟨h.1, hd h.2⟩
    | _ => exact h
  | wait op w w' => cases co <;> simp_all [ConsumerOk]
  | notified => cases co <;> simp_all [ConsumerOk]
  | closed => cases co <;> simp_all [ConsumerOk]

theorem MainOk.moved {closed : Bool} {ma : MainPc} {pc pc' : Pc (Item P)}
    (h : MainOk closed ma pc) (hm : Moved pc pc') : MainOk closed ma pc' := by
  cases hm with
  | refl => exact h
  | wait op w w' => cases ma <;> simp_all [MainOk]
  | notified => cases ma <;> simp_all [MainOk]
  | closed => cases ma <;> simp_all [MainOk]

/-- How many producers `main` has joined. -/
def MainPc.joinedProducers (P : Nat) : MainPc → Nat
  | .joinProducers k => k
  | _ => P

def MainPc.joinedConsumers (C : Nat) : MainPc → Nat
  | .joinConsumers k => k
  | .done => C
  | _ => 0

structure Control (cfg : Config P) (m : Program P C) : Prop where
  producer : ∀ p, ProducerOk cfg p (m.prod p) (m.sys.pc (.producer p))
  consumer : ∀ c, ConsumerOk (Drained m.sys.queue) (m.cons c) (m.sys.pc (.consumer c))
  main : MainOk m.sys.queue.closed m.main (m.sys.pc .main)
  producersDone : ∀ p : Fin P, p < m.main.joinedProducers P → m.prod p = .done
  consumersDone : ∀ c : Fin C, c < m.main.joinedConsumers C → m.cons c = .done

theorem control_start (cfg : Config P) : Control cfg (cfg.start C) :=
  ⟨fun _ => ⟨rfl, Nat.zero_le _⟩, fun _ => rfl, ⟨rfl, rfl⟩, fun _ h => absurd h (Nat.not_lt_zero _),
    fun _ h => absurd h (Nat.not_lt_zero _)⟩

variable {cfg : Config P} {m : Program P C}

/-- While a producer is at work the queue is open. -/
theorem Control.open_of_producing (h : Control cfg m) {p : Fin P} (hp : m.prod p ≠ .done) :
    m.sys.queue.closed = false := by
  have hm := h.main
  have hj := h.producersDone p
  cases hmain : m.main with
  | joinProducers k => rw [hmain] at hm; exact hm.2
  | close => rw [hmain] at hm; exact hm.2
  | closing => rw [hmain] at hj; exact absurd (hj p.isLt) hp
  | joinConsumers k => rw [hmain] at hj; exact absurd (hj p.isLt) hp
  | done => rw [hmain] at hj; exact absurd (hj p.isLt) hp

/-- A producer inside its call pushes its current item into an open queue. -/
theorem Control.pushing (h : Control cfg m) {p : Fin P} {op : Op (Item P)} {w : Wait}
    (hpc : m.sys.pc (.producer p) = .calling op w) :
    ∃ i, m.prod p = .pushing i ∧ i < cfg.count p ∧ op = .push (cfg.item p i) ∧
      m.sys.queue.closed = false := by
  have hp := h.producer p
  rw [hpc] at hp
  cases hprod : m.prod p with
  | pushing i =>
    have hopen := h.open_of_producing (p := p) (by rw [hprod]; simp)
    rw [hprod] at hp
    obtain ⟨hi, ⟨w', hw⟩ | hd⟩ := hp
    · cases hw; exact ⟨i, rfl, hi, rfl, hopen⟩
    · cases hd
  | loop i => rw [hprod] at hp; cases hp.1
  | done => rw [hprod] at hp; cases hp
  | stopped => rw [hprod] at hp; cases hp

theorem Control.popping (h : Control cfg m) {c : Fin C} {op : Op (Item P)} {w : Wait}
    (hpc : m.sys.pc (.consumer c) = .calling op w) : m.cons c = .popping ∧ op = .pop := by
  have hc := h.consumer c
  rw [hpc] at hc
  cases hcons : m.cons c with
  | popping =>
    rw [hcons] at hc
    rcases hc with ⟨w', hw⟩ | ⟨it, hd⟩ | ⟨hd, _⟩
    · cases hw; exact ⟨rfl, rfl⟩
    · cases hd
    · cases hd
  | loop => rw [hcons] at hc; cases hc
  | handling => rw [hcons] at hc; cases hc
  | done => rw [hcons] at hc; cases hc.1

theorem Control.closing (h : Control cfg m) {op : Op (Item P)} {w : Wait}
    (hpc : m.sys.pc .main = .calling op w) :
    m.main = .closing ∧ op = .close ∧ m.sys.queue.closed = false := by
  have hm := h.main
  rw [hpc] at hm
  cases hmain : m.main with
  | closing =>
    rw [hmain] at hm
    rcases hm with ⟨⟨w', hw⟩, hc⟩ | ⟨⟨cv, hd⟩ | hd, _⟩
    · cases hw; exact ⟨rfl, rfl, hc⟩
    · cases hd
    · cases hd
  | joinProducers => rw [hmain] at hm; cases hm.1
  | close => rw [hmain] at hm; cases hm.1
  | joinConsumers => rw [hmain] at hm; cases hm.1
  | done => rw [hmain] at hm; cases hm.1

theorem Control.inCall {s : System (Tid P C) (Item P)} (h : Control cfg m)
    (hc : InCall m.sys s) : Control cfg { m with sys := s } := by
  cases hc with
  | quiet hq hl hm =>
    refine ⟨fun p => (h.producer p).moved (hm _), fun c => (h.consumer c).moved ?_ (hm _), ?_,
      h.producersDone, h.consumersDone⟩
    · simp only [hq]; exact id
    · simp only [hq]; exact h.main.moved (hm _)
  | @effect i op w c hpc henter hq hl hi hm =>
    cases i with
    | producer p =>
      obtain ⟨i, hprod, hlt, rfl, hopen⟩ := h.pushing hpc
      have hnd : ¬ Drained m.sys.queue := fun hd => by rw [hd.1] at hopen; cases hopen
      rcases enter_cases henter with ⟨v, ho, _, _, rfl⟩ | ⟨v, _, hk, _⟩ | ⟨_, _, ho, _⟩ |
        ⟨ho, _⟩ | ⟨ho, _⟩
      · cases ho
        refine ⟨?_, fun c => (h.consumer c).moved (fun hd => absurd hd hnd) (hm _ (by simp)), ?_,
          h.producersDone, h.consumersDone⟩
        · intro p'
          by_cases hp : p' = p
          · subst hp
            simp only [hi, hprod]
            exact ⟨hlt, .inr rfl⟩
          · exact (h.producer p').moved (hm _ (by simpa using hp))
        · simp only [hq]
          exact h.main.moved (hm _ (by simp))
      · rw [hk] at hopen; cases hopen
      · cases ho
      · cases ho
      · cases ho
    | consumer c' =>
      obtain ⟨hcons, rfl⟩ := h.popping hpc
      rcases enter_cases henter with ⟨_, ho, _⟩ | ⟨_, ho, _⟩ | ⟨v, rest, _, hqv, rfl⟩ |
        ⟨_, hqn, hk, rfl⟩ | ⟨ho, _⟩
      · cases ho
      · cases ho
      · have hnd : ¬ Drained m.sys.queue := fun hd => by rw [hd.2] at hqv; cases hqv
        refine ⟨fun p => (h.producer p).moved (hm _ (by simp)), ?_, ?_, h.producersDone,
          h.consumersDone⟩
        · intro c
          by_cases hcc : c = c'
          · subst hcc
            simp only [hi, hcons]
            exact .inr (.inl ⟨v, rfl⟩)
          · exact (h.consumer c).moved (fun hd => absurd hd hnd) (hm _ (by simpa using hcc))
        · simp only [hq]
          exact h.main.moved (hm _ (by simp))
      · refine ⟨fun p => (h.producer p).moved (hm _ (by simp)), ?_, ?_, h.producersDone,
          h.consumersDone⟩
        · intro c
          by_cases hcc : c = c'
          · subst hcc
            simp only [hi, hcons, hq]
            exact .inr (.inr ⟨rfl, hk, hqn⟩)
          · simp only [hq]
            exact (h.consumer c).moved id (hm _ (by simpa using hcc))
        · simp only [hq]
          exact h.main.moved (hm _ (by simp))
      · cases ho
    | main =>
      obtain ⟨hmain, rfl, hopen⟩ := h.closing hpc
      cases henter
      have hnd : ¬ Drained m.sys.queue := fun hd => by rw [hd.1] at hopen; cases hopen
      refine ⟨fun p => (h.producer p).moved (hm _ (by simp)), fun c => (h.consumer c).moved
        (fun hd => absurd hd hnd) (hm _ (by simp)), ?_, h.producersDone, h.consumersDone⟩
      simp only [hi, hmain, hq]
      exact .inr ⟨.inl ⟨.notEmpty, rfl⟩, rfl⟩

/-- A producer's own step: its call, its return, the end of its loop. -/
theorem Control.moveProducer {s : System (Tid P C) (Item P)} {p : Fin P} {pr : ProducerPc}
    (h : Control cfg m) (hq : s.queue = m.sys.queue)
    (hpc : ∀ j, j ≠ .producer p → s.pc j = m.sys.pc j)
    (hok : ProducerOk cfg p pr (s.pc (.producer p))) (hp : m.prod p ≠ .done) :
    Control cfg { m with sys := s, prod := Function.update m.prod p pr } := by
  refine ⟨?_, ?_, ?_, ?_, h.consumersDone⟩
  · intro p'
    by_cases hpp : p' = p
    · subst hpp
      simpa only [Function.update_self] using hok
    · simp only [Function.update_of_ne hpp, hpc (.producer p') (by simpa using hpp)]
      exact h.producer p'
  · intro c
    simpa only [hpc (.consumer c) (by simp), hq] using h.consumer c
  · simpa only [hpc .main (by simp), hq] using h.main
  · intro p' hp'
    have hdone := h.producersDone p' hp'
    have hpp : p' ≠ p := by rintro rfl; exact hp hdone
    simpa only [Function.update_of_ne hpp] using hdone

/-- A consumer's own step: its call, its return, the handling of an item. -/
theorem Control.moveConsumer {s : System (Tid P C) (Item P)} {c : Fin C} {co : ConsumerPc P}
    {processed : Int} {handled : List (Fin C × Item P)}
    (h : Control cfg m) (hq : s.queue = m.sys.queue)
    (hpc : ∀ j, j ≠ .consumer c → s.pc j = m.sys.pc j)
    (hok : ConsumerOk (Drained m.sys.queue) co (s.pc (.consumer c))) (hc : m.cons c ≠ .done) :
    Control cfg ⟨s, m.prod, Function.update m.cons c co, m.main, processed, handled⟩ := by
  refine ⟨?_, ?_, ?_, h.producersDone, ?_⟩
  · intro p
    simpa only [hpc (.producer p) (by simp)] using h.producer p
  · intro c'
    by_cases hcc : c' = c
    · subst hcc
      simpa only [Function.update_self, hq] using hok
    · simp only [Function.update_of_ne hcc, hpc (.consumer c') (by simpa using hcc), hq]
      exact h.consumer c'
  · simpa only [hpc .main (by simp), hq] using h.main
  · intro c' hc'
    have hdone := h.consumersDone c' hc'
    have hcc : c' ≠ c := by rintro rfl; exact hc hdone
    simpa only [Function.update_of_ne hcc] using hdone

/-- A step of `main`: a join, its call of `close`, its return. -/
theorem Control.moveMain {s : System (Tid P C) (Item P)} {ma : MainPc} (h : Control cfg m)
    (hq : s.queue = m.sys.queue) (hpc : ∀ j, j ≠ .main → s.pc j = m.sys.pc j)
    (hok : MainOk m.sys.queue.closed ma (s.pc .main))
    (hp : ∀ p : Fin P, p < ma.joinedProducers P → m.prod p = .done)
    (hc : ∀ c : Fin C, c < ma.joinedConsumers C → m.cons c = .done) :
    Control cfg { m with sys := s, main := ma } := by
  refine ⟨?_, ?_, ?_, hp, hc⟩
  · intro p
    simpa only [hpc (.producer p) (by simp)] using h.producer p
  · intro c
    simpa only [hpc (.consumer c) (by simp), hq] using h.consumer c
  · simpa only [hq] using hok

theorem finished_producer {cfg : Config P} {p : Fin P} {pr : ProducerPc} {pc : Pc (Item P)}
    (h : ProducerOk cfg p pr pc) (hf : pr.finished = true) : pr = .done := by
  cases pr with
  | done => rfl
  | stopped => exact h.elim
  | loop | pushing => cases hf

theorem finished_consumer {co : ConsumerPc P} (hf : co.finished = true) : co = .done := by
  cases co with
  | done => rfl
  | loop | popping | handling => cases hf

theorem Control.next {m' : Program P C} {a : Move P C} (h : Control cfg m)
    (hn : next cfg m a = some m') : Control cfg m' := by
  have hother : ∀ {s : System (Tid P C) (Item P)} {i : Tid P C} {pc : Pc (Item P)} (j), j ≠ i →
      Function.update s.pc i pc j = s.pc j := fun j hj => Function.update_of_ne hj _ _
  cases next_cases hn with
  | @queue a s ha hs =>
    refine h.inCall (inCall_cases hs ?_ ?_)
    · rintro i op rfl; cases ha
    · rintro i rfl; cases ha
  | @push p i s hp hi hs =>
    obtain ⟨_, rfl⟩ := call_eq hs
    refine h.moveProducer rfl (fun j hj => hother j hj) ?_ (by rw [hp]; simp)
    simp only [Function.update_self]
    exact ⟨hi, .inl ⟨.entry, rfl⟩⟩
  | @produced p i hp hi =>
    have hok := h.producer p
    rw [hp] at hok
    exact h.moveProducer rfl (fun _ _ => rfl) hok.1 (by rw [hp]; simp)
  | @pushed p i op ok s hp hpc hs =>
    obtain ⟨_, _, _, rfl⟩ := ret_eq hs
    have hok := h.producer p
    rw [hp, hpc] at hok
    obtain ⟨hi, ⟨w, hw⟩ | hd⟩ := hok
    · cases hw
    · cases hd
      refine h.moveProducer rfl (fun j hj => hother j hj) ?_ (by rw [hp]; simp)
      simp only [Function.update_self, if_true]
      exact ⟨rfl, hi⟩
  | @pop c s hc hs =>
    obtain ⟨_, rfl⟩ := call_eq hs
    refine h.moveConsumer rfl (fun j hj => hother j hj) ?_ (by rw [hc]; simp)
    simp only [Function.update_self]
    exact .inl ⟨.entry, rfl⟩
  | @popped c op item s hc hpc hs =>
    obtain ⟨_, _, _, rfl⟩ := ret_eq hs
    have hok := h.consumer c
    rw [hc, hpc] at hok
    refine h.moveConsumer rfl (fun j hj => hother j hj) ?_ (by rw [hc]; simp)
    simp only [Function.update_self]
    rcases hok with ⟨w, hw⟩ | ⟨it, hd⟩ | ⟨hd, hdrained⟩
    · cases hw
    · cases hd; rfl
    · cases hd; exact ⟨rfl, hdrained⟩
  | @handle c item hc =>
    have hok := h.consumer c
    rw [hc] at hok
    exact h.moveConsumer rfl (fun _ _ => rfl) hok (by rw [hc]; simp)
  | @joinProducer k hm hk hf =>
    have hmain := h.main
    have hdone := h.producersDone
    rw [hm] at hmain hdone
    refine h.moveMain rfl (fun _ _ => rfl) hmain (fun p hp => ?_) (fun c hc => ?_)
    · by_cases hpk : (p : Nat) = k
      · have hp' : p = ⟨k, hk⟩ := Fin.ext hpk
        rw [hp']
        exact finished_producer (h.producer _) hf
      · have hp' : (p : Nat) < k + 1 := hp
        exact hdone p (show (p : Nat) < k by omega)
    · exact absurd hc (Nat.not_lt_zero _)
  | @producersJoined k hm hk =>
    have hmain := h.main
    have hdone := h.producersDone
    rw [hm] at hmain hdone
    exact h.moveMain rfl (fun _ _ => rfl) hmain
      (fun p _ => hdone p (Nat.lt_of_lt_of_le p.isLt hk))
      (fun c hc => absurd hc (Nat.not_lt_zero _))
  | @close s hm hs =>
    obtain ⟨_, rfl⟩ := call_eq hs
    have hmain := h.main
    have hdone := h.producersDone
    rw [hm] at hmain hdone
    refine h.moveMain rfl (fun j hj => hother j hj) ?_ hdone
      (fun c hc => absurd hc (Nat.not_lt_zero _))
    simp only [Function.update_self]
    exact .inl ⟨⟨.entry, rfl⟩, hmain.2⟩
  | @closed s hm hs =>
    obtain ⟨_, _, hpc, rfl⟩ := ret_eq hs
    have hmain := h.main
    have hdone := h.producersDone
    rw [hm, hpc] at hmain
    rw [hm] at hdone
    refine h.moveMain rfl (fun j hj => hother j hj) ?_ hdone
      (fun c hc => absurd hc (Nat.not_lt_zero _))
    simp only [Function.update_self]
    rcases hmain with ⟨⟨w, hw⟩, _⟩ | ⟨_, hclosed⟩
    · cases hw
    · exact ⟨rfl, hclosed⟩
  | @joinConsumer k hm hk hf =>
    have hmain := h.main
    have hpdone := h.producersDone
    have hcdone := h.consumersDone
    rw [hm] at hmain hpdone hcdone
    refine h.moveMain rfl (fun _ _ => rfl) hmain hpdone (fun c hc => ?_)
    by_cases hck : (c : Nat) = k
    · have hc' : c = ⟨k, hk⟩ := Fin.ext hck
      rw [hc']
      exact finished_consumer hf
    · have hc' : (c : Nat) < k + 1 := hc
      exact hcdone c (show (c : Nat) < k by omega)
  | @consumersJoined k hm hk =>
    have hmain := h.main
    have hpdone := h.producersDone
    have hcdone := h.consumersDone
    rw [hm] at hmain hpdone hcdone
    exact h.moveMain rfl (fun _ _ => rfl) hmain hpdone
      (fun c _ => hcdone c (Nat.lt_of_lt_of_le c.isLt hk))

theorem reachable_control (h : Machine.Reachable (BoundedQueue.next cfg) (cfg.start C) m) :
    Control cfg m :=
  h.invariant (control_start cfg) fun _ ih hn => ih.next hn

end BackendPatterns.BoundedQueue
