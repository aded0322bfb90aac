import Mathlib.Algebra.Order.BigOperators.Group.Finset
import BackendPatterns.BoundedQueue.Handled

/-! # The producer/consumer program makes progress

Until every thread has finished somebody can move, because a state in which all
callers sleep would have lost a wake-up. Every move other than a spurious
wake-up lowers a rank, so a run that is scheduled at all comes to its end. -/

namespace BackendPatterns.BoundedQueue
open BackendPatterns.Lib BackendPatterns.Lib.CondVar BackendPatterns.Lib.Fifo
open BackendPatterns.Lib.History BackendPatterns.Lib.Threads

variable {P C : Nat} {cfg : Config P} {m : Program P C}

/-- Every thread function has returned. -/
def Program.finished (m : Program P C) : Prop :=
  (∀ p, (m.prod p).finished = true) ∧ (∀ c, (m.cons c).finished = true) ∧ m.main = .done

/-- A move the threads make themselves. -/
def fair : Move P C → Prop
  | .queue (.spurious _) => False
  | _ => True

section Progress

/-- Nobody can move without a spurious wake-up. -/
def Stuck (cfg : Config P) (m : Program P C) : Prop := ∀ a, fair a → next cfg m a = none

theorem Stuck.step (h : Stuck cfg m) {a : Action (Tid P C) (Item P)} (ha : inCall a = true)
    (hf : fair (.queue a)) : step m.sys a = none := by
  have hn := h (.queue a) hf
  simp only [next, ha, if_true, Option.map_eq_none_iff] at hn
  exact hn

/-- In a stuck state every caller sleeps. -/
theorem Stuck.calling (h : Stuck cfg m) {i : Tid P C} {op : Op (Item P)} {w : Wait}
    (hpc : m.sys.pc i = .calling op w) : w = .parked := by
  by_contra hw
  obtain ⟨wakes, t, ht⟩ := lock_enabled hpc hw
  rw [h.step (a := .lock i wakes) rfl trivial] at ht
  cases ht

theorem Stuck.not_closing (h : Stuck cfg m) {i : Tid P C} {cv : Cv} :
    m.sys.pc i ≠ .closing cv := by
  intro hpc
  obtain ⟨t, ht⟩ := notifyAll_enabled hpc
  rw [h.step (a := .notifyAll i) rfl trivial] at ht
  cases ht

theorem Stuck.asleep (h : Stuck cfg m) (i : Tid P C) (hi : (m.sys.pc i).unfinished) :
    ∃ op, m.sys.pc i = .calling op .parked := by
  cases hpc : m.sys.pc i with
  | calling op w => exact ⟨op, by rw [h.calling hpc]⟩
  | closing cv => exact absurd hpc h.not_closing
  | idle => rw [hpc] at hi; exact hi.elim
  | done => rw [hpc] at hi; exact hi.elim

theorem Stuck.producer (h : Stuck cfg m) (hk : Control cfg m) (p : Fin P) :
    m.prod p = .done ∨ ∃ i, m.sys.pc (.producer p) = .calling (.push (cfg.item p i)) .parked := by
  have hn := h (.producer p) trivial
  have hp := hk.producer p
  cases hprod : m.prod p with
  | done => exact .inl rfl
  | stopped => rw [hprod] at hp; exact hp.elim
  | loop i =>
    rw [hprod] at hp
    simp only [next, producerStep, hprod, BoundedQueue.step, hp.1, Option.map_some] at hn
    split at hn <;> cases hn
  | pushing i =>
    rw [hprod] at hp
    obtain ⟨_, ⟨w, hw⟩ | hd⟩ := hp
    · refine .inr ⟨i, ?_⟩
      rw [h.calling hw] at hw
      exact hw
    · simp [next, producerStep, hprod, BoundedQueue.step, hd] at hn

theorem Stuck.consumer (h : Stuck cfg m) (hk : Control cfg m) (c : Fin C) :
    (m.cons c = .done ∧ Drained m.sys.queue) ∨
      m.sys.pc (.consumer c) = .calling .pop .parked := by
  have hn := h (.consumer c) trivial
  have hc := hk.consumer c
  cases hcons : m.cons c with
  | done => rw [hcons] at hc; exact .inl ⟨rfl, hc.2⟩
  | handling item => simp [next, consumerStep, hcons] at hn
  | loop =>
    rw [hcons] at hc
    have hidle : m.sys.pc (.consumer c) = .idle := hc
    simp [next, consumerStep, hcons, BoundedQueue.step, hidle] at hn
  | popping =>
    rw [hcons] at hc
    rcases hc with ⟨w, hw⟩ | ⟨item, hd⟩ | ⟨hd, _⟩
    · rw [h.calling hw] at hw
      exact .inr hw
    · simp [next, consumerStep, hcons, BoundedQueue.step, hd] at hn
    · simp [next, consumerStep, hcons, BoundedQueue.step, hd] at hn

/-- `main` can only be stuck in a join of a thread that is not finished. -/
theorem Stuck.main (h : Stuck cfg m) (hk : Control cfg m) (hawake : CloseAwake m.sys) :
    (m.sys.queue.closed = false ∧ ∃ p, (m.prod p).finished = false) ∨
      (m.sys.queue.closed = true ∧ ∃ c, (m.cons c).finished = false) ∨ m.main = .done := by
  have hn := h .main trivial
  have hm := hk.main
  cases hmain : m.main with
  | done => exact .inr (.inr rfl)
  | joinProducers k =>
    rw [hmain] at hm
    simp only [next, mainStep, hmain] at hn
    split at hn
    · rename_i hlt
      split at hn
      · cases hn
      · rename_i hf
        exact .inl ⟨hm.2, ⟨k, hlt⟩, by simpa using hf⟩
    · cases hn
  | joinConsumers k =>
    rw [hmain] at hm
    simp only [next, mainStep, hmain] at hn
    split at hn
    · rename_i hlt
      split at hn
      · cases hn
      · rename_i hf
        exact .inr (.inl ⟨hm.2, ⟨k, hlt⟩, by simpa using hf⟩)
    · cases hn
  | close =>
    rw [hmain] at hm
    simp [next, mainStep, hmain, BoundedQueue.step, hm.1] at hn
  | closing =>
    rw [hmain] at hm
    rcases hm with ⟨⟨w, hw⟩, _⟩ | ⟨⟨cv, hcl⟩ | hd, _⟩
    · rw [h.calling hw] at hw
      exact absurd hw (hawake .main)
    · exact absurd hcl h.not_closing
    · simp [next, mainStep, hmain, BoundedQueue.step, hd] at hn

/-- A stuck program has finished: closed, the sleepers would have been notified;
open, the consumers sleep on an empty queue and the producers, finding room, are
done, so `main` is not waiting for anybody. -/
theorem Stuck.finished (hC : 0 < C) (h : Stuck cfg m) (hk : Control cfg m)
    (hw : WakeUps m.sys) (hawake : CloseAwake m.sys) : m.finished := by
  have hready : ∀ {i op}, m.sys.pc i = .calling op .parked → m.sys.queue.ready op = false :=
    fun hpc => hw.not_stuck hawake h.asleep hpc
  cases hclosed : m.sys.queue.closed with
  | true =>
    have hnone : ∀ {i op}, m.sys.pc i ≠ .calling op .parked := by
      intro i op hpc
      have hr := hready hpc
      cases op <;> simp [ready, hclosed] at hr
    have hp : ∀ p, m.prod p = .done := by
      intro p
      obtain hd | ⟨_, hpc⟩ := h.producer hk p
      · exact hd
      · exact absurd hpc hnone
    have hc : ∀ c, m.cons c = .done := fun c =>
      ((h.consumer hk c).resolve_right hnone).1
    refine ⟨fun p => by rw [hp]; rfl, fun c => by rw [hc]; rfl, ?_⟩
    rcases h.main hk hawake with ⟨ho, _⟩ | ⟨_, c, hf⟩ | hd
    · rw [hclosed] at ho; cases ho
    · rw [hc] at hf; cases hf
    · exact hd
  | false =>
    exfalso
    have hc : ∀ c, m.sys.pc (.consumer c) = .calling .pop .parked := by
      intro c
      obtain ⟨_, hd⟩ | hpc := h.consumer hk c
      · rw [hd.1] at hclosed
        cases hclosed
      · exact hpc
    have hempty : m.sys.queue.q = [] := by
      simpa [ready, hclosed] using hready (hc ⟨0, hC⟩)
    have hp : ∀ p, m.prod p = .done := by
      intro p
      obtain hd | ⟨_, hpc⟩ := h.producer hk p
      · exact hd
      · have hr := hready hpc
        simp [ready, hclosed, hempty, m.sys.queue.capacity_pos.ne'] at hr
    rcases h.main hk hawake with ⟨_, p, hf⟩ | ⟨ht, _⟩ | hd
    · rw [hp] at hf; cases hf
    · rw [hclosed] at ht; cases ht
    · have hm := hk.main
      rw [hd] at hm
      rw [hm.2] at hclosed
      cases hclosed

end Progress

section Rank

variable {ι T : Type}

def waitRank : Wait → Nat
  | .entry => 3
  | .woken => 2
  | .parked => 1

/-- What a caller still has to do, `n` being the number of threads: a close can
wake every one of them twice, and a popped item is still to be handled. -/
def pcRank (n : Nat) : Pc T → Nat
  | .idle => 0
  | .calling .close w => 2 * n + 3 + waitRank w
  | .calling _ w => waitRank w
  | .closing .notEmpty => 2 * n + 2
  | .closing .notFull => n + 1
  | .done _ (.popped (some _)) => 8
  | .done _ _ => 0

@[simp] theorem pcRank_push (n : Nat) (v : T) (w : Wait) :
    pcRank n (.calling (.push v) w) = waitRank w := rfl

@[simp] theorem pcRank_pop (n : Nat) (w : Wait) :
    pcRank n (.calling .pop w : Pc T) = waitRank w := rfl

@[simp] theorem pcRank_close (n : Nat) (w : Wait) :
    pcRank n (.calling .close w : Pc T) = 2 * n + 3 + waitRank w := rfl

@[simp] theorem pcRank_notEmpty (n : Nat) : pcRank n (.closing .notEmpty : Pc T) = 2 * n + 2 := rfl

@[simp] theorem pcRank_notFull (n : Nat) : pcRank n (.closing .notFull : Pc T) = n + 1 := rfl

@[simp] theorem pcRank_pushed (n : Nat) (op : Op T) (ok : Bool) :
    pcRank n (.done op (.pushed ok)) = 0 := rfl

@[simp] theorem pcRank_popped (n : Nat) (op : Op T) (v : T) :
    pcRank n (.done op (.popped (some v))) = 8 := rfl

@[simp] theorem pcRank_nullopt (n : Nat) (op : Op T) : pcRank n (.done op (.popped none)) = 0 := rfl

@[simp] theorem pcRank_closed (n : Nat) (op : Op T) : pcRank n (.done op .closed) = 0 := rfl

theorem pcRank_wake (n : Nat) (p : Pc T) : pcRank n (Waiter.wake p) ≤ pcRank n p + 1 := by
  cases p with
  | calling op w => cases op <;> cases w <;> simp [Waiter.wake, waitRank]
  | _ => exact Nat.le_succ _

variable [Fintype ι]

def sysRank (s : System ι T) : Nat := ∑ i, pcRank (Fintype.card ι) (s.pc i)

theorem rank_notifyAll (n : Nat) (cv : Cv) (f : ι → Pc T) :
    ∑ i, pcRank n (CondVar.notifyAll cv f i) ≤ ∑ i, pcRank n (f i) + Fintype.card ι := by
  have hle : ∑ i, pcRank n (CondVar.notifyAll cv f i) ≤ ∑ i, (pcRank n (f i) + 1) := by
    refine Finset.sum_le_sum fun i _ => ?_
    unfold CondVar.notifyAll
    split
    · exact pcRank_wake n _
    · exact Nat.le_succ _
  simpa [Finset.sum_add_distrib] using hle

variable [DecidableEq ι]

theorem rank_signal {n : Nat} {notify : Option Cv} {wakes : Option ι} {f g : ι → Pc T}
    (hs : signal notify wakes f = some g) :
    ∑ i, pcRank n (g i) ≤ ∑ i, pcRank n (f i) + if notify = none then 0 else 1 := by
  cases notify with
  | none => cases hs; simp
  | some cv =>
    rcases notifyOne_cases hs with ⟨rfl, _⟩ | ⟨k, _, rfl⟩
    · simp
    · have hsum := sum_update (pcRank n) f k (Waiter.wake (f k))
      have hwake := pcRank_wake n (f k)
      simp only [reduceCtorEq, if_false]
      omega

/-- Every action inside a call other than a spurious wake-up lowers the rank,
where an item taken from the queue may add what its handling costs. -/
theorem sysRank_lt {s t : System ι T} {a : Action ι T} (hs : step s a = some t)
    (hcall : ∀ i op, a ≠ .call i op) (hret : ∀ i, a ≠ .ret i) (hf : ∀ i, a ≠ .spurious i) :
    ∃ d, (taken (effects t.log)).length = (taken (effects s.log)).length + d ∧
      sysRank t < sysRank s + 10 * d := by
  cases step_cases hs with
  | call => exact absurd rfl (hcall _ _)
  | ret => exact absurd rfl (hret _)
  | spurious => exact absurd rfl (hf _)
  | @park i op w _ hpc hw henter =>
    refine ⟨0, rfl, ?_⟩
    have hsum := sum_update (pcRank (Fintype.card ι)) s.pc i (.calling op .parked)
    simp only [sysRank]
    cases op <;> cases w <;> simp_all [waitRank] <;> omega
  | @finish i op w wakes c pc hpc hw henter hsignal =>
    have hsum := sum_update (pcRank (Fintype.card ι)) s.pc i (after op c.res)
    have hwoken := rank_signal (n := Fintype.card ι) hsignal
    have hw2 : 2 ≤ waitRank w := by cases w <;> simp_all [waitRank]
    simp only [sysRank]
    rw [hpc] at hsum
    rcases enter_cases henter with ⟨v, rfl, _, _, rfl⟩ | ⟨v, rfl, _, rfl⟩ |
      ⟨v, rest, rfl, _, rfl⟩ | ⟨rfl, _, _, rfl⟩ | ⟨rfl, rfl⟩
    · refine ⟨0, by simp [Fifo.taken], ?_⟩
      simp [after] at hsum hwoken
      omega
    · refine ⟨0, by simp [Fifo.taken], ?_⟩
      simp [after] at hsum hwoken
      omega
    · refine ⟨1, by simp [Fifo.taken], ?_⟩
      simp [after] at hsum hwoken
      omega
    · refine ⟨0, by simp [Fifo.taken], ?_⟩
      simp [after] at hsum hwoken
      omega
    · refine ⟨0, by simp [Fifo.taken], ?_⟩
      simp [after] at hsum hwoken
      omega
  | @notifyEmpty i hpc =>
    refine ⟨0, rfl, ?_⟩
    have hsum := sum_update (pcRank (Fintype.card ι)) (CondVar.notifyAll .notEmpty s.pc) i
      (.closing .notFull)
    have hall := rank_notifyAll (Fintype.card ι) .notEmpty s.pc
    simp only [sysRank]
    simp only [notifyAll_closing hpc, pcRank_notEmpty, pcRank_notFull] at hsum
    omega
  | @notifyFull i hpc =>
    refine ⟨0, rfl, ?_⟩
    have hsum := sum_update (pcRank (Fintype.card ι)) (CondVar.notifyAll .notFull s.pc) i
      (.done .close .closed)
    have hall := rank_notifyAll (Fintype.card ι) .notFull s.pc
    simp only [sysRank]
    simp only [notifyAll_closing hpc, pcRank_notFull, pcRank_closed] at hsum
    omega

theorem sysRank_call {s t : System ι T} {i : ι} {op : Op T} (hs : step s (.call i op) = some t) :
    sysRank t = sysRank s + pcRank (Fintype.card ι) (.calling op .entry) ∧
      effects t.log = effects s.log := by
  obtain ⟨hpc, rfl⟩ := call_eq hs
  have hsum := sum_update (pcRank (Fintype.card ι)) s.pc i (.calling op .entry)
  rw [hpc] at hsum
  exact ⟨hsum, by simp⟩

theorem sysRank_ret {s t : System ι T} {i : ι} (hs : step s (.ret i) = some t) :
    sysRank t + pcRank (Fintype.card ι) (s.pc i) = sysRank s ∧ effects t.log = effects s.log := by
  obtain ⟨op, r, hpc, rfl⟩ := ret_eq hs
  have hsum := sum_update (pcRank (Fintype.card ι)) s.pc i .idle
  exact ⟨hsum, by simp⟩

end Rank

/-- An iteration costs a call, its critical section and its return. -/
def prodRank (cfg : Config P) (p : Fin P) : ProducerPc → Nat
  | .loop i => 6 * (cfg.count p - i) + 1
  | .pushing i => 6 * (cfg.count p - (i + 1)) + 2
  | .done | .stopped => 0

def consRank : ConsumerPc P → Nat
  | .loop => 5
  | .popping => 1
  | .handling _ => 7
  | .done => 0

def mainRank (P C n : Nat) : MainPc → Nat
  | .joinProducers k => (P - k) + C + 2 * n + 11
  | .close => C + 2 * n + 10
  | .closing => C + 3
  | .joinConsumers k => (C - k) + 1
  | .done => 0

@[simp] theorem prodRank_loop (p : Fin P) (i : Nat) :
    prodRank cfg p (.loop i) = 6 * (cfg.count p - i) + 1 := rfl

@[simp] theorem prodRank_pushing (p : Fin P) (i : Nat) :
    prodRank cfg p (.pushing i) = 6 * (cfg.count p - (i + 1)) + 2 := rfl

@[simp] theorem prodRank_done (p : Fin P) : prodRank cfg p .done = 0 := rfl

@[simp] theorem prodRank_stopped (p : Fin P) : prodRank cfg p .stopped = 0 := rfl

@[simp] theorem consRank_loop : consRank (.loop : ConsumerPc P) = 5 := rfl

@[simp] theorem consRank_popping : consRank (.popping : ConsumerPc P) = 1 := rfl

@[simp] theorem consRank_handling (item : Item P) : consRank (.handling item) = 7 := rfl

@[simp] theorem consRank_done : consRank (.done : ConsumerPc P) = 0 := rfl

/-- How many items the producers make. -/
def Config.total (cfg : Config P) : Nat := ∑ p, cfg.count p

def Program.rank (cfg : Config P) (m : Program P C) : Nat :=
  sysRank m.sys + ∑ p, prodRank cfg p (m.prod p) + ∑ c, consRank (m.cons c) +
    mainRank P C (Fintype.card (Tid P C)) m.main +
    10 * (cfg.total - (taken (effects m.sys.log)).length)

theorem card_made (cfg : Config P) (p : Fin P) (n : Nat) : (made cfg p n).card = n := by
  simp [made]

/-- No more items leave the queue than the producers make. -/
theorem taken_le_total (h : Machine.Reachable (BoundedQueue.next cfg) (cfg.start C) m) :
    (taken (effects m.sys.log)).length ≤ cfg.total := by
  have hk := reachable_control h
  obtain ⟨f, hf, -, -⟩ := reachable_simulates (make_capacity cfg) (reachable_sys h)
  have hfifo := congrArg List.length (fifo hf)
  have hacc := congrArg Multiset.card (reachable_data h).accepted
  simp only [Fifo.empty, List.nil_append, List.length_append] at hfifo
  rw [Multiset.coe_card, Multiset.card_sum] at hacc
  have hle : ∑ p, (made cfg p (inserted cfg p (m.prod p) (m.sys.pc (.producer p)))).card ≤
      cfg.total :=
    Finset.sum_le_sum fun p _ => by rw [card_made]; exact inserted_le (hk.producer p)
  omega

theorem sum_prodRank (cfg : Config P) (f : Fin P → ProducerPc) (p : Fin P) (pr : ProducerPc) :
    ∑ p', prodRank cfg p' (Function.update f p pr p') + prodRank cfg p (f p) =
      ∑ p', prodRank cfg p' (f p') + prodRank cfg p pr := by
  have h := sum_of_ne (i := p) (f := fun p' => prodRank cfg p' (f p'))
    (g := fun p' => prodRank cfg p' (Function.update f p pr p')) fun p' hp => by
      rw [Function.update_of_ne hp]
  rwa [Function.update_self] at h

/-- Every move but a spurious wake-up lowers the rank. -/
theorem rank_lt {m' : Program P C} {a : Move P C}
    (h : Machine.Reachable (BoundedQueue.next cfg) (cfg.start C) m) (hf : fair a)
    (hn : next cfg m a = some m') : m'.rank cfg < m.rank cfg := by
  have hk := reachable_control h
  have hle := taken_le_total (h.next hn)
  unfold Program.rank
  cases next_cases hn with
  | @queue a s ha hs =>
    obtain ⟨d, hd, hlt⟩ := sysRank_lt hs (by rintro _ _ rfl; cases ha) (by rintro _ rfl; cases ha)
      (by rintro _ rfl; exact hf)
    dsimp only at hle ⊢
    omega
  | @push p i s hp hi hs =>
    obtain ⟨hrank, hlog⟩ := sysRank_call hs
    have hsum := sum_prodRank cfg m.prod p (.pushing i)
    simp only [hp, prodRank_loop, prodRank_pushing, pcRank_push, waitRank] at hsum hrank
    dsimp only
    rw [hlog]
    omega
  | @produced p i hp hi =>
    have hsum := sum_prodRank cfg m.prod p .done
    simp only [hp, prodRank_loop, prodRank_done] at hsum
    dsimp only
    omega
  | @pushed p i op ok s hp hpc hs =>
    obtain ⟨hrank, hlog⟩ := sysRank_ret hs
    have hsum := sum_prodRank cfg m.prod p (if ok then .loop (i + 1) else .stopped)
    have hpr : prodRank cfg p (if ok then .loop (i + 1) else .stopped) ≤
        6 * (cfg.count p - (i + 1)) + 1 := by
      cases ok <;> simp
    rw [hp, prodRank_pushing] at hsum
    dsimp only
    rw [hlog]
    omega
  | @pop c s hc hs =>
    obtain ⟨hrank, hlog⟩ := sysRank_call hs
    have hsum := sum_update consRank m.cons c .popping
    simp only [hc, consRank_loop, consRank_popping, pcRank_pop, waitRank] at hsum hrank
    dsimp only
    rw [hlog]
    omega
  | @popped c op item s hc hpc hs =>
    obtain ⟨hrank, hlog⟩ := sysRank_ret hs
    have hsum := sum_update consRank m.cons c (item.elim .done .handling)
    rw [hc] at hsum
    rw [hpc] at hrank
    dsimp only
    rw [hlog]
    cases item with
    | none =>
      simp only [Option.elim, consRank_popping, consRank_done] at hsum ⊢
      omega
    | some v =>
      simp only [Option.elim, consRank_popping, consRank_handling, pcRank_popped] at hsum hrank ⊢
      omega
  | @handle c item hc =>
    have hsum := sum_update consRank m.cons c .loop
    simp only [hc, consRank_handling, consRank_loop] at hsum
    dsimp only
    omega
  | joinProducer hm hk =>
    simp only [hm, mainRank]
    omega
  | producersJoined hm =>
    simp only [hm, mainRank]
    omega
  | close hm hs =>
    obtain ⟨hrank, hlog⟩ := sysRank_call hs
    simp only [pcRank_close, waitRank] at hrank
    simp only [hm, mainRank]
    rw [hlog]
    omega
  | closed hm hs =>
    obtain ⟨hrank, hlog⟩ := sysRank_ret hs
    simp only [hm, mainRank]
    rw [hlog]
    omega
  | joinConsumer hm hk =>
    simp only [hm, mainRank]
    omega
  | consumersJoined hm =>
    simp only [hm, mainRank]
    omega

/-- No reachable state of the program is stuck before its end. -/
theorem program_live (hC : 0 < C)
    (h : Machine.Reachable (BoundedQueue.next cfg) (cfg.start C) m) (hn : ¬ m.finished) :
    ∃ a t, fair a ∧ next cfg m a = some t := by
  by_contra hnone
  have hstuck : Stuck cfg m := fun a ha =>
    Option.eq_none_iff_forall_ne_some.mpr fun t ht => hnone ⟨a, t, ha, ht⟩
  have hsys := reachable_sys h
  exact hn (hstuck.finished hC (reachable_control h) (reachable_wakeUps hsys)
    (reachable_closeAwake hsys))

/-- From every reachable state the program can run to its end. -/
theorem program_finishes (hC : 0 < C)
    (h : Machine.Reachable (BoundedQueue.next cfg) (cfg.start C) m) :
    ∃ t, Machine.Reachable (BoundedQueue.next cfg) m t ∧ t.finished :=
  Machine.Reachable.exists_final (Program.rank cfg) (program_live hC) rank_lt h

end BackendPatterns.BoundedQueue
