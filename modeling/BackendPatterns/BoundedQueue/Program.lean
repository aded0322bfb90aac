import Mathlib.Tactic.DeriveFintype
import BackendPatterns.BoundedQueue.System

/-! # The producer/consumer program

`main` starts producers and consumers on one queue, joins the producers, closes
the queue and joins the consumers. Thread counts, item counts and the capacity
are parameters; `main` of the example uses two producers of six items, two
consumers and capacity four. -/

namespace BackendPatterns.BoundedQueue
open BackendPatterns.Lib BackendPatterns.Lib.CondVar BackendPatterns.Lib.Fifo

inductive Tid (P C : Nat)
  | main
  | producer (p : Fin P)
  | consumer (c : Fin C)
  deriving DecidableEq, Fintype

structure WorkItem where
  request_id : Int
  deriving DecidableEq, Repr

/-- A `WorkItem` in the queue, with the producer and the loop index it came
from. The code moves only `work`; the origin tells equal request ids apart. -/
structure Item (P : Nat) where
  producer : Fin P
  index : Nat
  work : WorkItem
  deriving DecidableEq, Repr

/-- What an `int` can hold; an overflow is undefined. -/
def IsInt (n : Int) : Prop := -2147483648 ≤ n ∧ n ≤ 2147483647

instance (n : Int) : Decidable (IsInt n) := inferInstanceAs (Decidable (_ ∧ _))

/-- The arguments `main` passes: the capacity, and `producer_id` and `items` of
each producer, for which no request id overflows. -/
structure Config (P : Nat) where
  capacity : Nat
  capacity_pos : 0 < capacity
  producerId : Fin P → Int
  items : Fin P → Int
  items_int : ∀ p, IsInt (items p)
  request_id_int : ∀ p (i : Nat), i < items p →
    IsInt (producerId p * 1000) ∧ IsInt (producerId p * 1000 + i)

variable {P C : Nat}

/-- `WorkItem{.request_id = producer_id * 1000 + i}`. -/
def Config.item (cfg : Config P) (p : Fin P) (i : Nat) : Item P :=
  ⟨p, i, ⟨cfg.producerId p * 1000 + i⟩⟩

/-- The iterations of `for (int i = 0; i < items; ++i)`. -/
def Config.count (cfg : Config P) (p : Fin P) : Nat := (cfg.items p).toNat

/-- `stopped` is the early return of a producer whose push was refused. -/
inductive ProducerPc
  | loop (i : Nat)
  | pushing (i : Nat)
  | done
  | stopped
  deriving DecidableEq

inductive ConsumerPc (P : Nat)
  | loop
  | popping
  | handling (item : Item P)
  | done
  deriving DecidableEq

inductive MainPc
  | joinProducers (k : Nat)
  | close
  | closing
  | joinConsumers (k : Nat)
  | done
  deriving DecidableEq

/-- `handled` lists what each consumer handled, for the statements only. -/
structure Program (P C : Nat) where
  sys : System (Tid P C) (Item P)
  prod : Fin P → ProducerPc
  cons : Fin C → ConsumerPc P
  main : MainPc
  processed : Int
  handled : List (Fin C × Item P)

/-- A step of a queue operation in progress, or the next statement of a thread. -/
inductive Move (P C : Nat)
  | queue (a : Action (Tid P C) (Item P))
  | producer (p : Fin P)
  | consumer (c : Fin C)
  | main

/-- The actions inside a call. Calls and returns are made by the programs. -/
def inCall : Action (Tid P C) (Item P) → Bool
  | .lock _ _ | .spurious _ | .notifyAll _ => true
  | .call _ _ | .ret _ => false

def Config.start (cfg : Config P) (C : Nat) : Program P C where
  sys := BoundedQueue.start ⟨[], cfg.capacity, false, cfg.capacity_pos⟩
  prod := fun _ => .loop 0
  cons := fun _ => .loop
  main := .joinProducers 0
  processed := 0
  handled := []

/-- `++processed` on a `std::atomic<int>`, which wraps. -/
def increment (processed : Int) : Int := Int.bmod (processed + 1) (2 ^ 32)

/-- `std::thread::join` returns once the thread function has. -/
def ProducerPc.finished : ProducerPc → Bool
  | .done | .stopped => true
  | .loop _ | .pushing _ => false

def ConsumerPc.finished : ConsumerPc P → Bool
  | .done => true
  | _ => false

def producerStep (cfg : Config P) (m : Program P C) (p : Fin P) : Option (Program P C) :=
  match m.prod p with
  | .loop i =>
    if (i : Int) < cfg.items p then
      (step m.sys (.call (.producer p) (.push (cfg.item p i)))).map fun s =>
        { m with sys := s, prod := Function.update m.prod p (.pushing i) }
    else some { m with prod := Function.update m.prod p .done }
  | .pushing i =>
    match m.sys.pc (.producer p) with
    | .done _ (.pushed ok) =>
      (step m.sys (.ret (.producer p))).map fun s =>
        { m with
          sys := s
          prod := Function.update m.prod p (if ok then .loop (i + 1) else .stopped) }
    | _ => none
  | .done | .stopped => none

def consumerStep (m : Program P C) (c : Fin C) : Option (Program P C) :=
  match m.cons c with
  | .loop =>
    (step m.sys (.call (.consumer c) .pop)).map fun s =>
      { m with sys := s, cons := Function.update m.cons c .popping }
  | .popping =>
    match m.sys.pc (.consumer c) with
    | .done _ (.popped item) =>
      (step m.sys (.ret (.consumer c))).map fun s =>
        { m with sys := s, cons := Function.update m.cons c (item.elim .done .handling) }
    | _ => none
  | .handling item =>
    some { m with
      cons := Function.update m.cons c .loop
      processed := increment m.processed
      handled := m.handled ++ [(c, item)] }
  | .done => none

def mainStep (m : Program P C) : Option (Program P C) :=
  match m.main with
  | .joinProducers k =>
    if h : k < P then
      if (m.prod ⟨k, h⟩).finished then some { m with main := .joinProducers (k + 1) } else none
    else some { m with main := .close }
  | .close =>
    (step m.sys (.call .main .close)).map fun s => { m with sys := s, main := .closing }
  | .closing =>
    (step m.sys (.ret .main)).map fun s => { m with sys := s, main := .joinConsumers 0 }
  | .joinConsumers k =>
    if h : k < C then
      if (m.cons ⟨k, h⟩).finished then some { m with main := .joinConsumers (k + 1) } else none
    else some { m with main := .done }
  | .done => none

def next (cfg : Config P) (m : Program P C) : Move P C → Option (Program P C)
  | .queue a =>
    if inCall a then (step m.sys a).map fun s => { m with sys := s } else none
  | .producer p => producerStep cfg m p
  | .consumer c => consumerStep m c
  | .main => mainStep m

/-- What each move does, guards included. -/
inductive Moves (cfg : Config P) (m : Program P C) : Move P C → Program P C → Prop
  | queue {a : Action (Tid P C) (Item P)} {s : System (Tid P C) (Item P)}
      (ha : inCall a = true) (hs : step m.sys a = some s) :
      Moves cfg m (.queue a) { m with sys := s }
  | push {p : Fin P} {i : Nat} {s : System (Tid P C) (Item P)} (hp : m.prod p = .loop i)
      (hi : i < cfg.count p)
      (hs : step m.sys (.call (.producer p) (.push (cfg.item p i))) = some s) :
      Moves cfg m (.producer p)
        { m with sys := s, prod := Function.update m.prod p (.pushing i) }
  | produced {p : Fin P} {i : Nat} (hp : m.prod p = .loop i) (hi : cfg.count p ≤ i) :
      Moves cfg m (.producer p) { m with prod := Function.update m.prod p .done }
  | pushed {p : Fin P} {i : Nat} {op : Op (Item P)} {ok : Bool}
      {s : System (Tid P C) (Item P)} (hp : m.prod p = .pushing i)
      (hpc : m.sys.pc (.producer p) = .done op (.pushed ok))
      (hs : step m.sys (.ret (.producer p)) = some s) :
      Moves cfg m (.producer p)
        { m with
          sys := s
          prod := Function.update m.prod p (if ok then .loop (i + 1) else .stopped) }
  | pop {c : Fin C} {s : System (Tid P C) (Item P)} (hc : m.cons c = .loop)
      (hs : step m.sys (.call (.consumer c) .pop) = some s) :
      Moves cfg m (.consumer c) { m with sys := s, cons := Function.update m.cons c .popping }
  | popped {c : Fin C} {op : Op (Item P)} {item : Option (Item P)}
      {s : System (Tid P C) (Item P)} (hc : m.cons c = .popping)
      (hpc : m.sys.pc (.consumer c) = .done op (.popped item))
      (hs : step m.sys (.ret (.consumer c)) = some s) :
      Moves cfg m (.consumer c)
        { m with sys := s, cons := Function.update m.cons c (item.elim .done .handling) }
  | handle {c : Fin C} {item : Item P} (hc : m.cons c = .handling item) :
      Moves cfg m (.consumer c)
        { m with
          cons := Function.update m.cons c .loop
          processed := increment m.processed
          handled := m.handled ++ [(c, item)] }
  | joinProducer {k : Nat} (hm : m.main = .joinProducers k) (hk : k < P)
      (hf : (m.prod ⟨k, hk⟩).finished = true) :
      Moves cfg m .main { m with main := .joinProducers (k + 1) }
  | producersJoined {k : Nat} (hm : m.main = .joinProducers k) (hk : P ≤ k) :
      Moves cfg m .main { m with main := .close }
  | close {s : System (Tid P C) (Item P)} (hm : m.main = .close)
      (hs : step m.sys (.call .main .close) = some s) :
      Moves cfg m .main { m with sys := s, main := .closing }
  | closed {s : System (Tid P C) (Item P)} (hm : m.main = .closing)
      (hs : step m.sys (.ret .main) = some s) :
      Moves cfg m .main { m with sys := s, main := .joinConsumers 0 }
  | joinConsumer {k : Nat} (hm : m.main = .joinConsumers k) (hk : k < C)
      (hf : (m.cons ⟨k, hk⟩).finished = true) :
      Moves cfg m .main { m with main := .joinConsumers (k + 1) }
  | consumersJoined {k : Nat} (hm : m.main = .joinConsumers k) (hk : C ≤ k) :
      Moves cfg m .main { m with main := .done }

theorem lt_items_iff {cfg : Config P} {p : Fin P} {i : Nat} :
    (i : Int) < cfg.items p ↔ i < cfg.count p := by
  unfold Config.count
  omega

theorem next_cases {cfg : Config P} {m m' : Program P C} {a : Move P C}
    (h : next cfg m a = some m') : Moves cfg m a m' := by
  cases a with
  | queue a =>
    simp only [next] at h
    split at h
    · rename_i ha
      obtain ⟨s, hs, rfl⟩ := Option.map_eq_some_iff.mp h
      exact .queue ha hs
    · cases h
  | producer p =>
    simp only [next, producerStep] at h
    split at h
    · rename_i i hp
      split at h
      · rename_i hi
        obtain ⟨s, hs, rfl⟩ := Option.map_eq_some_iff.mp h
        exact .push hp (lt_items_iff.mp hi) hs
      · rename_i hi
        cases h
        exact .produced hp (Nat.le_of_not_lt (mt lt_items_iff.mpr hi))
    · rename_i i hp
      split at h
      · rename_i op ok hpc
        obtain ⟨s, hs, rfl⟩ := Option.map_eq_some_iff.mp h
        exact .pushed hp hpc hs
      · cases h
    · cases h
    · cases h
  | consumer c =>
    simp only [next, consumerStep] at h
    split at h
    · rename_i hc
      obtain ⟨s, hs, rfl⟩ := Option.map_eq_some_iff.mp h
      exact .pop hc hs
    · rename_i hc
      split at h
      · rename_i op item hpc
        obtain ⟨s, hs, rfl⟩ := Option.map_eq_some_iff.mp h
        exact .popped hc hpc hs
      · cases h
    · rename_i item hc
      cases h
      exact .handle hc
    · cases h
  | main =>
    simp only [next, mainStep] at h
    split at h
    · rename_i k hm
      split at h
      · rename_i hk
        split at h
        · rename_i hf; cases h; exact .joinProducer hm hk hf
        · cases h
      · rename_i hk; cases h; exact .producersJoined hm (Nat.le_of_not_lt hk)
    · rename_i hm
      obtain ⟨s, hs, rfl⟩ := Option.map_eq_some_iff.mp h
      exact .close hm hs
    · rename_i hm
      obtain ⟨s, hs, rfl⟩ := Option.map_eq_some_iff.mp h
      exact .closed hm hs
    · rename_i k hm
      split at h
      · rename_i hk
        split at h
        · rename_i hf; cases h; exact .joinConsumer hm hk hf
        · cases h
      · rename_i hk; cases h; exact .consumersJoined hm (Nat.le_of_not_lt hk)
    · cases h

/-- `main`'s queue is built by the constructor. -/
theorem make_capacity (cfg : Config P) : make cfg.capacity =
    .ok (⟨[], cfg.capacity, false, cfg.capacity_pos⟩ : BoundedQueue (Item P)) := by
  simp [make, cfg.capacity_pos.ne']

/-- The queue inside the program runs as a queue called by any threads. -/
theorem reachable_sys {cfg : Config P} {m : Program P C}
    (h : Machine.Reachable (next cfg) (cfg.start C) m) :
    Machine.Reachable step (BoundedQueue.start ⟨[], cfg.capacity, false, cfg.capacity_pos⟩)
      m.sys := by
  refine h.simulate (f := Program.sys) fun _ hn => ?_
  cases next_cases hn with
  | queue _ hs => exact .inr ⟨_, hs⟩
  | push _ _ hs => exact .inr ⟨_, hs⟩
  | pushed _ _ hs => exact .inr ⟨_, hs⟩
  | pop _ hs => exact .inr ⟨_, hs⟩
  | popped _ _ hs => exact .inr ⟨_, hs⟩
  | close _ hs => exact .inr ⟨_, hs⟩
  | closed _ hs => exact .inr ⟨_, hs⟩
  | _ => exact .inl rfl

end BackendPatterns.BoundedQueue
