import Mathlib.Data.List.Perm.Basic
import BackendPatterns.Lib.Bytes
import BackendPatterns.Lib.Counter
import BackendPatterns.Lib.Decimal
import BackendPatterns.Observer.Reentrancy

/-! # Orders

The order service numbers orders and publishes them. Handlers run inside of
`place_order`, and may place and cancel orders themselves. -/

namespace BackendPatterns.Observer
open BackendPatterns.Lib

inductive EventType
  | orderPlaced
  | orderCancelled
  deriving DecidableEq

inductive Event
  | orderPlaced (orderId : Int) (customer : Bytes)
  | orderCancelled (orderId : Int) (reason : Bytes)
  deriving DecidableEq

def Event.type : Event → EventType
  | .orderPlaced .. => .orderPlaced
  | .orderCancelled .. => .orderCancelled

variable {H : Type}

/-- The service, with the dispatcher that it has a reference to. -/
structure OrderService (H : Type) where
  dispatcher : State EventType H Event
  nextOrderId : Int
  log : List Bytes

inductive OrderService.Action (H : Type)
  | subscribe (tid : EventType) (handler : H)
  | placeOrder (customer : Bytes)
  | cancelOrder (orderId : Int) (reason : Bytes)
  | captures
  | next
  | ret

namespace OrderService

def start : OrderService H := ⟨Observer.start, 1001, []⟩

/-- A step of the dispatcher. -/
def dispatch (g : Growth) (s : OrderService H) (a : Observer.Action EventType H Event) :
    Option (OrderService H) :=
  (Observer.step g s.dispatcher a).map fun dispatcher => { s with dispatcher }

def logLine (s : OrderService H) (line : Bytes) : OrderService H :=
  { s with log := s.log ++ [line] }

/-- `next_order_id_++` is undefined for the largest `int`. -/
def placeOrder (g : Growth) (s : OrderService H) (customer : Bytes) : Option (OrderService H) := do
  let orderId := s.nextOrderId
  let nextOrderId ← Counter.increment orderId
  let s := logLine { s with nextOrderId } (str "order service: placed order=" ++ decimal orderId)
  dispatch g s (.publish .orderPlaced (.orderPlaced orderId customer))

def cancelOrder (g : Growth) (s : OrderService H) (orderId : Int) (reason : Bytes) :
    Option (OrderService H) :=
  let s := s.logLine (str "order service: cancelling order=" ++ decimal orderId)
  s.dispatch g (.publish .orderCancelled (.orderCancelled orderId reason))

def step (g : Growth) (s : OrderService H) : OrderService.Action H → Option (OrderService H)
  | .subscribe tid handler => dispatch g s (.subscribe tid handler)
  | .placeOrder customer => s.placeOrder g customer
  | .cancelOrder orderId reason => s.cancelOrder g orderId reason
  | .captures => dispatch g s .captures
  | .next => dispatch g s .next
  | .ret => dispatch g s .ret

/-- No handler makes the dispatcher move the handlers of an active `publish`. -/
def Allowed (s : OrderService H) : OrderService.Action H → Prop
  | .subscribe tid _ => ¬ Invalidates s.dispatcher tid
  | _ => True

instance (s : State EventType H Event) (tid : EventType) : Decidable (Invalidates s tid) :=
  inferInstanceAs (Decidable (_ = _ ∧ ∃ f ∈ s.frames, f.type = tid))

instance (s : OrderService H) : (a : OrderService.Action H) → Decidable (s.Allowed a)
  | .subscribe _ _ => inferInstanceAs (Decidable (¬ _))
  | .placeOrder _ | .cancelOrder _ _ | .captures | .next | .ret => inferInstanceAs (Decidable True)

end OrderService

/-! ## The ledger of orders -/

def Event.order? : Event → Option Int
  | .orderPlaced orderId _ => some orderId
  | .orderCancelled .. => none

/-- The calls of `publish` that have returned, and those that are active. -/
def State.calls (s : State EventType H Event) : List (Frame EventType H Event) :=
  s.returned ++ s.frames

/-- The events of the calls, as far as the order in which they return does not matter. -/
def State.events (s : State EventType H Event) : List (EventType × Event) :=
  s.calls.map fun f => (f.type, f.event)

/-- The orders that were published. -/
def State.orders (s : State EventType H Event) : List Int :=
  s.events.filterMap fun p => p.2.order?

/-- What an action publishes. -/
def published : Action EventType H Event → List (EventType × Event)
  | .publish tid event => [(tid, event)]
  | _ => []

variable {g : Growth}

section
variable {s t : State EventType H Event}

/-- Each step adds what it publishes, and loses nothing. -/
theorem Moves.events {a : Action EventType H Event} (h : Moves g s a t) :
    t.events.Perm (published a ++ s.events) := by
  cases h with
  | subscribe hu hd hself hother => exact .refl _
  | @publish tid event d hu hd hvec =>
    show ((s.returned ++ _ :: s.frames).map _).Perm _
    exact (List.perm_middle.map _)
  | @returns f fs hf hr hit =>
    show (((s.returned ++ [f]) ++ fs).map _).Perm ((s.returned ++ s.frames).map _)
    rw [hf, List.append_assoc]
    exact .refl _
  | @invoke f fs handler hf hr hit hd =>
    show ((s.returned ++ _ :: fs).map _).Perm ((s.returned ++ s.frames).map _)
    rw [hf, List.map_append, List.map_append]
    exact .refl _
  | stale | captures | freed | lost => exact .refl _
  | @ret f fs hf hr hfresh =>
    show ((s.returned ++ _ :: fs).map _).Perm ((s.returned ++ s.frames).map _)
    rw [hf, List.map_append, List.map_append]
    exact .refl _

theorem Moves.orders {a : Action EventType H Event} (h : Moves g s a t) :
    t.orders.Perm (((published a).filterMap fun p => p.2.order?) ++ s.orders) := by
  have hperm := h.events.filterMap fun p => p.2.order?
  rwa [List.filterMap_append] at hperm

end

/-- The first `k` order numbers. -/
def orderIds (k : Nat) : List Int := (List.range k).map fun i : Nat => 1001 + (i : Int)

theorem orderIds_succ (k : Nat) : orderIds (k + 1) = orderIds k ++ [1001 + (k : Int)] := by
  rw [orderIds, List.range_succ, List.map_append]
  rfl

/-- Every call publishes an event of its own type, and every order number from 1001 on
was published in one call. -/
structure Ledger (s : OrderService H) : Prop where
  safe : Safe s.dispatcher
  typed : ∀ p ∈ s.dispatcher.events, p.2.type = p.1
  orders : ∃ k : Nat, s.nextOrderId = 1001 + k ∧
    s.dispatcher.orders.Perm (orderIds k)

variable {s t : OrderService H}

/-- A step of the dispatcher that does not place an order. -/
theorem Ledger.dispatch (h : Ledger s) {a : Action EventType H Event}
    (hs : s.dispatch g a = some t) (hpublished : ∀ p ∈ published a, p.2.type = p.1)
    (hplaced : ((published a).filterMap fun p => p.2.order?) = [])
    (hc : ∀ tid handler, a = .subscribe tid handler → ¬ Invalidates s.dispatcher tid) :
    Ledger t := by
  obtain ⟨dispatcher, hstep, rfl⟩ := Option.map_eq_some_iff.mp hs
  obtain ⟨-, hmoves⟩ := h.safe.typed.moves hstep
  refine ⟨h.safe.next hmoves hc, ?_, ?_⟩
  · intro p hp
    rcases List.mem_append.mp (hmoves.events.mem_iff.mp hp) with hp | hp
    · exact hpublished p hp
    · exact h.typed p hp
  · obtain ⟨k, hk, hperm⟩ := h.orders
    have horders := hmoves.orders
    rw [hplaced] at horders
    exact ⟨k, hk, horders.trans hperm⟩

theorem Ledger.placeOrder (h : Ledger s) {customer : Bytes}
    (hs : s.placeOrder g customer = some t) : Ledger t := by
  obtain ⟨nextOrderId, hnext, hs⟩ := Option.bind_eq_some_iff.mp hs
  obtain ⟨dispatcher, hstep, rfl⟩ := Option.map_eq_some_iff.mp hs
  have hnext' : nextOrderId = s.nextOrderId + 1 := by
    unfold Counter.increment at hnext
    split at hnext
    · exact (Option.some.inj hnext).symm
    · cases hnext
  obtain ⟨-, hmoves⟩ := h.safe.typed.moves hstep
  refine ⟨h.safe.next hmoves nofun, ?_, ?_⟩
  · intro p hp
    rcases List.mem_append.mp (hmoves.events.mem_iff.mp hp) with hp | hp
    · rw [List.mem_singleton.mp hp]
      rfl
    · exact h.typed p hp
  · obtain ⟨k, hk, hperm⟩ := h.orders
    refine ⟨k + 1, ?_, hmoves.orders.trans ?_⟩
    · show nextOrderId = _
      omega
    · show (s.nextOrderId :: s.dispatcher.orders).Perm _
      rw [orderIds_succ, hk]
      exact (hperm.cons _).trans (List.perm_append_singleton _ _).symm

theorem Ledger.next (h : Ledger s) {a : OrderService.Action H} (ha : s.Allowed a)
    (hs : OrderService.step g s a = some t) : Ledger t := by
  cases a with
  | subscribe tid handler =>
    refine h.dispatch hs nofun rfl fun tid' handler' heq => ?_
    cases heq
    exact ha
  | placeOrder customer => exact h.placeOrder hs
  | cancelOrder orderId reason =>
    have hlogged : Ledger (s.logLine (str "order service: cancelling order=" ++ decimal orderId)) :=
      ⟨h.safe, h.typed, h.orders⟩
    refine hlogged.dispatch hs (fun p hp => ?_) rfl nofun
    rw [List.mem_singleton.mp hp]
    rfl
  | captures => exact h.dispatch hs nofun rfl nofun
  | next => exact h.dispatch hs nofun rfl nofun
  | ret => exact h.dispatch hs nofun rfl nofun

theorem ledger_start : Ledger (OrderService.start : OrderService H) :=
  ⟨safe_start, nofun, 0, rfl, .refl _⟩

/-- However handlers place and cancel orders while others are being published, no order
is lost or published twice: the numbers from 1001 on belong to one call of `publish` each.
A call that has returned has given its event, of its type, to the handlers that
were subscribed when it began, once each and in order. -/
theorem orders_published_once {s : OrderService H}
    (h : Machine.ReachableBy OrderService.Allowed (OrderService.step g) .start s) :
    (∃ k : Nat, s.nextOrderId = 1001 + k ∧
      s.dispatcher.orders.Perm (orderIds k)) ∧
    (∀ f ∈ s.dispatcher.calls, f.event.type = f.type) ∧
    (∀ f ∈ s.dispatcher.returned, f.invoked = f.began.map fun handler => (handler, f.event)) ∧
    s.dispatcher.fault = none := by
  have hledger : Ledger s := h.invariant ledger_start fun h ha hs => h.next ha hs
  refine ⟨hledger.orders, fun f hf => ?_, hledger.safe.returned, hledger.safe.fault⟩
  exact hledger.typed _ (List.mem_map_of_mem hf)

/-- A handler that places an order when it is told of the first one. -/
def nestedOrders : List (OrderService.Action Nat) :=
  [.subscribe .orderPlaced 7, .placeOrder (str "alice"), .next, .placeOrder (str "bob"), .next,
    .captures, .ret, .next, .ret, .next]

theorem orders_published_once_nested : ∃ s : OrderService Nat,
    Machine.run (Machine.guarded OrderService.Allowed (OrderService.step .doubling)) .start
      nestedOrders = some s ∧
    s.log = [str "order service: placed order=1001", str "order service: placed order=1002"] ∧
    (∀ f ∈ s.dispatcher.returned, f.invoked = f.began.map fun handler => (handler, f.event)) ∧
    s.dispatcher.fault = none := by
  obtain ⟨s, hs, hlog⟩ : ∃ s : OrderService Nat,
      Machine.run (Machine.guarded OrderService.Allowed (OrderService.step .doubling)) .start
        nestedOrders = some s ∧
      s.log = [str "order service: placed order=1001", str "order service: placed order=1002"] :=
    ⟨_, rfl, by decide⟩
  obtain ⟨-, -, hreturned, hfault⟩ := orders_published_once (Machine.reachableBy_of_run hs)
  exact ⟨s, hs, hlog, hreturned, hfault⟩

end BackendPatterns.Observer
