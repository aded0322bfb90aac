import Mathlib.Algebra.BigOperators.Ring.Finset
import BackendPatterns.Pimpl.DatabaseService

/-! # The implementation is hidden

A program that uses services cannot tell them from objects that hold their
implementation themselves, as long as it leaves moved-from services alone. -/

namespace BackendPatterns.Pimpl
open BackendPatterns.Lib

/-- Services without the pointer: alive or not, and moved-from or not. -/
structure Direct (ι : Type) where
  services : Unique.Values ι Impl Bytes
  fetched : List (List Bytes)

variable {ι : Type} [DecidableEq ι]

namespace Direct

def start : Direct ι := ⟨⟨fun _ => none, []⟩, []⟩

def step (d : Direct ι) : Action ι → Option (Direct ι)
  | .construct i connectionString _ => (d.services.make i ⟨connectionString, []⟩).map
    fun services => { d with services := services.emit [connecting connectionString] }
  | .moveConstruct i j => (d.services.moveConstruct i j).map fun services => { d with services }
  | .moveAssign i j => (d.services.moveAssign Impl.closes i j).map
    fun services => { d with services }
  | .destroy i => (d.services.destroy Impl.closes i).map fun services => { d with services }
  | .executeQuery i query => (d.services.modify i (Impl.execute query)).map
    fun services => { d with services := services.emit [executing query] }
  | .fetchResults i => (d.services.deref i).map
    fun impl => { d with fetched := d.fetched ++ [impl.fetch] }

end Direct

structure Represents (s : State ι) (d : Direct ι) : Prop where
  services : Unique.Refines s.services d.services
  fetched : s.fetched = d.fetched

/-- `new` returns an address that is not in use. -/
def Action.Fresh (s : State ι) : Action ι → Prop
  | .construct _ _ p => s.services.memory.block p = none
  | _ => True

variable {s t : State ι} {d : Direct ι} {a : Action ι}

/-- What is done to related options in the same way leaves them related. -/
theorem rel_map {α β γ δ : Type} {R : α → β → Prop} {Q : γ → δ → Prop} {f : α → γ} {g : β → δ}
    {x : Option α} {y : Option β} (h : Option.Rel R x y) (hf : ∀ a b, R a b → Q (f a) (g b)) :
    Option.Rel Q (x.map f) (y.map g) := by
  cases h with
  | none => exact .none
  | some h => exact .some (hf _ _ h)

/-- Both are defined, or neither is. -/
theorem Represents.rel_step (h : Represents s d) (ha : a.Fresh s) :
    Option.Rel Represents (step s a) (d.step a) := by
  cases a with
  | construct i connectionString p =>
    exact rel_map (h.services.make ha i _) fun _ _ hr => ⟨hr.emit _, h.fetched⟩
  | moveConstruct i j =>
    exact rel_map (h.services.moveConstruct i j) fun _ _ hr => ⟨hr, h.fetched⟩
  | moveAssign i j =>
    exact rel_map (h.services.moveAssign Impl.closes i j) fun _ _ hr => ⟨hr, h.fetched⟩
  | destroy i => exact rel_map (h.services.destroy Impl.closes i) fun _ _ hr => ⟨hr, h.fetched⟩
  | executeQuery i query =>
    exact rel_map (h.services.modify i _) fun _ _ hr => ⟨hr.emit _, h.fetched⟩
  | fetchResults i =>
    show Option.Rel Represents ((s.services.deref i).map _) ((d.services.deref i).map _)
    rw [h.services.deref]
    cases d.services.deref i with
    | none => exact .none
    | some impl => exact .some ⟨h.services, by rw [h.fetched]⟩

theorem fresh_of_step (h : step s a = some t) : a.Fresh s := by
  cases a with
  | construct i connectionString p =>
    obtain ⟨services, hmake, -⟩ := Option.map_eq_some_iff.mp h
    unfold Unique.Store.make at hmake
    split at hmake
    · assumption
    · cases hmake
  | _ => trivial

theorem Represents.next (h : Represents s d) (hs : step s a = some t) :
    ∃ d', d.step a = some d' ∧ Represents t d' := by
  have hrel := h.rel_step (fresh_of_step hs)
  rw [hs] at hrel
  generalize d.step a = o at hrel
  cases hrel with
  | some hr => exact ⟨_, rfl, hr⟩

theorem Represents.isSome_step (h : Represents s d) (ha : a.Fresh s) :
    (step s a).isSome = (d.step a).isSome := by
  have hrel := h.rel_step ha
  generalize step s a = x at hrel
  generalize d.step a = y at hrel
  cases hrel <;> rfl

/-! ## Connections -/

/-- How many connections an action opens. -/
def Action.opens : Action ι → Nat
  | .construct .. => 1
  | _ => 0

theorem connecting_ne (connectionString : Bytes) : connecting connectionString ≠ closing := by
  intro h
  have hget : (connecting connectionString)[7]? = closing[7]? := congrArg (·[7]?) h
  rw [connecting, List.getElem?_append_left (by decide)] at hget
  exact absurd hget (by decide)

theorem executing_ne (query : Bytes) : executing query ≠ closing := by
  intro h
  have hget : (executing query)[6]? = closing[6]? := congrArg (·[6]?) h
  rw [executing, List.getElem?_append_left (by decide)] at hget
  exact absurd hget (by decide)

theorem count_ending (o : Option Impl) :
    (Unique.Values.ending Impl.closes o).count closing = Unique.has (some o) := by
  cases o with
  | none => rfl
  | some impl => exact List.count_singleton_self

variable [Fintype ι]

/-- How many connections were closed or are open. -/
def Direct.connections (d : Direct ι) : Nat := d.services.out.count closing + d.services.live

omit [DecidableEq ι] in
theorem connections_emit (services : Unique.Values ι Impl Bytes) {line : Bytes}
    (hline : line ≠ closing) (fetched : List (List Bytes)) :
    Direct.connections ⟨services.emit [line], fetched⟩ =
      Direct.connections ⟨services, fetched⟩ := by
  have hcount : (services.out ++ [line]).count closing = services.out.count closing := by
    rw [List.count_append, List.count_singleton, if_neg (by simpa using hline), Nat.add_zero]
  exact congrArg (· + services.live) hcount

theorem Direct.connections_step {d' : Direct ι} (h : d.step a = some d') :
    d'.connections = d.connections + a.opens := by
  cases a with
  | construct i connectionString p =>
    obtain ⟨services, hs, rfl⟩ := Option.map_eq_some_iff.mp h
    rw [connections_emit _ (connecting_ne _)]
    obtain ⟨hout, hlive⟩ := Unique.live_make hs
    simp only [connections, hout, hlive, Action.opens, Nat.add_assoc]
  | moveConstruct i j =>
    obtain ⟨services, hs, rfl⟩ := Option.map_eq_some_iff.mp h
    obtain ⟨hout, hlive⟩ := Unique.live_moveConstruct hs
    simp only [connections, hout, hlive, Action.opens, Nat.add_zero]
  | moveAssign i j =>
    obtain ⟨services, hs, rfl⟩ := Option.map_eq_some_iff.mp h
    obtain ⟨o, hout, hlive⟩ := Unique.live_moveAssign hs
    simp only [connections, hout, List.count_append, count_ending, Action.opens]
    omega
  | destroy i =>
    obtain ⟨services, hs, rfl⟩ := Option.map_eq_some_iff.mp h
    obtain ⟨o, hout, hlive⟩ := Unique.live_destroy hs
    simp only [connections, hout, List.count_append, count_ending, Action.opens]
    omega
  | executeQuery i query =>
    obtain ⟨services, hs, rfl⟩ := Option.map_eq_some_iff.mp h
    rw [connections_emit _ (executing_ne _)]
    obtain ⟨hout, hlive⟩ := Unique.live_modify hs
    simp only [connections, hout, hlive, Action.opens, Nat.add_zero]
  | fetchResults i =>
    obtain ⟨impl, -, rfl⟩ := Option.map_eq_some_iff.mp h
    rfl

theorem Direct.connections_run {d' : Direct ι} {actions : List (Action ι)}
    (h : Machine.run Direct.step d actions = some d') :
    d'.connections = d.connections + (actions.map Action.opens).sum := by
  induction actions generalizing d with
  | nil =>
    cases h
    rfl
  | cons a actions ih =>
    obtain ⟨d₁, hd, h⟩ := Option.bind_eq_some_iff.mp h
    rw [ih h, connections_step hd, List.map_cons, List.sum_cons, Nat.add_assoc]

/-- Services behave as objects without a pointer do: the same lines, the same results,
and the same calls are defined. Every connection that was opened is closed once or has
one service, and without a service nothing is left in memory. -/
theorem pimpl_hidden {actions : List (Action ι)} (h : Machine.run step start actions = some s) :
    ∃ d, Machine.run Direct.step .start actions = some d ∧
      s.services.out = d.services.out ∧ s.fetched = d.fetched ∧
      (∀ a, a.Fresh s → (step s a).isSome = (d.step a).isSome) ∧
      s.services.out.count closing + d.services.live = (actions.map Action.opens).sum ∧
      ((∀ i, s.services.ptrs i = none) → ∀ p, s.services.memory.block p = none) := by
  have hstart : Represents (start : State ι) .start :=
    ⟨⟨⟨Owns.empty, fun _ => .dead⟩, rfl⟩, rfl⟩
  obtain ⟨d, hd, hr⟩ : ∃ d, Machine.run Direct.step .start actions = some d ∧ Represents s d := by
    refine Machine.run_forward ?_ hstart h
    exact Represents.next
  have hconnections := Direct.connections_run hd
  refine ⟨d, hd, hr.services.out, hr.fetched, fun a ha => hr.isSome_step ha, ?_, ?_⟩
  · have hzero : (Direct.start : Direct ι).connections = 0 :=
      (Nat.zero_add _).trans (Unique.live_start [])
    rw [hzero, Nat.zero_add] at hconnections
    rw [hr.services.out]
    exact hconnections
  · intro hdead p
    cases hp : s.services.memory.block p with
    | none => rfl
    | some b =>
      obtain ⟨i, hi⟩ := hr.services.stands.owns.covered p b hp
      rw [Unique.pointers, hdead i] at hi
      cases hi

/-- The queries of the example; then the service is moved, to itself as well. -/
def handedOn : List (Action Bool) :=
  [.construct false (str "postgresql://localhost:5432/mydb") 9,
    .executeQuery false (str "SELECT * FROM users"), .moveConstruct true false,
    .moveAssign true true, .executeQuery true (str "SELECT COUNT(*) FROM orders"),
    .fetchResults true, .destroy true, .destroy false]

theorem pimpl_hidden_handedOn : ∃ s d, Machine.run step start handedOn = some s ∧
    Machine.run Direct.step .start handedOn = some d ∧
    s.fetched = [[str "result for: SELECT * FROM users",
      str "result for: SELECT COUNT(*) FROM orders"]] ∧
    s.services.out.count closing + d.services.live = 1 ∧
    ∀ p, s.services.memory.block p = none := by
  obtain ⟨s, hs⟩ : ∃ s, Machine.run step start handedOn = some s := ⟨_, rfl⟩
  obtain ⟨d, hd, -, -, -, hcount, hempty⟩ := pimpl_hidden hs
  cases hs
  exact ⟨_, d, rfl, hd, by decide, hcount, hempty (by decide)⟩

end BackendPatterns.Pimpl
