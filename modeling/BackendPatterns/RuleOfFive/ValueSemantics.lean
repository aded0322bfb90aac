import BackendPatterns.Lib.Bytes
import BackendPatterns.RuleOfFive.Ownership

/-! # Value semantics

Reading and writing through an arena is reading and writing its array, as long as
offset and length add up without wrapping and `memcpy` never gets a null pointer. So a
program that uses arenas cannot tell them from arrays. -/

namespace BackendPatterns.RuleOfFive
open BackendPatterns.Lib

variable {ι : Type} [DecidableEq ι] {s t : State ι} {v w : Values ι} {i : ι}

/-- The end of the range of a write or read is a `std::size_t`. -/
def Action.InRange : Action ι → Prop
  | .life _ => True
  | .write _ offset view => offset + view.chars.length < 18446744073709551616
  | .read _ offset len => offset + len < 18446744073709551616

instance : (a : Action ι) → Decidable a.InRange
  | .life _ => inferInstanceAs (Decidable True)
  | .write _ _ _ => inferInstanceAs (Decidable (_ < _))
  | .read _ _ _ => inferInstanceAs (Decidable (_ < _))

/-- A write of nothing that passes the check, to an arena without memory or from a null
view. Unlike the copy constructor, `write` does not look at the size first. -/
def NullWrite (a : Arena) (offset : Nat) (view : StringView) : Prop :=
  view.chars = [] ∧ offset ≤ a.size ∧ (a.data = none ∨ view = none)

instance (a : Arena) (offset : Nat) (view : StringView) : Decidable (NullWrite a offset view) :=
  inferInstanceAs (Decidable (_ ∧ _ ∧ (_ ∨ _)))

def State.WritesNull (s : State ι) : Action ι → Prop
  | .life _ | .read _ _ _ => False
  | .write i offset view => ∃ a ∈ s.arenas i, NullWrite a offset view

instance (s : State ι) : (a : Action ι) → Decidable (s.WritesNull a)
  | .life _ => inferInstanceAs (Decidable False)
  | .read _ _ _ => inferInstanceAs (Decidable False)
  | .write i offset view => inferInstanceAs (Decidable (∃ a ∈ s.arenas i, NullWrite a offset view))

/-- The operations that arrays have as well. -/
def Careful (s : State ι) (a : Action ι) : Prop := a.InRange ∧ ¬ s.WritesNull a

instance (s : State ι) (a : Action ι) : Decidable (Careful s a) :=
  inferInstanceAs (Decidable (_ ∧ ¬ _))

/-- Inside of an arena, `memcpy` gets a null pointer only from a null write. -/
theorem not_null {a : Arena} {offset : Nat} {view : StringView}
    (hsize : a.size = 0 ↔ a.data = none) (hle : offset + view.chars.length ≤ a.size)
    (hnot : ¬ NullWrite a offset view) : a.data ≠ none ∧ ∃ bytes, view = some bytes := by
  refine ⟨fun hdata => hnot ⟨?_, by omega, .inl hdata⟩, ?_⟩
  · have hzero : a.size = 0 := hsize.mpr hdata
    exact List.length_eq_zero_iff.mp (by omega)
  · cases view with
    | none => exact absurd ⟨rfl, by omega, .inr rfl⟩ hnot
    | some bytes => exact ⟨bytes, rfl⟩

theorem memcpy_null {data : Option Addr} {source : Option (List Cell)} {offset : Nat} {h : Memory}
    (hnull : data = none ∨ source = none) : memcpy data offset source h = none := by
  obtain rfl | rfl := hnull
  · rfl
  · cases data <;> rfl

theorem sizeAdd_eq {a b : Nat} (h : a + b < 18446744073709551616) : sizeAdd a b = a + b :=
  Nat.mod_eq_of_lt h

theorem Represents.write (hr : Represents s v) {offset : Nat} {view : StringView}
    (hin : offset + view.chars.length < 18446744073709551616)
    (hnull : ¬ s.WritesNull (.write i offset view)) (hs : s.write i offset view = some t) :
    ∃ w, v.write i offset view = some w ∧ Represents t w := by
  cases hi : s.arenas i with
  | none => simp [State.write, hi] at hs
  | some a =>
    obtain ⟨b, hb, hlen, hsize, -⟩ := hr.alive hi
    simp only [State.write, hi, Arena.write, sizeAdd_eq hin, ← hlen] at hs
    simp only [Values.write, hb]
    by_cases hle : offset + view.chars.length ≤ b.length
    · have hnot : ¬ NullWrite a offset view := fun hw => hnull ⟨a, hi, hw⟩
      obtain ⟨hdata, bytes, rfl⟩ := not_null hsize (hlen ▸ hle) hnot
      obtain ⟨h', hcopy, hmodels⟩ := @Models.memcpy _ _ _ _ _ _ _ a hr.models hi hb hdata offset
        (bytes.map some) (by rw [List.length_map]; exact hle)
      rw [if_neg (Nat.not_lt.mpr hle), Option.map_some, hcopy] at hs
      cases hs
      rw [if_pos hle]
      exact ⟨_, rfl, hmodels, rfl, by simp⟩
    · rw [if_pos (Nat.lt_of_not_le hle)] at hs
      cases hs
      rw [if_neg hle]
      exact ⟨_, rfl, hr.models, rfl, by simp⟩

omit [DecidableEq ι] in
theorem Represents.read (hr : Represents s v) {offset len : Nat}
    (hin : offset + len < 18446744073709551616) (hs : s.read i offset len = some t) :
    ∃ w, v.read i offset len = some w ∧ Represents t w := by
  cases hi : s.arenas i with
  | none => simp [State.read, hi] at hs
  | some a =>
    obtain ⟨b, hb, hlen, -⟩ := hr.alive hi
    have hh := hr.models.holds i
    rw [hi, hb] at hh
    simp only [State.read, hi, Arena.read, sizeAdd_eq hin, ← hlen] at hs
    simp only [Values.read, hb]
    by_cases hle : offset + len ≤ b.length
    · rw [if_neg (Nat.not_lt.mpr hle), hh.bytesAt hle] at hs
      cases hs
      rw [if_pos hle]
      exact ⟨_, rfl, hr.models, rfl, by simp⟩
    · rw [if_pos (Nat.lt_of_not_le hle)] at hs
      cases hs
      rw [if_neg hle]
      exact ⟨_, rfl, hr.models, rfl, by simp⟩

/-- Every careful step of the code is a step of the arrays. -/
theorem Represents.step (hr : Represents s v) {a : Action ι} (ha : Careful s a)
    (hs : step s a = some t) : ∃ w, v.step a = some w ∧ Represents t w := by
  cases a with
  | life op => exact hr.lifeStep hs
  | write i offset view =>
    rw [RuleOfFive.step, if_neg hr.defined] at hs
    exact hr.write ha.1 ha.2 hs
  | read i offset len =>
    rw [RuleOfFive.step, if_neg hr.defined] at hs
    exact hr.read ha.1 hs

theorem Represents.run (hr : Represents s v) {as : List (Action ι)}
    (hs : Machine.run (Machine.guarded Careful RuleOfFive.step) s as = some t) :
    ∃ w, Machine.run Values.step v as = some w ∧ Represents t w := by
  refine Machine.run_forward (R := Represents) (fun hr hs => ?_) hr hs
  obtain ⟨ha, hs⟩ := Machine.guarded_eq_some.mp hs
  exact hr.step ha hs

/-- A null write is undefined, although its range is inside of the arena. -/
theorem Represents.undefined (hr : Represents s v) {a : Action ι} (hnull : s.WritesNull a)
    (hs : RuleOfFive.step s a = some t) : t.last = .undefined := by
  cases a with
  | life | read => exact hnull.elim
  | write i offset view =>
    obtain ⟨a, hi, hchars, hle, hnone⟩ := hnull
    have hnone : a.data = none ∨ view.map (List.map some) = none :=
      hnone.imp_right fun hview => by rw [hview, Option.map_none]
    have hsum : ¬ sizeAdd offset view.chars.length > a.size := by
      rw [hchars, List.length_nil]
      exact Nat.not_lt.mpr (Nat.le_trans (Nat.mod_le _ _) hle)
    rw [RuleOfFive.step, if_neg hr.defined] at hs
    simp only [State.write, Option.mem_def.mp hi, Arena.write, if_neg hsum, memcpy_null hnone] at hs
    cases hs
    rfl

/-! ## What an operation does to the arrays -/

/-- The arenas that an operation may change. -/
def Action.changes : Action ι → List ι
  | .life (.construct i _ _) | .life (.copyConstruct i _ _) | .life (.copyAssign i _ _)
  | .life (.destroy i) | .write i _ _ => [i]
  | .life (.moveConstruct i j) | .life (.moveAssign i j) | .life (.swap i j) => [i, j]
  | .read _ _ _ => []

/-- What holds of the arrays after an operation that did not throw. -/
def Action.Post (v w : Values ι) : Action ι → Prop
  | .life (.construct i bytes _) => w.arrays i = some (List.replicate bytes none)
  | .life (.copyConstruct i j _) | .life (.copyAssign i j _) => w.arrays i = v.arrays j
  | .life (.moveConstruct i j) => w.arrays i = v.arrays j ∧ w.arrays j = some []
  | .life (.moveAssign i j) =>
    w.arrays i = v.arrays j ∧ (i ≠ j → w.arrays j = some [])
  | .life (.swap i j) => w.arrays i = v.arrays j ∧ w.arrays j = v.arrays i
  | .life (.destroy i) => w.arrays i = none
  | .write i offset view => ∃ b b', v.arrays i = some b ∧ w.arrays i = some b' ∧
      ∀ k, b'[k]? = if offset ≤ k ∧ k < offset + view.chars.length then
        (view.chars.map some)[k - offset]? else b[k]?
  | .read i offset len => ∃ b cells, v.arrays i = some b ∧ w.last = .bytes cells ∧
      cells.length = len ∧ ∀ k < len, cells[k]? = b[offset + k]?

structure Effect (v : Values ι) (a : Action ι) (w : Values ι) : Prop where
  frame : ∀ k, k ∉ a.changes → w.arrays k = v.arrays k
  threw : ∀ e, w.last = .threw e → w.arrays = v.arrays
  post : (∀ e, w.last ≠ .threw e) → a.Post v w

theorem yield_cases (v : Values ι) (i : ι) (b : List Cell) (m : Option Addr) :
    v.yield i b m = { v with last := .threw .badAlloc } ∨
      v.yield i b m = ⟨Function.update v.arrays i (some b), .done⟩ := by
  unfold Values.yield
  split
  · exact .inl rfl
  · exact .inr rfl

omit [DecidableEq ι] in
/-- What throws has changed nothing. -/
theorem effect_threw {a : Action ι} (e : Exception) : Effect v a { v with last := .threw e } :=
  ⟨fun _ _ => rfl, fun _ _ => rfl, fun hnot => absurd rfl (hnot e)⟩

omit [DecidableEq ι] in
theorem effect_self {a : Action ι} (hp : a.Post v { v with last := .done }) :
    Effect v a { v with last := .done } :=
  ⟨fun _ _ => rfl, fun _ _ => rfl, fun _ => hp⟩

theorem effect_update {a : Action ι} {o : Option (List Cell)} (ha : a.changes = [i])
    (hp : a.Post v ⟨Function.update v.arrays i o, .done⟩) :
    Effect v a ⟨Function.update v.arrays i o, .done⟩ := by
  refine ⟨?_, ?_, fun _ => hp⟩
  · intro k hk
    rw [ha, List.mem_singleton] at hk
    exact Function.update_of_ne hk _ _
  · intro e he
    cases he

/-- An operation that yields one array changes no other. -/
theorem effect_yield {a : Action ι} {b : List Cell} {m : Option Addr} (ha : a.changes = [i])
    (hw : w = v.yield i b m) (hp : w.arrays i = some b → a.Post v w) : Effect v a w := by
  obtain hthrew | hdone := yield_cases v i b m
  · rw [hw, hthrew]
    exact effect_threw .badAlloc
  · rw [hdone] at hw
    subst hw
    exact effect_update ha (hp (Function.update_self ..))

theorem effect_setBoth {a : Action ι} {j : ι} {b c : List Cell} (ha : a.changes = [i, j])
    (hw : w = v.setBoth i j b c)
    (hp : (i ≠ j → w.arrays i = some b) → w.arrays j = some c → a.Post v w) : Effect v a w := by
  subst hw
  refine ⟨?_, ?_, fun _ => hp (fun hij => ?_) (Function.update_self ..)⟩
  · intro k hk
    rw [ha, List.mem_cons, List.mem_singleton, not_or] at hk
    dsimp only [Values.setBoth]
    rw [Function.update_of_ne hk.2, Function.update_of_ne hk.1]
  · intro e he
    cases he
  · dsimp only [Values.setBoth]
    rw [Function.update_of_ne hij, Function.update_self]

theorem effect_of_lifecycle {op : Lifecycle ι} (hs : v.lifecycle op = some w) :
    Effect v (.life op) w := by
  cases op with
  | construct i bytes m =>
    simp only [Values.lifecycle] at hs
    split at hs
    · exact effect_yield rfl (Option.some.inj hs).symm fun hi => hi
    · cases hs
  | copyConstruct i j m =>
    simp only [Values.lifecycle] at hs
    split at hs
    · rename_i hj
      exact effect_yield rfl (Option.some.inj hs).symm fun hi => hi.trans hj.symm
    · cases hs
  | copyAssign i j m =>
    simp only [Values.lifecycle] at hs
    split at hs
    · rename_i hj
      split at hs
      · rename_i hij
        cases hs
        exact effect_self (congrArg v.arrays hij)
      · exact effect_yield rfl (Option.some.inj hs).symm fun hi => hi.trans hj.symm
    · cases hs
  | moveConstruct i j =>
    simp only [Values.lifecycle] at hs
    split at hs
    · rename_i hi hj
      refine effect_setBoth rfl (Option.some.inj hs).symm fun hwi hwj => ⟨?_, hwj⟩
      rw [hj]
      refine hwi fun hij => ?_
      rw [hij, hj] at hi
      cases hi
    · cases hs
  | moveAssign i j =>
    simp only [Values.lifecycle] at hs
    split at hs
    · rename_i hj
      split at hs
      · rename_i hij
        cases hs
        exact effect_self ⟨congrArg v.arrays hij, fun hne => absurd hij hne⟩
      · rename_i hij
        refine effect_setBoth rfl (Option.some.inj hs).symm fun hwi hwj => ⟨?_, fun _ => hwj⟩
        rw [hj]
        exact hwi hij
    · cases hs
  | swap i j =>
    simp only [Values.lifecycle] at hs
    split at hs
    · rename_i hi hj
      refine effect_setBoth rfl (Option.some.inj hs).symm fun hwi hwj => ⟨?_, hwj.trans hi.symm⟩
      by_cases hij : i = j
      · subst hij
        rw [hwj, hi]
      · rw [hwi hij, hj]
    · cases hs
  | destroy i =>
    simp only [Values.lifecycle] at hs
    split at hs
    · cases hs
      exact effect_update rfl (Function.update_self ..)
    · cases hs

theorem effect_of_write {offset : Nat} {view : StringView}
    (hs : v.write i offset view = some w) : Effect v (.write i offset view) w := by
  unfold Values.write at hs
  split at hs
  · rename_i b hb
    split at hs
    · rename_i hle
      cases hs
      refine effect_update rfl ⟨b, _, hb, Function.update_self .., fun k => ?_⟩
      rw [getElem?_splice (by simpa using hle), List.length_map]
    · cases hs
      exact effect_threw (.outOfRange "arena write")
  · cases hs

omit [DecidableEq ι] in
theorem effect_of_read {offset len : Nat} (hs : v.read i offset len = some w) :
    Effect v (.read i offset len) w := by
  unfold Values.read at hs
  split at hs
  · rename_i b hb
    split at hs
    · rename_i hle
      cases hs
      refine ⟨fun _ _ => rfl, fun _ _ => rfl, fun _ => ⟨b, _, hb, rfl, ?_, fun k hk => ?_⟩⟩
      · rw [List.length_take, List.length_drop]
        omega
      · rw [List.getElem?_take_of_lt hk, List.getElem?_drop]
    · cases hs
      exact effect_threw (.outOfRange "arena read")
  · cases hs

theorem effect_of_step {a : Action ι} (hs : v.step a = some w) : Effect v a w := by
  cases a with
  | life op => exact effect_of_lifecycle hs
  | write i offset view => exact effect_of_write hs
  | read i offset len => exact effect_of_read hs

/-- Whatever `malloc` returns, a careful run of the code over the heap is a run over
plain arrays with the same outcomes, one array for each arena. Its next operation, if in
range, is one of the arrays exactly if it is no null write; and there it changes only the
arrays of its own arenas, in the way it should, or none if it throws. -/
theorem arenas_are_arrays_iff {as : List (Action ι)}
    (hs : Machine.run (Machine.guarded Careful step) start as = some s) :
    ∃ v, Machine.run Values.step .start as = some v ∧ Represents s v ∧
      ∀ a t, a.InRange → step s a = some t →
        ((∃ w, v.step a = some w ∧ Represents t w ∧ Effect v a w) ↔ ¬ s.WritesNull a) := by
  obtain ⟨v, hv, hr⟩ := represents_start.run hs
  refine ⟨v, hv, hr, fun a t hin ht => ⟨?_, fun hnull => ?_⟩⟩
  · rintro ⟨w, -, hrw, -⟩ hnull
    exact hrw.defined (hr.undefined hnull ht)
  · obtain ⟨w, hw, hrw⟩ := hr.step ⟨hin, hnull⟩ ht
    exact ⟨w, hw, hrw, effect_of_step hw⟩

/-- A copy, a move, an assignment for which `malloc` fails, and a copy at an address
that was freed. -/
def copies : List (Action Nat) :=
  [.life (.construct 0 3 (some 100)), .write 0 1 (some (str "ab")),
    .life (.copyConstruct 1 0 (some 200)), .write 0 0 (some (str "c")),
    .life (.moveConstruct 2 0), .life (.copyAssign 2 1 none), .life (.destroy 0),
    .life (.destroy 2), .life (.copyConstruct 0 1 (some 100)), .read 0 0 3]

theorem arenas_are_arrays_copies : ∃ s v,
    Machine.run (Machine.guarded Careful step) start copies = some s ∧
    Machine.run Values.step .start copies = some v ∧ Represents s v ∧
    v.last = .bytes [none, some 97, some 98] := by
  obtain ⟨s, hs, hlast⟩ : ∃ s, Machine.run (Machine.guarded Careful step) start copies = some s ∧
    s.last = .bytes [none, some 97, some 98] := ⟨_, rfl, rfl⟩
  obtain ⟨v, hv, hr, -⟩ := arenas_are_arrays_iff hs
  exact ⟨s, v, hs, hv, hr, hr.last.symm.trans hlast⟩

/-- An empty string into an arena of no bytes: an array takes it, `memcpy` need not. -/
def emptyWrite : List (Action Unit) := [.life (.construct () 0 none), .write () 0 (some [])]

theorem empty_write_undefined : (∀ a ∈ emptyWrite, a.InRange) ∧
    (∃ v, Machine.run Values.step .start emptyWrite = some v ∧ v.last = .done) ∧
    ∃ s, Machine.run step start emptyWrite = some s ∧ s.last = .undefined ∧
      ∀ v, ¬ Represents s v := by
  obtain ⟨s, hs, hlast⟩ : ∃ s, Machine.run step start emptyWrite = some s ∧
    s.last = .undefined := ⟨_, rfl, rfl⟩
  exact ⟨by decide, ⟨_, rfl, rfl⟩, s, hs, hlast, fun v hr => hr.defined hlast⟩

end BackendPatterns.RuleOfFive
