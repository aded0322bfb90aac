import Mathlib.Logic.Function.Basic
import BackendPatterns.Lib.Threads

/-! # Counted pointers

An object lives as long as some pointer owns it. What the implementation keeps is
a control block with two counts, one of owning and one of watching pointers: the
object ends with the first count, and the block with both. The counts are exact,
so no operation ever meets a block that is gone. -/

namespace BackendPatterns.Lib.Counted
open BackendPatterns.Lib.Threads

variable {ι ρ : Type*}

/-- A pointer to the object made as number `o`. -/
inductive Ptr
  | null
  | strong (o : Nat)
  | weak (o : Nat)
  deriving DecidableEq

structure Block (ρ : Type*) where
  strong : Nat
  weak : Nat
  object : Option ρ

/-- `made` are the objects made so far and `ended` those destroyed, in order. -/
structure Store (ι ρ : Type*) where
  blocks : Nat → Option (Block ρ)
  vars : ι → Ptr
  made : List ρ
  ended : List Nat

def empty : Store ι ρ := ⟨fun _ => none, fun _ => .null, [], []⟩

/-- One more pointer; `none` where its block is gone. -/
def Store.retain (s : Store ι ρ) : Ptr → Option (Store ι ρ)
  | .null => some s
  | .strong o => (s.blocks o).map fun b =>
    { s with blocks := Function.update s.blocks o (some { b with strong := b.strong + 1 }) }
  | .weak o => (s.blocks o).map fun b =>
    { s with blocks := Function.update s.blocks o (some { b with weak := b.weak + 1 }) }

/-- A block that both counts have left is freed. -/
def Block.keep (b : Block ρ) : Option (Block ρ) :=
  if b.strong = 0 ∧ b.weak = 0 then none else some b

/-- One pointer less. -/
def Store.release (s : Store ι ρ) : Ptr → Option (Store ι ρ)
  | .null => some s
  | .strong o => (s.blocks o).bind fun b =>
    match b.strong with
    | 0 => none
    | 1 => some
      { s with
        blocks := Function.update s.blocks o (Block.keep ⟨0, b.weak, none⟩)
        ended := s.ended ++ [o] }
    | k + 2 => some
      { s with blocks := Function.update s.blocks o (some { b with strong := k + 1 }) }
  | .weak o => (s.blocks o).bind fun b =>
    match b.weak with
    | 0 => none
    | k + 1 => some
      { s with blocks := Function.update s.blocks o (Block.keep { b with weak := k }) }

/-- What an owning pointer points at. -/
def Store.deref (s : Store ι ρ) (i : ι) : Option ρ :=
  match s.vars i with
  | .strong o => (s.blocks o).bind Block.object
  | _ => none

section
variable [DecidableEq ι]

/-- A variable gets a pointer: the new one is counted before the old one is left. -/
def Store.assign (s : Store ι ρ) (i : ι) (p : Ptr) : Option (Store ι ρ) :=
  (s.retain p).bind fun t => { t with vars := Function.update t.vars i p }.release (s.vars i)

/-- A new object. -/
def Store.make (s : Store ι ρ) (i : ι) (x : ρ) : Option (Store ι ρ) :=
  { s with
    blocks := Function.update s.blocks s.made.length (some ⟨1, 0, some x⟩)
    vars := Function.update s.vars i (.strong s.made.length)
    made := s.made ++ [x] }.release (s.vars i)

end

/-- The watching pointer for a pointer. -/
def Ptr.watch : Ptr → Ptr
  | .strong o => .weak o
  | p => p

/-- What locking a pointer gives. -/
def Store.lock (s : Store ι ρ) : Ptr → Ptr
  | .weak o =>
    match s.blocks o with
    | some b => if 0 < b.strong then .strong o else .null
    | none => .null
  | p => p

/-! ## The counts are exact -/

/-- The block of an object with so many pointers. -/
def block (x : Option ρ) (strong weak : Nat) : Option (Block ρ) :=
  Block.keep ⟨strong, weak, if strong = 0 then none else x⟩

/-- The blocks stand for `strong` and `weak` pointers to each object. -/
structure Exact (s : Store ι ρ) (strong weak : Nat → Nat) : Prop where
  blocks : ∀ o, s.blocks o = block s.made[o]? (strong o) (weak o)
  made : ∀ o, 0 < strong o ∨ 0 < weak o → o < s.made.length
  ended : ∀ o, o ∈ s.ended ↔ o < s.made.length ∧ strong o = 0
  once : s.ended.Nodup

/-- So many pointers to `o` is `p`. -/
def Ptr.strongs (p : Ptr) (o : Nat) : Nat := if p = .strong o then 1 else 0

def Ptr.weaks (p : Ptr) (o : Nat) : Nat := if p = .weak o then 1 else 0

variable {s : Store ι ρ} {strong weak : Nat → Nat} {p : Ptr}

theorem block_some {x : Option ρ} {m k : Nat} (h : 0 < m ∨ 0 < k) :
    block x m k = some ⟨m, k, if m = 0 then none else x⟩ := by
  unfold block Block.keep
  exact if_neg fun hzero => by
    dsimp only at hzero
    omega

/-- Only the counts of `o` change, with its block. -/
theorem Exact.update {ended : List Nat} (h : Exact s strong weak) (strong' weak' : Nat → Nat)
    (o : Nat) (hs : ∀ o', o' ≠ o → strong' o' = strong o') (hw : ∀ o', o' ≠ o → weak' o' = weak o')
    (ho : o < s.made.length)
    (hended : ∀ o', o' ∈ ended ↔ o' < s.made.length ∧ strong' o' = 0) (honce : ended.Nodup) :
    Exact { s with
      blocks := Function.update s.blocks o (block s.made[o]? (strong' o) (weak' o))
      ended := ended } strong' weak' := by
  refine ⟨?_, ?_, hended, honce⟩
  · intro o'
    dsimp only
    by_cases heq : o' = o
    · subst heq
      rw [Function.update_self]
    · rw [Function.update_of_ne heq, hs o' heq, hw o' heq]
      exact h.blocks o'
  · intro o' hpos
    by_cases heq : o' = o
    · subst heq
      exact ho
    · rw [hs o' heq, hw o' heq] at hpos
      exact h.made o' hpos

theorem strongs_ne {o o' : Nat} (h : o' ≠ o) : (Ptr.strong o).strongs o' = 0 :=
  if_neg fun heq => h (Ptr.strong.inj heq).symm

theorem weaks_ne {o o' : Nat} (h : o' ≠ o) : (Ptr.weak o).weaks o' = 0 :=
  if_neg fun heq => h (Ptr.weak.inj heq).symm

@[simp] theorem strongs_self (o : Nat) : (Ptr.strong o).strongs o = 1 := if_pos rfl

@[simp] theorem weaks_self (o : Nat) : (Ptr.weak o).weaks o = 1 := if_pos rfl

@[simp] theorem strongs_weak (o o' : Nat) : (Ptr.weak o).strongs o' = 0 := rfl

@[simp] theorem weaks_strong (o o' : Nat) : (Ptr.strong o).weaks o' = 0 := rfl

@[simp] theorem strongs_null (o : Nat) : Ptr.null.strongs o = 0 := rfl

@[simp] theorem weaks_null (o : Nat) : Ptr.null.weaks o = 0 := rfl

/-- A pointer to an object that is watched at least can be counted. -/
theorem Exact.retain (h : Exact s strong weak) (hs : ∀ o, p = .strong o → 0 < strong o)
    (hw : ∀ o, p = .weak o → 0 < strong o ∨ 0 < weak o) :
    ∃ t, s.retain p = some t ∧ t.vars = s.vars ∧ t.made = s.made ∧
      Exact t (fun o => strong o + p.strongs o) (fun o => weak o + p.weaks o) := by
  cases p with
  | null => exact ⟨s, rfl, rfl, rfl, h⟩
  | strong o =>
    have hpos := hs o rfl
    have hb := h.blocks o
    rw [block_some (.inl hpos)] at hb
    have hnew : block s.made[o]? (strong o + 1) (weak o) =
        some ⟨strong o + 1, weak o, s.made[o]?⟩ := by
      rw [block_some (.inl (Nat.succ_pos _)), if_neg (Nat.succ_ne_zero _)]
    refine ⟨{ s with
      blocks := Function.update s.blocks o (block s.made[o]? (strong o + 1) (weak o)) },
      ?_, rfl, rfl, ?_⟩
    · rw [Store.retain, hb, Option.map_some, if_neg (Nat.ne_of_gt hpos), hnew]
    · have hended : ∀ o', o' ∈ s.ended ↔
          o' < s.made.length ∧ strong o' + (Ptr.strong o).strongs o' = 0 := by
        intro o'
        rw [h.ended]
        by_cases ho' : o' = o
        · subst ho'
          simp [Nat.ne_of_gt hpos]
        · rw [strongs_ne ho', Nat.add_zero]
      have hupdate := h.update (fun o' => strong o' + (Ptr.strong o).strongs o') weak o
        (fun o' ho' => by rw [strongs_ne ho', Nat.add_zero]) (fun _ _ => rfl)
        (h.made o (.inl hpos)) hended h.once
      simpa using hupdate
  | weak o =>
    have hpos := hw o rfl
    have hb := h.blocks o
    rw [block_some hpos] at hb
    have hnew : block s.made[o]? (strong o) (weak o + 1) =
        some ⟨strong o, weak o + 1, if strong o = 0 then none else s.made[o]?⟩ :=
      block_some (.inr (Nat.succ_pos _))
    refine ⟨{ s with
      blocks := Function.update s.blocks o (block s.made[o]? (strong o) (weak o + 1)) },
      ?_, rfl, rfl, ?_⟩
    · rw [Store.retain, hb, Option.map_some, hnew]
    · have hupdate := h.update strong (fun o' => weak o' + (Ptr.weak o).weaks o') o (fun _ _ => rfl)
        (fun o' ho' => by rw [weaks_ne ho', Nat.add_zero]) (h.made o hpos) h.ended h.once
      simpa using hupdate

/-- A counted pointer can be left. -/
theorem Exact.release
    (h : Exact s (fun o => strong o + p.strongs o) (fun o => weak o + p.weaks o)) :
    ∃ t, s.release p = some t ∧ t.vars = s.vars ∧ t.made = s.made ∧ Exact t strong weak := by
  cases p with
  | null => exact ⟨s, rfl, rfl, rfl, h⟩
  | strong o =>
    have hb := h.blocks o
    have ho := h.made o (.inl (by simp))
    simp only [strongs_self, weaks_strong, Nat.add_zero] at hb
    rw [block_some (.inl (Nat.succ_pos _)), if_neg (Nat.succ_ne_zero _)] at hb
    have hended : ∀ o', o' ≠ o → (o' ∈ s.ended ↔ o' < s.made.length ∧ strong o' = 0) := by
      intro o' ho'
      rw [h.ended, strongs_ne ho', Nat.add_zero]
    have hnot : o ∉ s.ended := by
      rw [h.ended]
      simp
    cases hk : strong o with
    | zero =>
      rw [hk] at hb
      refine ⟨{ s with
        blocks := Function.update s.blocks o (block s.made[o]? (strong o) (weak o))
        ended := s.ended ++ [o] }, ?_, rfl, rfl, ?_⟩
      · rw [Store.release, hb, Option.bind_some, hk]
        rfl
      · refine h.update strong weak o (fun o' ho' => by rw [strongs_ne ho', Nat.add_zero])
          (fun _ _ => by simp) ho ?_ ?_
        · intro o'
          rw [List.mem_append, List.mem_singleton]
          by_cases ho' : o' = o
          · subst ho'
            simp [ho, hk]
          · simp [ho', hended o' ho']
        · refine List.nodup_append.mpr ⟨h.once, List.nodup_singleton o, fun x hx y hy hxy => ?_⟩
          rw [List.mem_singleton.mp hy] at hxy
          exact hnot (hxy ▸ hx)
    | succ k =>
      rw [hk] at hb
      have hnew : block s.made[o]? (strong o) (weak o) = some ⟨k + 1, weak o, s.made[o]?⟩ := by
        rw [block_some (.inl (by omega)), if_neg (by omega), hk]
      refine ⟨{ s with
        blocks := Function.update s.blocks o (block s.made[o]? (strong o) (weak o)) },
        ?_, rfl, rfl, ?_⟩
      · rw [Store.release, hb, Option.bind_some, hnew]
      · refine h.update strong weak o (fun o' ho' => by rw [strongs_ne ho', Nat.add_zero])
          (fun _ _ => by simp) ho ?_ h.once
        intro o'
        by_cases ho' : o' = o
        · subst ho'
          simp [hnot, hk]
        · exact hended o' ho'
  | weak o =>
    have hb := h.blocks o
    have ho := h.made o (.inr (by simp))
    simp only [strongs_weak, weaks_self, Nat.add_zero] at hb
    rw [block_some (.inr (Nat.succ_pos _))] at hb
    refine ⟨{ s with
      blocks := Function.update s.blocks o (block s.made[o]? (strong o) (weak o)) },
      ?_, rfl, rfl, ?_⟩
    · rw [Store.release, hb, Option.bind_some]
      rfl
    · exact h.update strong weak o (fun _ _ => by simp)
        (fun o' ho' => by rw [weaks_ne ho', Nat.add_zero]) ho
        (fun o' => by simpa using h.ended o') h.once

/-- A new object under the next number, with one pointer. -/
theorem Exact.make (h : Exact s strong weak) (x : ρ) :
    Exact { s with
      blocks := Function.update s.blocks s.made.length (some ⟨1, 0, some x⟩)
      made := s.made ++ [x] }
      (fun o => strong o + (Ptr.strong s.made.length).strongs o) weak := by
  have hzero : ∀ o, s.made.length ≤ o → strong o = 0 ∧ weak o = 0 := by
    intro o ho
    have hmade := mt (h.made o) (Nat.not_lt.mpr ho)
    omega
  obtain ⟨hs, hw⟩ := hzero _ (Nat.le_refl _)
  refine ⟨?_, ?_, ?_, h.once⟩
  · intro o
    dsimp only
    by_cases ho : o = s.made.length
    · subst ho
      rw [Function.update_self, strongs_self, hs, hw, block_some (.inl (Nat.succ_pos _)),
        List.getElem?_concat_length]
      rfl
    · rw [Function.update_of_ne ho, strongs_ne ho, h.blocks o, Nat.add_zero]
      rcases Nat.lt_or_ge o s.made.length with hlt | hge
      · rw [List.getElem?_append_left hlt]
      · obtain ⟨hs', hw'⟩ := hzero o hge
        rw [hs', hw', List.getElem?_eq_none hge]
        rfl
  · intro o hpos
    rw [List.length_append, List.length_singleton]
    by_cases ho : o = s.made.length
    · omega
    · rw [strongs_ne ho, Nat.add_zero] at hpos
      exact Nat.lt_succ_of_lt (h.made o hpos)
  · intro o
    rw [h.ended, List.length_append, List.length_singleton]
    by_cases ho : o = s.made.length
    · subst ho
      simp
    · rw [strongs_ne ho, Nat.add_zero]
      have hlt : o < s.made.length + 1 ↔ o < s.made.length := by omega
      rw [hlt, Nat.add_zero]

/-! ## Counting variables -/

variable [Fintype ι]

/-- How many variables own, or watch, an object. -/
def owners (vars : ι → Ptr) (o : Nat) : Nat := count (fun p => p = .strong o) vars

def watchers (vars : ι → Ptr) (o : Nat) : Nat := count (fun p => p = .weak o) vars

/-- Every count is that of the variables. -/
def Good (s : Store ι ρ) : Prop := Exact s (owners s.vars) (watchers s.vars)

theorem owners_pos {vars : ι → Ptr} {o : Nat} : 0 < owners vars o ↔ ∃ i, vars i = .strong o :=
  count_pos_iff

theorem watchers_pos {vars : ι → Ptr} {o : Nat} : 0 < watchers vars o ↔ ∃ i, vars i = .weak o :=
  count_pos_iff

theorem good_empty : Good (empty : Store ι ρ) := by
  have howners : ∀ o, owners (fun _ : ι => Ptr.null) o = 0 := fun o =>
    count_eq_zero_iff.mpr fun _ => nofun
  have hwatchers : ∀ o, watchers (fun _ : ι => Ptr.null) o = 0 := fun o =>
    count_eq_zero_iff.mpr fun _ => nofun
  refine ⟨?_, ?_, ?_, List.nodup_nil⟩
  · intro o
    show none = block none _ _
    rw [show (empty : Store ι ρ).vars = fun _ => .null from rfl, howners, hwatchers]
    rfl
  · intro o ho
    rw [show (empty : Store ι ρ).vars = fun _ => .null from rfl, howners, hwatchers] at ho
    omega
  · intro o
    simp [empty]

/-- A copy of `p` points at an object that some variable owns or, if it only
watches, watches. -/
structure Copyable (s : Store ι ρ) (p : Ptr) : Prop where
  strong : ∀ o, p = .strong o → ∃ j, s.vars j = .strong o
  weak : ∀ o, p = .weak o → ∃ j, s.vars j = .strong o ∨ s.vars j = .weak o

omit [Fintype ι] in
theorem copyable_null : Copyable s .null := ⟨nofun, nofun⟩

omit [Fintype ι] in
theorem copyable_var (j : ι) : Copyable s (s.vars j) :=
  ⟨fun _ ho => ⟨j, ho⟩, fun _ ho => ⟨j, .inr ho⟩⟩

omit [Fintype ι] in
theorem copyable_watch (j : ι) : Copyable s (s.vars j).watch := by
  cases hj : s.vars j with
  | null => exact copyable_null
  | strong o =>
    refine ⟨nofun, fun o' ho' => ⟨j, .inl ?_⟩⟩
    rw [← Ptr.weak.inj ho']
    exact hj
  | weak o =>
    refine ⟨nofun, fun o' ho' => ⟨j, .inr ?_⟩⟩
    rw [← Ptr.weak.inj ho']
    exact hj

section
variable [DecidableEq ι]

theorem owners_update (vars : ι → Ptr) (i : ι) (p : Ptr) (o : Nat) :
    owners (Function.update vars i p) o + (vars i).strongs o = owners vars o + p.strongs o :=
  count_update (fun q => q = Ptr.strong o) vars i p

theorem watchers_update (vars : ι → Ptr) (i : ι) (p : Ptr) (o : Nat) :
    watchers (Function.update vars i p) o + (vars i).weaks o = watchers vars o + p.weaks o :=
  count_update (fun q => q = Ptr.weak o) vars i p

/-- An assignment of a pointer that can be copied is always defined, and keeps
the counts exact. -/
theorem Good.assign (h : Good s) (i : ι) (hp : Copyable s p) :
    ∃ t, s.assign i p = some t ∧ t.vars = Function.update s.vars i p ∧ t.made = s.made ∧
      Good t := by
  obtain ⟨u, hu, hvars, hmade, hexact⟩ := Exact.retain h (p := p)
    (fun o ho => owners_pos.mpr (hp.strong o ho)) fun o ho => by
      obtain ⟨j, hj | hj⟩ := hp.weak o ho
      · exact .inl (owners_pos.mpr ⟨j, hj⟩)
      · exact .inr (watchers_pos.mpr ⟨j, hj⟩)
  simp only [← owners_update s.vars i p, ← watchers_update s.vars i p] at hexact
  have hmoved : Exact { u with vars := Function.update u.vars i p }
      (fun o => owners (Function.update s.vars i p) o + (s.vars i).strongs o)
      (fun o => watchers (Function.update s.vars i p) o + (s.vars i).weaks o) :=
    ⟨hexact.blocks, hexact.made, hexact.ended, hexact.once⟩
  obtain ⟨t, ht, htvars, htmade, hgood⟩ := hmoved.release
  refine ⟨t, ?_, ?_, htmade.trans hmade, ?_⟩
  · rw [Store.assign, hu, Option.bind_some]
    exact ht
  · rw [htvars, hvars]
  · rw [Good, htvars, hvars]
    exact hgood

theorem Good.make (h : Good s) (i : ι) (x : ρ) :
    ∃ t, s.make i x = some t ∧
      t.vars = Function.update s.vars i (.strong s.made.length) ∧ t.made = s.made ++ [x] ∧
      Good t := by
  have hnew := Exact.make h x
  simp only [← owners_update s.vars i (.strong s.made.length)] at hnew
  have hmoved : Exact { s with
      blocks := Function.update s.blocks s.made.length (some ⟨1, 0, some x⟩)
      vars := Function.update s.vars i (.strong s.made.length)
      made := s.made ++ [x] }
      (fun o => owners (Function.update s.vars i (.strong s.made.length)) o +
        (s.vars i).strongs o)
      (fun o => watchers (Function.update s.vars i (.strong s.made.length)) o +
        (s.vars i).weaks o) := by
    have hweak : ∀ o, watchers (Function.update s.vars i (.strong s.made.length)) o +
        (s.vars i).weaks o = watchers s.vars o := fun o => by
      rw [watchers_update, weaks_strong, Nat.add_zero]
    simp only [hweak]
    exact ⟨hnew.blocks, hnew.made, hnew.ended, hnew.once⟩
  obtain ⟨t, ht, htvars, htmade, hgood⟩ := hmoved.release
  refine ⟨t, ht, htvars, htmade, ?_⟩
  rw [Good, htvars]
  exact hgood

end

/-! ## What the counts are good for -/

/-- A pointer that owns never dangles. -/
theorem Good.deref (h : Good s) {i : ι} {o : Nat} (hi : s.vars i = .strong o) :
    o < s.made.length ∧ s.deref i = s.made[o]? := by
  have hpos : 0 < owners s.vars o := owners_pos.mpr ⟨i, hi⟩
  refine ⟨Exact.made h o (.inl hpos), ?_⟩
  rw [Store.deref, hi]
  dsimp only
  rw [Exact.blocks h o, block_some (.inl hpos), Option.bind_some, if_neg (Nat.ne_of_gt hpos)]

/-- Locking succeeds exactly while somebody owns the object. -/
theorem Good.lock (h : Good s) (o : Nat) :
    s.lock (.weak o) = if ∃ i, s.vars i = .strong o then .strong o else .null := by
  have hb := Exact.blocks h o
  by_cases hpos : 0 < owners s.vars o
  · rw [block_some (.inl hpos)] at hb
    rw [if_pos (owners_pos.mp hpos)]
    simp [Store.lock, hb, hpos]
  · rw [if_neg (mt owners_pos.mpr hpos)]
    have hzero : owners s.vars o = 0 := by omega
    rw [hzero] at hb
    simp only [Store.lock, hb]
    unfold block Block.keep
    by_cases hw : watchers s.vars o = 0 <;> simp [hw]

theorem Good.copyable_lock (h : Good s) (j : ι) : Copyable s (s.lock (s.vars j)) := by
  cases hj : s.vars j with
  | null => exact copyable_null
  | strong o =>
    show Copyable s (.strong o)
    rw [← hj]
    exact copyable_var j
  | weak o =>
    rw [h.lock]
    split
    · rename_i howner
      exact ⟨fun o' ho' => Ptr.strong.inj ho' ▸ howner, nofun⟩
    · exact copyable_null

/-- An object has been destroyed, once, when nobody owns it any more. -/
theorem Good.ended (h : Good s) (o : Nat) :
    o ∈ s.ended ↔ o < s.made.length ∧ ∀ i, s.vars i ≠ .strong o := by
  rw [Exact.ended h]
  exact and_congr_right fun _ => count_eq_zero_iff

/-- A block is kept while somebody owns or watches its object. -/
theorem Good.freed (h : Good s) (o : Nat) :
    s.blocks o = none ↔ ∀ i, s.vars i ≠ .strong o ∧ s.vars i ≠ .weak o := by
  have hzero : s.blocks o = none ↔ owners s.vars o = 0 ∧ watchers s.vars o = 0 := by
    rw [Exact.blocks h o]
    unfold block Block.keep
    dsimp only
    by_cases hz : owners s.vars o = 0 ∧ watchers s.vars o = 0
    · rw [if_pos hz]
      exact ⟨fun _ => hz, fun _ => rfl⟩
    · rw [if_neg hz]
      exact ⟨nofun, fun hz' => absurd hz' hz⟩
  rw [hzero, owners, watchers, count_eq_zero_iff, count_eq_zero_iff, ← forall_and]

end BackendPatterns.Lib.Counted
