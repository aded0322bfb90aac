import BackendPatterns.Lib.Heap
import BackendPatterns.Lib.Threads

/-! # Unique pointers

A unique pointer can be moved but not copied, and the last one to have an object
deletes it. To its user it is the object itself, or nothing once it was moved from. -/

namespace BackendPatterns.Lib.Unique

variable {α ι ρ ω : Type*}

/-- The pointers that are alive, each null or not. An object is a block of one cell,
and `out` is what its destructor puts out, and anything else. -/
structure Store (α ι ρ ω : Type*) where
  memory : Heap α ρ
  ptrs : ι → Option (Option α)
  out : List ω

/-- The same without a heap. -/
structure Values (ι ρ ω : Type*) where
  vals : ι → Option (Option ρ)
  out : List ω

def Store.emit (s : Store α ι ρ ω) (xs : List ω) : Store α ι ρ ω := { s with out := s.out ++ xs }

def Values.emit (v : Values ι ρ ω) (xs : List ω) : Values ι ρ ω := { v with out := v.out ++ xs }

/-- The object that a pointer has; undefined for a null pointer. -/
def Store.deref (s : Store α ι ρ ω) (i : ι) : Option ρ :=
  match s.ptrs i with
  | some (some p) => (s.memory.load p 0 1).bind List.head?
  | _ => none

def Values.deref (v : Values ι ρ ω) (i : ι) : Option ρ := (v.vals i).bind id

section
variable [DecidableEq α]

/-- A null pointer is nothing to delete. -/
def Store.delete (fin : ρ → List ω) (s : Store α ι ρ ω) : Option α → Option (Store α ι ρ ω)
  | none => some s
  | some p =>
    (s.memory.load p 0 1).bind List.head? |>.bind fun x =>
      (s.memory.free p).map fun memory => { s with memory, out := s.out ++ fin x }

/-- Change the object that a pointer has. -/
def Store.modify (s : Store α ι ρ ω) (i : ι) (f : ρ → ρ) : Option (Store α ι ρ ω) :=
  match s.ptrs i with
  | some (some p) =>
    (s.memory.load p 0 1).bind List.head? |>.bind fun x =>
      (s.memory.store p 0 [f x]).map fun memory => { s with memory }
  | _ => none

variable [DecidableEq ι]

/-- A new object at an address that is not live. -/
def Store.make (s : Store α ι ρ ω) (i : ι) (p : α) (x : ρ) : Option (Store α ι ρ ω) :=
  match s.ptrs i, s.memory.block p with
  | none, none => some
    { s with
      memory := s.memory.alloc p [x]
      ptrs := Function.update s.ptrs i (some (some p)) }
  | _, _ => none

/-- `reset(other.release())`, also for a pointer that is moved to itself. -/
def Store.moveAssign (fin : ρ → List ω) (s : Store α ι ρ ω) (i j : ι) :
    Option (Store α ι ρ ω) :=
  match s.ptrs i, s.ptrs j with
  | some _, some p =>
    let released := Function.update s.ptrs j (some none)
    { s with ptrs := Function.update released i (some p) }.delete fin ((released i).bind id)
  | _, _ => none

def Store.destroy (fin : ρ → List ω) (s : Store α ι ρ ω) (i : ι) : Option (Store α ι ρ ω) :=
  match s.ptrs i with
  | some p => { s with ptrs := Function.update s.ptrs i none }.delete fin p
  | none => none

end

section
variable [DecidableEq ι]

def Store.moveConstruct (s : Store α ι ρ ω) (i j : ι) : Option (Store α ι ρ ω) :=
  match s.ptrs i, s.ptrs j with
  | none, some p => some
    { s with ptrs := Function.update (Function.update s.ptrs j (some none)) i (some p) }
  | _, _ => none

namespace Values

def modify (v : Values ι ρ ω) (i : ι) (f : ρ → ρ) : Option (Values ι ρ ω) :=
  match v.vals i with
  | some (some x) => some { v with vals := Function.update v.vals i (some (some (f x))) }
  | _ => none

def make (v : Values ι ρ ω) (i : ι) (x : ρ) : Option (Values ι ρ ω) :=
  match v.vals i with
  | none => some { v with vals := Function.update v.vals i (some (some x)) }
  | some _ => none

def moveConstruct (v : Values ι ρ ω) (i j : ι) : Option (Values ι ρ ω) :=
  match v.vals i, v.vals j with
  | none, some x => some
    { v with vals := Function.update (Function.update v.vals j (some none)) i (some x) }
  | _, _ => none

/-- What a value puts out when it ends. -/
def ending (fin : ρ → List ω) (x : Option ρ) : List ω := x.elim [] fin

def moveAssign (fin : ρ → List ω) (v : Values ι ρ ω) (i j : ι) : Option (Values ι ρ ω) :=
  match v.vals i, v.vals j with
  | some old, some x =>
    if i = j then some v
    else some
      ⟨Function.update (Function.update v.vals j (some none)) i (some x), v.out ++ ending fin old⟩
  | _, _ => none

def destroy (fin : ρ → List ω) (v : Values ι ρ ω) (i : ι) : Option (Values ι ρ ω) :=
  match v.vals i with
  | some x => some ⟨Function.update v.vals i none, v.out ++ ending fin x⟩
  | none => none

end Values

end

/-! ## Representation -/

/-- A pointer stands for a value: null for nothing, else the address of the object. -/
inductive Holds (h : Heap α ρ) : Option (Option α) → Option (Option ρ) → Prop
  | dead : Holds h none none
  | null : Holds h (some none) (some none)
  | object {p : α} {x : ρ} (hp : h.block p = some [x]) : Holds h (some (some p)) (some (some x))

/-- The addresses that are not null. -/
def pointers (ptrs : ι → Option (Option α)) (i : ι) : Option α := (ptrs i).bind id

/-- The pointers stand for the values, and own the heap. -/
structure Stands (h : Heap α ρ) (ptrs : ι → Option (Option α)) (vals : ι → Option (Option ρ)) :
    Prop where
  owns : Owns h (pointers ptrs)
  holds : ∀ i, Holds h (ptrs i) (vals i)

variable {h h' : Heap α ρ} {ptrs : ι → Option (Option α)} {vals : ι → Option (Option ρ)} {i j : ι}
  {p : α} {x : ρ} {fin : ρ → List ω}

theorem Holds.dead_eq {w : Option (Option ρ)} (hh : Holds h none w) : w = none := by
  cases hh
  rfl

theorem Holds.alive_eq {q : Option α} {w : Option (Option ρ)} (hh : Holds h (some q) w) :
    ∃ o, w = some o ∧ (q = none → o = none) ∧
      ∀ p, q = some p → ∃ x, o = some x ∧ h.block p = some [x] := by
  cases hh with
  | null => exact ⟨none, rfl, fun _ => rfl, nofun⟩
  | object hp =>
    refine ⟨_, rfl, nofun, fun p' hp' => ⟨_, rfl, ?_⟩⟩
    rw [← Option.some.inj hp']
    exact hp

/-- A pointer still stands for its value when its own object is as it was. -/
theorem Holds.frame {o : Option (Option α)} {w : Option (Option ρ)} (hh : Holds h o w)
    (hb : ∀ p, o.bind id = some p → h'.block p = h.block p) : Holds h' o w := by
  cases hh with
  | dead => exact .dead
  | null => exact .null
  | object hp => exact .object ((hb _ rfl).trans hp)

theorem load_eq (hp : h.block p = some [x]) : (h.load p 0 1).bind List.head? = some x := by
  rw [Heap.load_eq hp (Nat.le_refl 1)]
  rfl

section
variable [DecidableEq ι]

theorem pointers_update (o : Option (Option α)) : pointers (Function.update ptrs i o) =
    Function.update (pointers ptrs) i (o.bind id) := by
  funext k
  by_cases hk : k = i
  · subst hk
    rw [pointers, Function.update_self, Function.update_self]
  · rw [pointers, Function.update_of_ne hk, Function.update_of_ne hk, pointers]

/-- Change one pointer and its value; the others keep their objects. -/
theorem Stands.update {o : Option (Option α)} {w : Option (Option ρ)} (hs : Stands h ptrs vals)
    (ho : Owns h' (Function.update (pointers ptrs) i (o.bind id))) (hself : Holds h' o w)
    (hother : ∀ k p, k ≠ i → pointers ptrs k = some p → h'.block p = h.block p) :
    Stands h' (Function.update ptrs i o) (Function.update vals i w) := by
  refine ⟨?_, ?_⟩
  · rw [pointers_update]
    exact ho
  · intro k
    by_cases hk : k = i
    · subst hk
      rw [Function.update_self, Function.update_self]
      exact hself
    · rw [Function.update_of_ne hk, Function.update_of_ne hk]
      exact (hs.holds k).frame fun p hp => hother k p hk hp

variable [DecidableEq α]

theorem Stands.make (hs : Stands h ptrs vals) (hi : ptrs i = none) (hp : h.block p = none) :
    Stands (h.alloc p [x]) (Function.update ptrs i (some (some p)))
      (Function.update vals i (some (some x))) := by
  have hptr : pointers ptrs i = none := by rw [pointers, hi]; rfl
  refine hs.update (hs.owns.alloc hp hptr _) (.object Heap.alloc_self) fun k q _ hk => ?_
  refine Heap.alloc_ne fun hq => ?_
  exact hs.owns.not_ptr hp k (hq ▸ hk)

/-- Whatever a pointer has can be deleted when the pointer becomes null or ends. -/
theorem Stands.delete {o : Option (Option α)} {w : Option (Option ρ)} {q : Option α}
    (fin : ρ → List ω) (hs : Stands h ptrs vals) (hi : ptrs i = some q) (ho : o.bind id = none)
    (hself : ∀ h' : Heap α ρ, Holds h' o w) (ptrs' : ι → Option (Option α)) (out : List ω) :
    ∃ h' y, vals i = some y ∧
      Store.delete fin ⟨h, ptrs', out⟩ q = some ⟨h', ptrs', out ++ Values.ending fin y⟩ ∧
      Stands h' (Function.update ptrs i o) (Function.update vals i w) := by
  have hptr : pointers ptrs i = q := by rw [pointers, hi]; rfl
  have hh := hs.holds i
  rw [hi] at hh
  obtain ⟨y, hy, hnull, hobject⟩ := hh.alive_eq
  cases q with
  | none =>
    cases hnull rfl
    refine ⟨h, none, hy, ?_, hs.update ?_ (hself _) fun _ _ _ _ => rfl⟩
    · show some _ = some _
      rw [Values.ending, Option.elim_none, List.append_nil]
    · rw [ho, ← hptr, Function.update_eq_self]
      exact hs.owns
  | some p =>
    obtain ⟨x, rfl, hx⟩ := hobject p rfl
    refine ⟨h.release p, some x, hy, ?_, ?_⟩
    · simp only [Store.delete, load_eq hx, Option.bind_some, Heap.free_eq hx]
      rfl
    · refine hs.update ?_ (hself _) fun k p' hk hkp => ?_
      · rw [ho]
        exact hs.owns.free hptr
      · refine Heap.release_ne fun hp => hk ?_
        exact hs.owns.unique k i p (hp ▸ hkp) hptr

omit [DecidableEq α] in
/-- Two pointers exchange all they have. -/
theorem Stands.exchange (hs : Stands h ptrs vals) (i j : ι) :
    Stands h (Function.update (Function.update ptrs j (ptrs i)) i (ptrs j))
      (Function.update (Function.update vals j (vals i)) i (vals j)) := by
  rw [← Equiv.comp_swap_eq_update, ← Equiv.comp_swap_eq_update]
  exact ⟨hs.owns.comp (Equiv.swap i j), fun k => hs.holds _⟩

omit [DecidableEq α] in
/-- A pointer that has nothing takes over what another one has, which becomes null. -/
theorem Stands.takeOver (hs : Stands h ptrs vals) (hij : i ≠ j) (hi : pointers ptrs i = none) :
    Stands h (Function.update (Function.update ptrs j (some none)) i (ptrs j))
      (Function.update (Function.update vals j (some none)) i (vals j)) := by
  have hptr : pointers (Function.update (Function.update ptrs j (ptrs i)) i (ptrs j)) j = none := by
    rw [pointers, Function.update_of_ne hij.symm, Function.update_self]
    exact hi
  have hs' := (hs.exchange i j).update (i := j) (o := some none) (w := some none) ?_ .null
    fun _ _ _ _ => rfl
  · rwa [Function.update_comm hij, Function.update_idem, Function.update_comm hij,
      Function.update_idem] at hs'
  · show Owns h (Function.update _ j none)
    rw [← hptr, Function.update_eq_self]
    exact (hs.exchange i j).owns

theorem Stands.modify (hs : Stands h ptrs vals) (hi : ptrs i = some (some p))
    (hp : h.block p = some [x]) (y : ρ) :
    Stands (h.alloc p [y]) ptrs (Function.update vals i (some (some y))) := by
  have hptr : pointers ptrs i = some p := by rw [pointers, hi]; rfl
  have hupdate : Stands (h.alloc p [y]) (Function.update ptrs i (some (some p)))
      (Function.update vals i (some (some y))) := by
    refine hs.update ?_ (.object Heap.alloc_self) fun k q hk hkq => ?_
    · show Owns _ (Function.update (pointers ptrs) i (some p))
      rw [← hptr, Function.update_eq_self]
      exact hs.owns.overwrite hp [y]
    · refine Heap.alloc_ne fun hq => hk ?_
      exact hs.owns.unique k i p (hq ▸ hkq) hptr
  rwa [← hi, Function.update_eq_self] at hupdate

end

/-! ## The operations -/

/-- What is done without a heap is done with one. -/
theorem exists_of_rel {A B : Type*} {R : A → B → Prop} {x : Option A} {y : B}
    (h : Option.Rel R x (some y)) : ∃ a, x = some a ∧ R a y := by
  cases h with
  | some h => exact ⟨_, rfl, h⟩

/-- The store is the values, as far as its user can tell. -/
structure Refines (s : Store α ι ρ ω) (v : Values ι ρ ω) : Prop where
  stands : Stands s.memory s.ptrs v.vals
  out : s.out = v.out

variable {s : Store α ι ρ ω} {v : Values ι ρ ω}

theorem Refines.emit (hr : Refines s v) (xs : List ω) : Refines (s.emit xs) (v.emit xs) :=
  ⟨hr.stands, by rw [Store.emit, Values.emit, hr.out]⟩

theorem Refines.deref (hr : Refines s v) (i : ι) : s.deref i = v.deref i := by
  have hi := hr.stands.holds i
  unfold Store.deref Values.deref
  generalize s.ptrs i = o at hi ⊢
  generalize v.vals i = w at hi ⊢
  cases hi with
  | dead => rfl
  | null => rfl
  | object hp => exact load_eq hp

theorem Refines.dead (hr : Refines s v) (hi : s.ptrs i = none) : v.vals i = none :=
  (hi ▸ hr.stands.holds i).dead_eq

theorem Refines.alive {q : Option α} (hr : Refines s v) (hi : s.ptrs i = some q) :
    ∃ o, v.vals i = some o ∧ (q = none → o = none) ∧
      ∀ p, q = some p → ∃ x, o = some x ∧ s.memory.block p = some [x] :=
  (hi ▸ hr.stands.holds i).alive_eq

variable [DecidableEq ι]

theorem Refines.moveConstruct (hr : Refines s v) (i j : ι) :
    Option.Rel Refines (s.moveConstruct i j) (v.moveConstruct i j) := by
  unfold Store.moveConstruct Values.moveConstruct
  cases hi : s.ptrs i with
  | some _ =>
    obtain ⟨_, hv, -⟩ := hr.alive hi
    rw [hv]
    exact .none
  | none =>
    rw [hr.dead hi]
    cases hj : s.ptrs j with
    | none =>
      rw [hr.dead hj]
      exact .none
    | some q =>
      obtain ⟨o, hv, -⟩ := hr.alive hj
      rw [hv]
      have hij : i ≠ j := by
        rintro rfl
        rw [hi] at hj
        cases hj
      have hstands := hr.stands.takeOver hij (by rw [pointers, hi]; rfl)
      rw [hj, hv] at hstands
      exact .some ⟨hstands, hr.out⟩

variable [DecidableEq α]

/-- Provided that the address is not live. -/
theorem Refines.make (hr : Refines s v) (hp : s.memory.block p = none) (i : ι) (x : ρ) :
    Option.Rel Refines (s.make i p x) (v.make i x) := by
  unfold Store.make Values.make
  cases hi : s.ptrs i with
  | none =>
    rw [hr.dead hi, hp]
    exact .some ⟨hr.stands.make hi hp, hr.out⟩
  | some _ =>
    obtain ⟨_, hv, -⟩ := hr.alive hi
    rw [hv]
    exact .none

variable (fin) in
theorem Refines.destroy (hr : Refines s v) (i : ι) :
    Option.Rel Refines (s.destroy fin i) (v.destroy fin i) := by
  unfold Store.destroy Values.destroy
  cases hi : s.ptrs i with
  | none =>
    rw [hr.dead hi]
    exact .none
  | some q =>
    obtain ⟨h', y, hy, hdelete, hstands⟩ := hr.stands.delete fin hi
      (o := none) (w := none) rfl (fun _ => .dead) (Function.update s.ptrs i none) s.out
    rw [hy]
    show Option.Rel Refines (Store.delete fin ⟨s.memory, Function.update s.ptrs i none, s.out⟩ q) _
    rw [hdelete]
    exact .some ⟨hstands, by rw [hr.out]⟩

variable (fin) in
theorem Refines.moveAssign (hr : Refines s v) (i j : ι) :
    Option.Rel Refines (s.moveAssign fin i j) (v.moveAssign fin i j) := by
  unfold Store.moveAssign Values.moveAssign
  cases hi : s.ptrs i with
  | none =>
    rw [hr.dead hi]
    exact .none
  | some q =>
    obtain ⟨old, hold, -⟩ := hr.alive hi
    rw [hold]
    cases hj : s.ptrs j with
    | none =>
      rw [hr.dead hj]
      exact .none
    | some q' =>
      obtain ⟨o, hv, -⟩ := hr.alive hj
      rw [hv]
      dsimp only
      by_cases hij : i = j
      · -- the pointer was released before it is reset
        subst hij
        rw [hi] at hj
        cases hj
        rw [if_pos rfl, Function.update_self, Function.update_idem, ← hi, Function.update_eq_self]
        exact .some hr
      · obtain ⟨h', y, hy, hdelete, hstands⟩ := hr.stands.delete fin hi
          (o := some none) (w := some none) rfl (fun _ => .null)
          (Function.update (Function.update s.ptrs j (some none)) i (some q')) s.out
        cases hold.symm.trans hy
        have hji : j ≠ i := fun heq => hij heq.symm
        have htaken := hstands.takeOver hij
          (by rw [pointers, Function.update_self]; rfl)
        rw [Function.update_of_ne hji, hj, Function.update_comm hij, Function.update_idem,
          Function.update_of_ne hji, hv, Function.update_comm hij, Function.update_idem] at htaken
        rw [if_neg hij, Function.update_of_ne hij, hi]
        show Option.Rel Refines (Store.delete fin ⟨s.memory, _, s.out⟩ q) _
        rw [hdelete]
        exact .some ⟨htaken, by rw [hr.out]⟩

theorem Refines.modify (hr : Refines s v) (i : ι) (f : ρ → ρ) :
    Option.Rel Refines (s.modify i f) (v.modify i f) := by
  unfold Store.modify Values.modify
  cases hi : s.ptrs i with
  | none =>
    rw [hr.dead hi]
    exact .none
  | some q =>
    obtain ⟨o, ho, hnull, hobject⟩ := hr.alive hi
    rw [ho]
    cases q with
    | none =>
      rw [hnull rfl]
      exact .none
    | some p =>
      obtain ⟨x, rfl, hx⟩ := hobject p rfl
      simp only [load_eq hx, Option.bind_some]
      have hsplice : splice [x] 0 [f x] = [f x] := splice_all rfl
      rw [Heap.store_eq hx (Nat.le_refl 1), hsplice]
      exact .some ⟨hr.stands.modify hi hx _, hr.out⟩

/-! ## Objects that are alive -/

section
variable [Fintype ι]

/-- How many values there are. -/
def Values.live (v : Values ι ρ ω) : Nat := Threads.count (fun o => o.join.isSome = true) v.vals

/-- How many values a pointer has. -/
def has (o : Option (Option ρ)) : Nat := if o.join.isSome = true then 1 else 0

omit [DecidableEq α]
variable {v' : Values ι ρ ω}

omit [DecidableEq ι] in
theorem live_start (out : List ω) : Values.live (⟨fun _ => none, out⟩ : Values ι ρ ω) = 0 := by
  refine Threads.count_eq_zero_iff.mpr fun _ => ?_
  simp

theorem live_update (vals : ι → Option (Option ρ)) (out : List ω) (i : ι) (o : Option (Option ρ)) :
    Values.live ⟨Function.update vals i o, out⟩ + has (vals i) =
      Values.live ⟨vals, out⟩ + has o :=
  Threads.count_update _ vals i o

theorem live_make (h : v.make i x = some v') : v'.out = v.out ∧ v'.live = v.live + 1 := by
  unfold Values.make at h
  split at h
  · rename_i hi
    cases h
    have hlive := live_update v.vals v.out i (some (some x))
    rw [hi] at hlive
    exact ⟨rfl, hlive⟩
  · cases h

theorem live_modify {f : ρ → ρ} (h : v.modify i f = some v') :
    v'.out = v.out ∧ v'.live = v.live := by
  unfold Values.modify at h
  split at h
  · rename_i y hi
    cases h
    have hlive := live_update v.vals v.out i (some (some (f y)))
    rw [hi] at hlive
    exact ⟨rfl, Nat.add_right_cancel hlive⟩
  · cases h

/-- What was moved from has nothing any more. -/
theorem live_moved (vals : ι → Option (Option ρ)) (out : List ω) (hij : i ≠ j) {o : Option ρ}
    (hj : vals j = some o) :
    Values.live ⟨Function.update (Function.update vals j (some none)) i (some o), out⟩ +
      has (vals i) = Values.live ⟨vals, out⟩ := by
  have hgain := live_update (Function.update vals j (some none)) out i (some o)
  have hlose := live_update vals out j (some none)
  rw [Function.update_of_ne hij] at hgain
  rw [hj] at hlose
  have hnull : has (some none : Option (Option ρ)) = 0 := rfl
  omega

theorem live_moveConstruct (h : v.moveConstruct i j = some v') :
    v'.out = v.out ∧ v'.live = v.live := by
  unfold Values.moveConstruct at h
  split at h
  · rename_i o hi hj
    cases h
    have hij : i ≠ j := by
      rintro rfl
      rw [hi] at hj
      cases hj
    have hlive := live_moved v.vals v.out hij hj
    rw [hi] at hlive
    exact ⟨rfl, hlive⟩
  · cases h

/-- What an assignment or destructor puts out is the ending of a value that is gone. -/
theorem live_moveAssign (h : v.moveAssign fin i j = some v') :
    ∃ o, v'.out = v.out ++ Values.ending fin o ∧ v'.live + has (some o) = v.live := by
  unfold Values.moveAssign at h
  split at h
  · rename_i old o hi hj
    split at h
    · cases h
      exact ⟨none, (List.append_nil _).symm, rfl⟩
    · rename_i hij
      cases h
      have hlive := live_moved v.vals (v.out ++ Values.ending fin old) hij hj
      rw [hi] at hlive
      exact ⟨old, rfl, hlive⟩
  · cases h

theorem live_destroy (h : v.destroy fin i = some v') :
    ∃ o, v'.out = v.out ++ Values.ending fin o ∧ v'.live + has (some o) = v.live := by
  unfold Values.destroy at h
  split at h
  · rename_i o hi
    cases h
    have hlive := live_update v.vals (v.out ++ Values.ending fin o) i none
    rw [hi] at hlive
    exact ⟨o, rfl, hlive⟩
  · cases h

end

end BackendPatterns.Lib.Unique
