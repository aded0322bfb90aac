import BackendPatterns.Lib.Heap
import BackendPatterns.Reactor.Owners

/-! # Each descriptor is closed once

The open descriptors that were given away are like blocks of a heap, and a `UniqueFd`
points at its own. What the operations do to the numbers keeps every descriptor in the
hands of one owner. -/

namespace BackendPatterns.Reactor.Owners
open BackendPatterns.Lib

variable {ι : Type} [DecidableEq ι]

/-- The descriptor that each owner has to close. -/
def pointers (objects : ι → Option UniqueFd) (i : ι) : Option Int :=
  (objects i).bind fun u => if u.fd = -1 then none else some u.fd

/-- The descriptors that are open and were given away. -/
def owned (k : Kernel) (adopted : List Nat) : Heap Int Nat where
  block fd := (k.table fd).bind fun o => if o ∈ adopted then some [o] else none

/-- The owners have what was given away and is open. -/
structure Inv (s : Owners ι) : Prop where
  good : s.kernel.Good
  owns : Owns (owned s.kernel s.adopted) (pointers s.objects)
  adopted_lt : ∀ o ∈ s.adopted, o < s.kernel.opened
  valid : s.kernel.table (-1) = none

variable {s t : Owners ι} {i j : ι} {fd : Int} {o : Nat} {u other : UniqueFd} {k : Kernel}
  {adopted : List Nat} {objects : ι → Option UniqueFd}

omit [DecidableEq ι] in
theorem inv_start : Inv (start : Owners ι) :=
  ⟨Handles.good_empty, .empty, fun _ ho => absurd ho List.not_mem_nil, rfl⟩

omit [DecidableEq ι] in
theorem pointers_none (hi : objects i = none) : pointers objects i = none := by
  rw [pointers, hi, Option.bind_none]

omit [DecidableEq ι] in
theorem pointers_null (hi : objects i = some u) (hu : u.fd = -1) : pointers objects i = none := by
  rw [pointers, hi, Option.bind_some, if_pos hu]

omit [DecidableEq ι] in
theorem pointers_some (hi : objects i = some u) (hu : u.fd ≠ -1) :
    pointers objects i = some u.fd := by
  rw [pointers, hi, Option.bind_some, if_neg hu]

omit [DecidableEq ι] in
theorem holds_of_pointers (h : pointers s.objects i = some fd) : s.Holds i fd := by
  obtain ⟨u, hu, h⟩ := Option.bind_eq_some_iff.mp h
  split at h
  · cases h
  · cases h
    exact hu

theorem pointers_update (o : Option UniqueFd) : pointers (Function.update objects i o) =
    Function.update (pointers objects) i
      (o.bind fun u => if u.fd = -1 then none else some u.fd) := by
  funext k
  by_cases hk : k = i
  · subst hk
    rw [pointers, Function.update_self, Function.update_self]
  · rw [pointers, Function.update_of_ne hk, Function.update_of_ne hk, pointers]

theorem owned_eq_some {b : List Nat} (h : (owned k adopted).block fd = some b) :
    ∃ o, k.table fd = some o ∧ o ∈ adopted := by
  obtain ⟨o, ho, h⟩ := Option.bind_eq_some_iff.mp h
  split at h
  next hmem => exact ⟨o, ho, hmem⟩
  next => cases h

theorem owned_of_adopted (ho : k.table fd = some o) (hmem : o ∈ adopted) :
    (owned k adopted).block fd = some [o] := by
  simp only [owned, ho, Option.bind_some, if_pos hmem]

/-- A new opening was not given away. -/
theorem owned_opens (hlt : ∀ o ∈ adopted, o < k.opened) (hnew : k.table fd = none) :
    owned (k.opens fd) adopted = owned k adopted := by
  refine congrArg Heap.mk (funext fun fd' => ?_)
  by_cases hfd : fd' = fd
  · subst hfd
    have hfresh : k.opened ∉ adopted := fun hmem => Nat.lt_irrefl _ (hlt _ hmem)
    simp only [Handles.opens_self, hnew, Option.bind_some, if_neg hfresh, Option.bind_none]
  · simp only [Handles.opens_ne hfd]

theorem owned_close : owned (k.close fd) adopted = (owned k adopted).release fd := by
  refine congrArg Heap.mk (funext fun fd' => ?_)
  by_cases hfd : fd' = fd
  · subst hfd
    simp only [Handles.close_self, Option.bind_none, Function.update_self]
  · simp only [Handles.close_ne hfd, Function.update_of_ne hfd, owned]

theorem owned_adopt (hg : k.Good) (ho : k.table fd = some o) :
    owned k (adopted ++ [o]) = (owned k adopted).alloc fd [o] := by
  refine congrArg Heap.mk (funext fun fd' => ?_)
  by_cases hfd : fd' = fd
  · subst hfd
    simp only [ho, Option.bind_some, Function.update_self]
    exact if_pos (List.mem_append_right _ List.mem_cons_self)
  · rw [Function.update_of_ne hfd]
    cases ho' : k.table fd' with
    | none => simp only [owned, ho', Option.bind_none]
    | some o' =>
      have hne : o' ≠ o := fun heq => hfd (hg.inj fd' fd o' ho' (heq ▸ ho))
      simp only [owned, ho', Option.bind_some, List.mem_append, List.mem_singleton, hne, or_false]

omit [DecidableEq ι] in
theorem Inv.table_of_pointers (h : Inv s) (hi : pointers s.objects i = some fd) :
    ∃ o, s.kernel.table fd = some o ∧ o ∈ s.adopted := by
  obtain ⟨b, hb⟩ := h.owns.live i fd hi
  exact owned_eq_some hb

omit [DecidableEq ι] in
theorem Inv.not_owned (h : Inv s) (hfree : ∀ i, ¬ s.Holds i fd) :
    (owned s.kernel s.adopted).block fd = none := by
  cases hb : (owned s.kernel s.adopted).block fd with
  | none => rfl
  | some b =>
    obtain ⟨i, hi⟩ := h.owns.covered fd b hb
    exact absurd (holds_of_pointers hi) (hfree i)

/-! Every operation is made of three moves: an owner closes what it has, takes a free
descriptor, or takes over what another one has. -/

theorem Inv.lose (h : Inv s) (hi : s.objects i = some u) {v : Option UniqueFd}
    (hv : (v.bind fun u => if u.fd = -1 then none else some u.fd) = none) (fd : Int) :
    Inv ⟨(u.reset fd s.kernel).2, Function.update s.objects i v, s.adopted⟩ := by
  by_cases hu : u.fd = -1
  · have hptr := pointers_null hi hu
    have hkernel : (u.reset fd s.kernel).2 = s.kernel := if_neg (not_not.mpr hu)
    have howns : Owns (owned s.kernel s.adopted) (pointers (Function.update s.objects i v)) := by
      rw [pointers_update, hv, ← hptr, Function.update_eq_self]
      exact h.owns
    rw [hkernel]
    exact ⟨h.good, howns, h.adopted_lt, h.valid⟩
  · have hptr := pointers_some hi hu
    obtain ⟨o, ho, -⟩ := h.table_of_pointers hptr
    have hkernel : (u.reset fd s.kernel).2 = s.kernel.close u.fd := if_pos hu
    have howns : Owns (owned (s.kernel.close u.fd) s.adopted)
        (pointers (Function.update s.objects i v)) := by
      rw [pointers_update, hv, owned_close]
      exact h.owns.free hptr
    rw [hkernel]
    refine ⟨h.good.close ho, howns, h.adopted_lt, ?_⟩
    exact (Handles.close_ne (Ne.symm hu)).trans h.valid

theorem Inv.gain (h : Inv s) (hi : pointers s.objects i = none)
    (hfd : fd = -1 ∨ s.kernel.table fd ≠ none ∧ (owned s.kernel s.adopted).block fd = none) :
    Inv ⟨s.kernel, Function.update s.objects i (some ⟨fd⟩), s.adopt fd⟩ := by
  rcases hfd with rfl | ⟨hopen, hblock⟩
  · have hadopt : s.adopt (-1) = s.adopted := by
      rw [adopt, h.valid, Option.toList_none, List.append_nil]
    have howns : Owns (owned s.kernel s.adopted)
        (pointers (Function.update s.objects i (some ⟨-1⟩))) := by
      rw [pointers_update, Option.bind_some, if_pos rfl, ← hi, Function.update_eq_self]
      exact h.owns
    rw [hadopt]
    exact ⟨h.good, howns, h.adopted_lt, h.valid⟩
  · obtain ⟨o, ho⟩ := Option.ne_none_iff_exists'.mp hopen
    have hne : fd ≠ -1 := by
      rintro rfl
      exact hopen h.valid
    have hadopt : s.adopt fd = s.adopted ++ [o] := by rw [adopt, ho, Option.toList_some]
    have howns : Owns (owned s.kernel (s.adopted ++ [o]))
        (pointers (Function.update s.objects i (some ⟨fd⟩))) := by
      rw [pointers_update, Option.bind_some, if_neg hne, owned_adopt h.good ho]
      exact h.owns.alloc hblock hi [o]
    rw [hadopt]
    refine ⟨h.good, howns, fun o' ho' => ?_, h.valid⟩
    rcases List.mem_append.mp ho' with ho' | ho'
    · exact h.adopted_lt o' ho'
    · rw [List.mem_singleton.mp ho']
      exact h.good.lt fd o ho

theorem Inv.handOver (h : Inv s) (hi : pointers s.objects i = none)
    (hj : s.objects j = some other) (hij : i ≠ j) :
    Inv ⟨s.kernel, Function.update (Function.update s.objects i (some other)) j (some ⟨-1⟩),
      s.adopted⟩ := by
  refine ⟨h.good, ?_, h.adopted_lt, h.valid⟩
  have hptr : pointers s.objects j = (if other.fd = -1 then none else some other.fd) := by
    rw [pointers, hj, Option.bind_some]
  have hswap : pointers (Function.update (Function.update s.objects i (some other)) j
      (some ⟨-1⟩)) = pointers s.objects ∘ Equiv.swap i j := by
    rw [Equiv.comp_swap_eq_update, hi, hptr, pointers_update, pointers_update, Option.bind_some,
      Option.bind_some, if_pos rfl, Function.update_comm hij.symm]
  rw [hswap]
  exact h.owns.comp (Equiv.swap i j)

theorem reset_table_ne (h : fd ≠ u.fd) (fd' : Int) :
    (u.reset fd' k).2.table fd = k.table fd := by
  unfold UniqueFd.reset
  split
  · exact Handles.close_ne h
  · rfl

theorem Inv.reset (h : Inv s) (hi : s.objects i = some u) (hfd : fd = -1 ∨ s.Free fd) :
    Inv ⟨(u.reset fd s.kernel).2, Function.update s.objects i (some ⟨fd⟩), s.adopt fd⟩ := by
  have hlost := h.lose hi (v := some ⟨-1⟩) rfl fd
  have hnull : pointers (Function.update s.objects i (some ⟨-1⟩)) i = none :=
    pointers_null (Function.update_self ..) rfl
  have htable : (u.reset fd s.kernel).2.table fd = s.kernel.table fd := by
    rcases hfd with rfl | hfree
    · exact hlost.valid.trans h.valid.symm
    · refine reset_table_ne ?_ fd
      rintro rfl
      exact hfree.2 i hi
  have hfd' : fd = -1 ∨ (u.reset fd s.kernel).2.table fd ≠ none ∧
      (owned (u.reset fd s.kernel).2 s.adopted).block fd = none := by
    refine hfd.imp_right fun hfree => ⟨htable ▸ hfree.1, ?_⟩
    have hnot := h.not_owned hfree.2
    simp only [owned, htable] at hnot ⊢
    exact hnot
  have hadopt : s.adopted ++ ((u.reset fd s.kernel).2.table fd).toList = s.adopt fd := by
    rw [htable, adopt]
  have hgained := hlost.gain hnull hfd'
  rwa [Function.update_idem, adopt, hadopt] at hgained

theorem Inv.moves {a : Action ι} (h : Inv s) (ha : s.Allowed a) (hm : Moves s a t) : Inv t := by
  cases hm with
  | @opens fd hfd hnew =>
    refine ⟨h.good.opens hnew, ?_, fun o ho => Nat.lt_succ_of_lt (h.adopted_lt o ho), ?_⟩
    · rw [owned_opens h.adopted_lt hnew]
      exact h.owns
    · have hne : -1 ≠ fd := by
        rintro rfl
        exact absurd hfd.1 (by decide)
      exact (Handles.opens_ne hne).trans h.valid
  | @closes fd =>
    obtain ⟨hopen, hfree⟩ := ha
    obtain ⟨o, ho⟩ := Option.ne_none_iff_exists'.mp hopen
    refine ⟨h.good.close ho, ?_, h.adopted_lt, ?_⟩
    · rw [owned_close, Heap.release_eq_self (h.not_owned hfree)]
      exact h.owns
    · have hne : -1 ≠ fd := by
        rintro rfl
        exact hopen h.valid
      exact (Handles.close_ne hne).trans h.valid
  | construct hi =>
    refine h.gain (pointers_none hi) (ha.imp_right fun hfree => ?_)
    exact ⟨hfree.1, h.not_owned hfree.2⟩
  | moveConstruct hi hj =>
    refine h.handOver (pointers_none hi) hj ?_
    rintro rfl
    rw [hi] at hj
    cases hj
  | moveSelf => exact h
  | @moveAssign i j u other hij hi hj =>
    have hlost := h.lose hi (v := some ⟨-1⟩) rfl (-1)
    have hnull : pointers (Function.update s.objects i (some ⟨-1⟩)) i = none :=
      pointers_null (Function.update_self ..) rfl
    have hother : Function.update s.objects i (some ⟨-1⟩) j = some other :=
      (Function.update_of_ne hij.symm ..).trans hj
    have hdone := hlost.handOver hnull hother hij
    rwa [Function.update_idem] at hdone
  | reset hi => exact h.reset hi ha
  | destroy hi => exact h.lose hi rfl (-1)

theorem inv_of_reachable (h : Machine.ReachableBy Allowed step start s) : Inv s :=
  h.invariant inv_start fun hinv ha hs => hinv.moves ha (moves_of_step hs)

/-! ## Each opening is closed once -/

/-- Some owner has it. -/
def IsHeld (s : Owners ι) (o : Nat) : Prop := ∃ i fd, s.Holds i fd ∧ s.kernel.table fd = some o

/-- What is open and was given away has one owner, and is closed once when it has
none any more. -/
structure Exact (s : Owners ι) : Prop where
  owner : ∀ fd o, s.kernel.table fd = some o → o ∈ s.adopted → ∃! i, s.Holds i fd
  held : ∀ o ∈ s.adopted, s.IsHeld o → s.kernel.closes.count (some o) = 0
  released : ∀ o ∈ s.adopted, ¬ s.IsHeld o → s.kernel.closes.count (some o) = 1
  isOpen : none ∉ s.kernel.closes

omit [DecidableEq ι] in
theorem Inv.owner (h : Inv s) (ho : s.kernel.table fd = some o) (hmem : o ∈ s.adopted) :
    ∃! i, s.Holds i fd := by
  have hne : fd ≠ -1 := by
    rintro rfl
    rw [h.valid] at ho
    cases ho
  obtain ⟨i, hi⟩ := h.owns.covered fd _ (owned_of_adopted ho hmem)
  exact ⟨i, holds_of_pointers hi, fun j hj => h.owns.unique j i fd (pointers_some hj hne) hi⟩

omit [DecidableEq ι] in
theorem Inv.not_open (h : Inv s) (hmem : o ∈ s.adopted) (hnot : ¬ s.IsHeld o) (fd : Int) :
    s.kernel.table fd ≠ some o := by
  intro ho
  obtain ⟨i, hi, -⟩ := h.owner ho hmem
  exact hnot ⟨i, fd, hi, ho⟩

omit [DecidableEq ι] in
theorem Inv.exact (h : Inv s) : Exact s := by
  refine ⟨fun fd o => h.owner, ?_, ?_, h.good.isOpen⟩
  · intro o hmem hheld
    obtain ⟨i, fd, -, ho⟩ := hheld
    exact h.good.count_open ho
  · intro o hmem hnot
    exact h.good.count_ended (h.adopted_lt o hmem) (h.not_open hmem hnot)

/-- What was given away stays so. -/
theorem Moves.adopted_subset {a : Action ι} (hm : Moves s a t) : s.adopted ⊆ t.adopted := by
  cases hm with
  | construct => exact List.subset_append_left _ _
  | reset => exact List.subset_append_left _ _
  | _ => exact List.Subset.refl _

omit [DecidableEq ι] in
/-- Between two states: what is closed is what was held and is not any more. -/
theorem Exact.closed_iff (hs : Exact s) (ht : Exact t) (hmem : o ∈ s.adopted)
    (hmem' : o ∈ t.adopted) :
    t.kernel.closes.count (some o) = s.kernel.closes.count (some o) + 1 ↔
      s.IsHeld o ∧ ¬ t.IsHeld o := by
  by_cases hheld : s.IsHeld o
  · rw [hs.held o hmem hheld]
    by_cases hheld' : t.IsHeld o
    · rw [ht.held o hmem' hheld']
      simp [hheld']
    · rw [ht.released o hmem' hheld']
      simp [hheld, hheld']
  · rw [hs.released o hmem hheld]
    by_cases hheld' : t.IsHeld o
    · rw [ht.held o hmem' hheld']
      simp [hheld]
    · rw [ht.released o hmem' hheld']
      simp [hheld]

/-- Any operations of any owners, if each is given free descriptors only: an open
descriptor that was given away has one owner; it is closed once, by the step after
which it has none; `::close` is called on open descriptors only; and when no owner is
left, all are closed. -/
theorem owners_close_once (h : Machine.ReachableBy Allowed step start s) : Exact s ∧
    (∀ a t o, s.Allowed a → step s a = some t → o ∈ s.adopted →
      (t.kernel.closes.count (some o) = s.kernel.closes.count (some o) + 1 ↔
        s.IsHeld o ∧ ¬ t.IsHeld o)) ∧
    ((∀ i, s.objects i = none) → ∀ o ∈ s.adopted,
      s.kernel.closes.count (some o) = 1 ∧ ∀ fd, s.kernel.table fd ≠ some o) := by
  have hinv := inv_of_reachable h
  refine ⟨hinv.exact, ?_, ?_⟩
  · intro a t o ha hs hmem
    have hm := moves_of_step hs
    exact hinv.exact.closed_iff (hinv.moves ha hm).exact hmem (hm.adopted_subset hmem)
  · intro hdead o hmem
    have hnot : ¬ s.IsHeld o := by
      rintro ⟨i, fd, hi, -⟩
      rw [Holds, hdead i] at hi
      cases hi
    exact ⟨hinv.exact.released o hmem hnot, hinv.not_open hmem hnot⟩

/-- Two owners, a move over a descriptor, a move to itself, and a number used again. -/
def movedOver : List (Action Bool) :=
  [.opens 3, .construct false 3, .opens 4, .construct true 4, .moveAssign false true,
    .moveAssign false false, .opens 3, .reset true 3, .destroy true, .destroy false]

theorem owners_close_once_movedOver :
    ∃ s, Machine.run (Machine.guarded Allowed step) start movedOver = some s ∧ Exact s ∧
      s.kernel.closes = [some 0, some 2, some 1] ∧
      ∀ o ∈ s.adopted, ∀ fd, s.kernel.table fd ≠ some o := by
  obtain ⟨s, hs, hcloses, hfalse, htrue⟩ :
    ∃ s, Machine.run (Machine.guarded Allowed step) start movedOver = some s ∧
      s.kernel.closes = [some 0, some 2, some 1] ∧ s.objects false = none ∧
      s.objects true = none := ⟨_, rfl, rfl, rfl, rfl⟩
  obtain ⟨hexact, -, hdone⟩ := owners_close_once (Machine.reachableBy_of_run hs)
  have hdead : ∀ i, s.objects i = none := Bool.forall_bool.mpr ⟨hfalse, htrue⟩
  exact ⟨s, hs, hexact, hcloses, fun o ho => (hdone hdead o ho).2⟩

end BackendPatterns.Reactor.Owners
