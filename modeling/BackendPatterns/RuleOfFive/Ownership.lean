import BackendPatterns.RuleOfFive.Represents

/-! # Ownership

Every special member is made of four moves: an arena gains a block, gives one
back, takes one over or exchanges it. Each keeps every block in the hands of
exactly one arena. -/

namespace BackendPatterns.RuleOfFive
open BackendPatterns.Lib

variable {ι : Type} [DecidableEq ι]

/-- A state of the code that stands for a state of the arrays. -/
structure Represents (s : State ι) (v : Values ι) : Prop where
  models : Models s.heap s.arenas v.arrays
  last : s.last = v.last
  defined : s.last ≠ .undefined

variable {s t : State ι} {v : Values ι} {i j : ι} {m : Option Addr} {a other : Arena}
  {b : List Cell} {h h' : Memory} {arenas : ι → Option Arena} {arrays : ι → Option (List Cell)}

omit [DecidableEq ι] in
theorem represents_start : Represents (start : State ι) .start :=
  ⟨models_start, rfl, by simp [start]⟩

theorem Holds.dead_eq {o : Option (List Cell)} (hh : Holds h none o) : o = none := by
  cases hh
  rfl

theorem Holds.alive_eq {o : Option (List Cell)} (hh : Holds h (some a) o) :
    ∃ b, o = some b ∧ b.length = a.size ∧ (a.size = 0 ↔ a.data = none) ∧
      ∀ p, a.data = some p → h.block p = some b := by
  cases hh with
  | empty => exact ⟨[], rfl, rfl, by simp, by simp⟩
  | block hne hp =>
    refine ⟨_, rfl, rfl, by simpa using hne, fun q hq => ?_⟩
    cases hq
    exact hp

omit [DecidableEq ι] in
theorem Represents.dead (hr : Represents s v) (hi : s.arenas i = none) : v.arrays i = none :=
  (hi ▸ hr.models.holds i).dead_eq

omit [DecidableEq ι] in
theorem Represents.alive (hr : Represents s v) (hi : s.arenas i = some a) :
    ∃ b, v.arrays i = some b ∧ b.length = a.size ∧ (a.size = 0 ↔ a.data = none) ∧
      ∀ p, a.data = some p → s.heap.block p = some b :=
  (hi ▸ hr.models.holds i).alive_eq

omit [DecidableEq ι] in
theorem fresh_block {p : Addr} (hf : s.fresh (some p) = true) : s.heap.block p = none := by
  simpa [State.fresh] using hf

/-! ## Constructors -/

/-- A new arena for an array, where `m` is what `malloc` returns if it is called. -/
def newArena (b : List Cell) (m : Option Addr) (h : Memory) : Except Exception Arena × Memory :=
  if b = [] then (.ok ⟨0, none⟩, h)
  else
    match m with
    | none => (.error .badAlloc, h)
    | some p => (.ok ⟨b.length, some p⟩, h.alloc p b)

theorem make_eq (bytes : Nat) (m : Option Addr) (h : Memory) :
    Arena.make bytes m h = newArena (List.replicate bytes none) m h := by
  unfold Arena.make newArena
  by_cases hb : bytes = 0
  · subst hb
    rfl
  · have hne : List.replicate bytes (none : Cell) ≠ [] := by simpa using hb
    cases m with
    | none => simp only [if_neg hb, if_neg hne]
    | some p => simp only [if_neg hb, if_neg hne, List.length_replicate]

/-- Copying an arena that stands for an array is defined. -/
theorem copy_eq (hh : Holds h (some other) (some b)) (hf : ∀ p, m = some p → h.block p = none) :
    other.copy m h = some (newArena b m h) := by
  cases hh with
  | empty => rfl
  | @block q _ hne hq =>
    have hlen : b.length ≠ 0 := fun hnil => hne (List.length_eq_zero_iff.mp hnil)
    unfold Arena.copy newArena
    dsimp only
    rw [if_neg hlen, if_neg hne]
    cases m with
    | none => rfl
    | some p =>
      have hqp : q ≠ p := by
        intro heq
        rw [heq, hf p rfl] at hq
        cases hq
      have hload : (h.alloc p (List.replicate b.length none)).load q 0 b.length = some b := by
        rw [Heap.load_eq ((Heap.alloc_ne hqp).trans hq) (by omega), List.drop_zero,
          List.take_length]
      have hstore : (h.alloc p (List.replicate b.length none)).store p 0 b =
          some (h.alloc p b) := by
        rw [Heap.store_eq Heap.alloc_self (by simp), splice_all (by simp), Heap.alloc_alloc]
      simp only [bytesAt, memcpy, hload, hstore, Option.bind_eq_bind, Option.bind_some]

theorem Represents.newArena (hr : Represents s v) (hi : s.arenas i = none)
    (hf : s.fresh m = true) (b : List Cell) :
    Represents (s.yield i (some (newArena b m s.heap))) (v.yield i b m) := by
  unfold RuleOfFive.newArena Values.yield
  by_cases hnil : b = []
  · rw [if_pos hnil, if_neg (by simp [hnil]), hnil]
    exact ⟨hr.models.gainEmpty hi, rfl, by simp [State.yield]⟩
  · rw [if_neg hnil]
    cases m with
    | none =>
      rw [if_pos ⟨hnil, rfl⟩]
      exact ⟨hr.models, rfl, by simp [State.yield]⟩
    | some p =>
      rw [if_neg (by simp)]
      exact ⟨hr.models.gain hi (fresh_block hf) hnil, rfl, by simp [State.yield]⟩

theorem Represents.make (hr : Represents s v) (hi : s.arenas i = none) (hf : s.fresh m = true)
    (bytes : Nat) : Represents (s.yield i (some (Arena.make bytes m s.heap)))
      (v.yield i (List.replicate bytes none) m) := by
  rw [make_eq]
  exact hr.newArena hi hf _

theorem Represents.copyConstruct (hr : Represents s v) (hi : s.arenas i = none)
    (hj : s.arenas j = some other) (hb : v.arrays j = some b) (hf : s.fresh m = true) :
    Represents (s.yield i (other.copy m s.heap)) (v.yield i b m) := by
  have hh := hr.models.holds j
  rw [hj, hb] at hh
  rw [copy_eq hh fun p hp => fresh_block (hp ▸ hf)]
  exact hr.newArena hi hf b

/-! ## Assignments -/

/-- Freeing commutes with an allocation elsewhere. -/
theorem free_alloc {p : Addr} {d : Option Addr} (hfree : free d h = some h')
    (hp : h.block p = none) : free d (h.alloc p b) = some (h'.alloc p b) := by
  cases d with
  | none =>
    cases hfree
    rfl
  | some q =>
    have hq : (h.block q).isSome := by
      by_contra hnot
      simp [free, Heap.free, hnot] at hfree
    obtain ⟨c, hc⟩ := Option.isSome_iff_exists.mp hq
    have hqp : q ≠ p := by
      intro heq
      rw [heq, hp] at hc
      cases hc
    rw [free, Heap.free_eq hc] at hfree
    cases hfree
    rw [free, Heap.free_eq ((Heap.alloc_ne hqp).trans hc)]
    simp only [Heap.alloc, Heap.release, Function.update_comm hqp]

theorem Represents.copyAssign (hr : Represents s v) (hi : s.arenas i = some a)
    (hj : s.arenas j = some other) (hb : v.arrays j = some b) (hf : s.fresh m = true) :
    Represents (s.yield i (a.copyAssign other m s.heap)) (v.yield i b m) := by
  have hh := hr.models.holds j
  rw [hj, hb] at hh
  obtain ⟨h', hfree, hlost, hblock⟩ := hr.models.lose hi
  have hdead : Function.update s.arenas i none i = none := Function.update_self ..
  rw [Arena.copyAssign, copy_eq hh fun p hp => fresh_block (hp ▸ hf)]
  unfold RuleOfFive.newArena Values.yield
  by_cases hnil : b = []
  · have hgain := hlost.gainEmpty hdead
    rw [Function.update_idem, Function.update_idem] at hgain
    rw [if_pos hnil, if_neg (by simp [hnil]), hnil]
    simp only [Option.bind_eq_bind, Option.bind_some, Arena.swap, Arena.destroy, hfree]
    exact ⟨hgain, rfl, by simp [State.yield]⟩
  · rw [if_neg hnil]
    cases m with
    | none =>
      rw [if_pos ⟨hnil, rfl⟩]
      exact ⟨hr.models, rfl, by simp [State.yield]⟩
    | some p =>
      have hgain := hlost.gain hdead (hblock p (fresh_block hf)) hnil
      have hfree' := @free_alloc b s.heap h' p a.data hfree (fresh_block hf)
      rw [Function.update_idem, Function.update_idem] at hgain
      rw [if_neg (by simp)]
      simp only [Option.bind_eq_bind, Option.bind_some, Arena.swap, Arena.destroy, hfree']
      exact ⟨hgain, rfl, by simp [State.yield]⟩

/-- A dead arena comes alive with all that another has. -/
theorem Models.handover (hm : Models h arenas arrays) (hij : i ≠ j) (hi : arenas i = none) :
    Models h (Function.update (Function.update arenas i (arenas j)) j (some ⟨0, none⟩))
      (Function.update (Function.update arrays i (arrays j)) j (some [])) := by
  have hexchange := (hm.gainEmpty hi).exchange i j
  rw [Function.update_self, Function.update_self, Function.update_of_ne hij.symm,
    Function.update_of_ne hij.symm] at hexchange
  rw [Function.update_comm hij.symm, Function.update_idem, Function.update_comm hij.symm,
    Function.update_idem] at hexchange
  exact hexchange

theorem Represents.moveConstruct (hr : Represents s v) (hi : s.arenas i = none)
    (hj : s.arenas j = some other) (hb : v.arrays j = some b) :
    Represents (s.setBoth i j other.moveFrom) (v.setBoth i j b []) := by
  have hij : i ≠ j := by
    intro heq
    rw [heq, hj] at hi
    cases hi
  have hhandover := hr.models.handover hij hi
  rw [hj, hb] at hhandover
  exact ⟨hhandover, rfl, by simp [State.setBoth]⟩

theorem Represents.moveAssign (hr : Represents s v) (hij : i ≠ j) (hi : s.arenas i = some a)
    (hj : s.arenas j = some other) (hb : v.arrays j = some b) :
    ∃ pair h', a.moveAssign other s.heap = some (pair, h') ∧
      Represents ({ s with heap := h' }.setBoth i j pair) (v.setBoth i j b []) := by
  obtain ⟨h', hfree, hlost, -⟩ := hr.models.lose hi
  have hhandover := hlost.handover hij (Function.update_self ..)
  rw [Function.update_of_ne hij.symm, Function.update_of_ne hij.symm, hj, hb,
    Function.update_idem, Function.update_idem] at hhandover
  refine ⟨(other, ⟨0, none⟩), h', ?_, hhandover, rfl, by simp [State.setBoth]⟩
  simp only [Arena.moveAssign, hfree, Option.bind_eq_bind, Option.bind_some]

theorem Represents.swap (hr : Represents s v) (hi : s.arenas i = some a)
    (hj : s.arenas j = some other) {c : List Cell} (hb : v.arrays i = some b)
    (hc : v.arrays j = some c) :
    Represents (s.setBoth i j (a.swap other)) (v.setBoth i j c b) := by
  have hexchange := hr.models.exchange j i
  rw [hi, hj, hb, hc] at hexchange
  exact ⟨hexchange, rfl, by simp [State.setBoth]⟩

omit [DecidableEq ι] in
/-- Assigning an arena to itself does nothing. -/
theorem Represents.unchanged (hr : Represents s v) :
    Represents { s with last := .done } { v with last := .done } :=
  ⟨hr.models, rfl, by simp⟩

/-! ## Steps -/

/-- A step of the lifecycle is defined, and does to the arrays what it should. -/
theorem Represents.lifeStep (hr : Represents s v) {op : Lifecycle ι}
    (hs : lifeStep s op = some t) : ∃ w, v.lifecycle op = some w ∧ Represents t w := by
  cases (lifeStep_cases hs).2 with
  | construct hi hf =>
    refine ⟨_, ?_, hr.make hi hf _⟩
    simp only [Values.lifecycle, hr.dead hi]
  | copyConstruct hi hj hf =>
    obtain ⟨b, hb, -⟩ := hr.alive hj
    refine ⟨_, ?_, hr.copyConstruct hi hj hb hf⟩
    simp only [Values.lifecycle, hr.dead hi, hb]
  | copyAssignSelf hi =>
    obtain ⟨b, hb, -⟩ := hr.alive hi
    refine ⟨_, ?_, hr.unchanged⟩
    simp only [Values.lifecycle, hb, if_true]
  | copyAssign hi hj hij hf =>
    obtain ⟨c, hc, -⟩ := hr.alive hi
    obtain ⟨b, hb, -⟩ := hr.alive hj
    refine ⟨_, ?_, hr.copyAssign hi hj hb hf⟩
    simp only [Values.lifecycle, hc, hb, if_neg hij]
  | moveConstruct hi hj =>
    obtain ⟨b, hb, -⟩ := hr.alive hj
    refine ⟨_, ?_, hr.moveConstruct hi hj hb⟩
    simp only [Values.lifecycle, hr.dead hi, hb]
  | moveAssignSelf hi =>
    obtain ⟨b, hb, -⟩ := hr.alive hi
    refine ⟨_, ?_, hr.unchanged⟩
    simp only [Values.lifecycle, hb, if_true]
  | moveAssign hi hj hij hm =>
    obtain ⟨c, hc, -⟩ := hr.alive hi
    obtain ⟨b, hb, -⟩ := hr.alive hj
    obtain ⟨pair, h', hmove, hmoved⟩ := hr.moveAssign hij hi hj hb
    cases hm.symm.trans hmove
    refine ⟨_, ?_, hmoved⟩
    simp only [Values.lifecycle, hc, hb, if_neg hij]
  | moveAssignUndefined hi hj hij hm =>
    obtain ⟨b, hb, -⟩ := hr.alive hj
    obtain ⟨pair, h', hmove, -⟩ := hr.moveAssign hij hi hj hb
    cases hm.symm.trans hmove
  | swap hi hj =>
    obtain ⟨b, hb, -⟩ := hr.alive hi
    obtain ⟨c, hc, -⟩ := hr.alive hj
    refine ⟨_, ?_, hr.swap hi hj hb hc⟩
    simp only [Values.lifecycle, hb, hc]
  | @destroy i a h hi hd =>
    obtain ⟨b, hb, -⟩ := hr.alive hi
    obtain ⟨h', hfree, hlost, -⟩ := hr.models.lose hi
    cases hd.symm.trans hfree
    refine ⟨⟨Function.update v.arrays i none, .done⟩, ?_, hlost, rfl, by simp⟩
    simp only [Values.lifecycle, hb]
  | destroyUndefined hi hd =>
    obtain ⟨h', hfree, -⟩ := hr.models.lose hi
    cases hd.symm.trans hfree

/-- In every state of a lifecycle the code stands for some arrays. -/
theorem represents_of_reachable (hr : Machine.Reachable lifeStep start s) :
    ∃ v, Represents s v := by
  refine @Machine.Reachable.invariant _ _ lifeStep start (fun s => ∃ v, Represents s v)
    ⟨.start, represents_start⟩ ?_ s hr
  intro s op t _ hv hs
  obtain ⟨v, hv⟩ := hv
  obtain ⟨w, -, hw⟩ := hv.lifeStep hs
  exact ⟨w, hw⟩

/-! ## The invariant -/

/-- Each live block belongs to exactly one arena; what an arena points at is live and has
its size; a null pointer goes with size 0; and nothing has been freed that was not live. -/
structure Owned (s : State ι) : Prop where
  defined : s.last ≠ .undefined
  owner : ∀ p b, s.heap.block p = some b → ∃! i, ∃ a, s.arenas i = some a ∧ a.data = some p
  live : ∀ i a p, s.arenas i = some a → a.data = some p →
    ∃ b, s.heap.block p = some b ∧ b.length = a.size
  null : ∀ i a, s.arenas i = some a → (a.size = 0 ↔ a.data = none)

omit [DecidableEq ι] in
theorem Represents.owned (hr : Represents s v) : Owned s := by
  refine ⟨hr.defined, ?_, ?_, ?_⟩
  · intro p b hp
    obtain ⟨i, hi⟩ := hr.models.owns.covered p b hp
    obtain ⟨a, ha, hd⟩ := Option.bind_eq_some_iff.mp hi
    refine ⟨i, ⟨a, ha, hd⟩, fun j hj => ?_⟩
    obtain ⟨a', ha', hd'⟩ := hj
    refine hr.models.owns.unique j i p ?_ hi
    rw [pointers, ha']
    exact hd'
  · intro i a p hi hd
    obtain ⟨b, -, hlen, -, hblock⟩ := hr.alive hi
    exact ⟨b, hblock p hd, hlen⟩
  · intro i a hi
    obtain ⟨b, -, -, hnull, -⟩ := hr.alive hi
    exact hnull

/-- A constructor that throws has changed nothing. -/
theorem make_threw {bytes : Nat} {e : Exception}
    (hm : Arena.make bytes m h = (.error e, h')) : h' = h := by
  unfold Arena.make at hm
  split at hm
  · cases hm
  split at hm
  · cases hm
    rfl
  · cases hm

theorem copy_threw {e : Exception} (hc : other.copy m h = some (.error e, h')) : h' = h := by
  unfold Arena.copy at hc
  split at hc
  · cases hc
  split at hc
  · cases hc
    rfl
  · obtain ⟨bytes, -, hc⟩ := Option.bind_eq_some_iff.mp hc
    obtain ⟨h₁, -, hc⟩ := Option.bind_eq_some_iff.mp hc
    cases hc

/-- A copy assignment throws only while it makes its copy. -/
theorem copyAssign_threw {e : Exception}
    (hc : a.copyAssign other m h = some (.error e, h')) : h' = h := by
  obtain ⟨r, hcopy, hc⟩ := Option.bind_eq_some_iff.mp hc
  split at hc
  · cases hc
    exact copy_threw hcopy
  · obtain ⟨h₁, -, hc⟩ := Option.bind_eq_some_iff.mp hc
    cases hc

theorem yield_threw {r : Option (Except Exception Arena × Memory)} {e : Exception}
    (he : (s.yield i r).last = .threw e) (hr : ∀ h', r = some (.error e, h') → h' = s.heap) :
    (s.yield i r).heap = s.heap ∧ (s.yield i r).arenas = s.arenas := by
  unfold State.yield at he ⊢
  split at he
  · cases he
  · cases he
    exact ⟨hr _ rfl, rfl⟩
  · cases he

/-- An operation that throws changes neither the heap nor an arena. -/
theorem lifeStep_threw {op : Lifecycle ι} {e : Exception} (hs : lifeStep s op = some t)
    (he : t.last = .threw e) : t.heap = s.heap ∧ t.arenas = s.arenas := by
  cases (lifeStep_cases hs).2 with
  | construct => exact yield_threw he fun h' hm => make_threw (Option.some.inj hm)
  | copyConstruct => exact yield_threw he fun h' hc => copy_threw hc
  | copyAssign => exact yield_threw he fun h' hc => copyAssign_threw hc
  | _ => cases he

/-- Any lifecycle of any arenas, whatever `malloc` returns: every block is owned
once and freed once, what throws leaves all as it was, and when all arenas are
destroyed no block remains. -/
theorem arenas_own_blocks (hr : Machine.Reachable lifeStep start s) : Owned s ∧
    (∀ op t e, lifeStep s op = some t → t.last = .threw e →
      t.heap = s.heap ∧ t.arenas = s.arenas) ∧
    ((∀ i, s.arenas i = none) → ∀ p, s.heap.block p = none) := by
  obtain ⟨v, hv⟩ := represents_of_reachable hr
  refine ⟨hv.owned, fun op t e => lifeStep_threw, fun hdead p => ?_⟩
  cases hp : s.heap.block p with
  | none => rfl
  | some b =>
    obtain ⟨i, hi⟩ := hv.models.owns.covered p b hp
    rw [pointers, hdead i] at hi
    cases hi

/-- A copy, a move over it, and an assignment for which `malloc` fails. -/
def handedOn : List (Lifecycle Nat) :=
  [.construct 0 64 (some 100), .copyConstruct 1 0 (some 200), .moveAssign 1 0, .swap 0 1,
    .copyAssign 1 0 none]

theorem arenas_own_blocks_handedOn : ∃ s, Machine.run lifeStep start handedOn = some s ∧
    s.last = .threw .badAlloc ∧ s.arenas 0 = some ⟨64, some 100⟩ ∧ s.arenas 1 = some ⟨0, none⟩ ∧
    Owned s := by
  obtain ⟨s, hs, hlast, h0, h1⟩ : ∃ s, Machine.run lifeStep start handedOn = some s ∧
    s.last = .threw .badAlloc ∧ s.arenas 0 = some ⟨64, some 100⟩ ∧ s.arenas 1 = some ⟨0, none⟩ :=
    ⟨_, rfl, rfl, rfl, rfl⟩
  exact ⟨s, hs, hlast, h0, h1, (arenas_own_blocks (Machine.reachable_of_run hs)).1⟩

end BackendPatterns.RuleOfFive
