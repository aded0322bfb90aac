import BackendPatterns.RuleOfFive.Arena

/-! # Arrays for arenas

To its user an arena is an array of bytes. Here are the arrays and their
operations, without a heap, and what a heap and its arenas must be like to stand
for them: every arena has the block of its array, and nobody else has. -/

namespace BackendPatterns.RuleOfFive
open BackendPatterns.Lib

/-- The arrays that are alive, and how the last operation ended. -/
structure Values (ι : Type) where
  arrays : ι → Option (List Cell)
  last : Result

variable {ι : Type} [DecidableEq ι]

namespace Values

def start : Values ι := ⟨fun _ => none, .done⟩

/-- The array `i` becomes `b`, unless the memory for it is refused. -/
def yield (v : Values ι) (i : ι) (b : List Cell) (m : Option Addr) : Values ι :=
  if b ≠ [] ∧ m = none then { v with last := .threw .badAlloc }
  else ⟨Function.update v.arrays i (some b), .done⟩

/-- The arrays `i` and `j` become `b` and `c`. -/
def setBoth (v : Values ι) (i j : ι) (b c : List Cell) : Values ι :=
  ⟨Function.update (Function.update v.arrays i (some b)) j (some c), .done⟩

def lifecycle (v : Values ι) : Lifecycle ι → Option (Values ι)
  | .construct i bytes m =>
    match v.arrays i with
    | none => some (v.yield i (List.replicate bytes none) m)
    | some _ => none
  | .copyConstruct i j m =>
    match v.arrays i, v.arrays j with
    | none, some b => some (v.yield i b m)
    | _, _ => none
  | .copyAssign i j m =>
    match v.arrays i, v.arrays j with
    | some _, some b => if i = j then some { v with last := .done } else some (v.yield i b m)
    | _, _ => none
  | .moveConstruct i j =>
    match v.arrays i, v.arrays j with
    | none, some b => some (v.setBoth i j b [])
    | _, _ => none
  | .moveAssign i j =>
    match v.arrays i, v.arrays j with
    | some _, some b => if i = j then some { v with last := .done } else some (v.setBoth i j b [])
    | _, _ => none
  | .swap i j =>
    match v.arrays i, v.arrays j with
    | some a, some b => some (v.setBoth i j b a)
    | _, _ => none
  | .destroy i =>
    match v.arrays i with
    | some _ => some ⟨Function.update v.arrays i none, .done⟩
    | none => none

def write (v : Values ι) (i : ι) (offset : Nat) (view : StringView) : Option (Values ι) :=
  match v.arrays i with
  | some b =>
    if offset + view.chars.length ≤ b.length then
      some ⟨Function.update v.arrays i (some (splice b offset (view.chars.map some))), .done⟩
    else some { v with last := .threw (.outOfRange "arena write") }
  | none => none

def read (v : Values ι) (i : ι) (offset len : Nat) : Option (Values ι) :=
  match v.arrays i with
  | some b =>
    if offset + len ≤ b.length then
      some { v with last := .bytes ((b.drop offset).take len) }
    else some { v with last := .threw (.outOfRange "arena read") }
  | none => none

def step (v : Values ι) : Action ι → Option (Values ι)
  | .life op => v.lifecycle op
  | .write i offset view => v.write i offset view
  | .read i offset len => v.read i offset len

end Values

/-! ## Representation -/

/-- An arena stands for an array: a null pointer for the empty one, else the block
that is the array. -/
inductive Holds (h : Memory) : Option Arena → Option (List Cell) → Prop
  | dead : Holds h none none
  | empty : Holds h (some ⟨0, none⟩) (some [])
  | block {p : Addr} {b : List Cell} (hne : b ≠ []) (hp : h.block p = some b) :
      Holds h (some ⟨b.length, some p⟩) (some b)

/-- What the arenas point at. -/
def pointers (arenas : ι → Option Arena) (i : ι) : Option Addr := (arenas i).bind Arena.data

/-- The arenas stand for the arrays, and own the heap. -/
structure Models (h : Memory) (arenas : ι → Option Arena) (arrays : ι → Option (List Cell)) :
    Prop where
  owns : Owns h (pointers arenas)
  holds : ∀ i, Holds h (arenas i) (arrays i)

variable {h : Memory} {arenas : ι → Option Arena} {arrays : ι → Option (List Cell)} {i j : ι}
  {p : Addr} {b : List Cell}

omit [DecidableEq ι] in
theorem models_start : Models .empty (fun _ : ι => none) (fun _ => none) :=
  ⟨Owns.empty, fun _ => .dead⟩

theorem pointers_update (o : Option Arena) : pointers (Function.update arenas i o) =
    Function.update (pointers arenas) i (o.bind Arena.data) := by
  funext k
  by_cases hk : k = i
  · subst hk
    rw [pointers, Function.update_self, Function.update_self]
  · rw [pointers, Function.update_of_ne hk, Function.update_of_ne hk, pointers]

/-- An arena still stands for its array when its own block is as it was. -/
theorem Holds.frame {h' : Memory} {o : Option Arena} {v : Option (List Cell)} (hh : Holds h o v)
    (hb : ∀ p, o.bind Arena.data = some p → h'.block p = h.block p) : Holds h' o v := by
  cases hh with
  | dead => exact .dead
  | empty => exact .empty
  | block hne hp => exact .block hne ((hb _ rfl).trans hp)

/-- Change one arena and its array; the others keep their blocks. -/
theorem Models.update {h' : Memory} {o : Option Arena} {v : Option (List Cell)}
    (hm : Models h arenas arrays) (ho : Owns h' (Function.update (pointers arenas) i
      (o.bind Arena.data)))
    (hself : Holds h' o v)
    (hother : ∀ k p, k ≠ i → pointers arenas k = some p → h'.block p = h.block p) :
    Models h' (Function.update arenas i o) (Function.update arrays i v) := by
  refine ⟨?_, ?_⟩
  · rw [pointers_update]
    exact ho
  · intro k
    by_cases hk : k = i
    · subst hk
      rw [Function.update_self, Function.update_self]
      exact hself
    · rw [Function.update_of_ne hk, Function.update_of_ne hk]
      exact (hm.holds k).frame fun p hp => hother k p hk hp

/-- A new arena of size 0. -/
theorem Models.gainEmpty (hm : Models h arenas arrays) (hi : arenas i = none) :
    Models h (Function.update arenas i (some ⟨0, none⟩)) (Function.update arrays i (some [])) := by
  have hptr : pointers arenas i = none := by rw [pointers, hi]; rfl
  refine hm.update ?_ .empty fun _ _ _ _ => rfl
  have hsame : Function.update (pointers arenas) i none = pointers arenas := by
    rw [← hptr, Function.update_eq_self]
  change Owns h (Function.update (pointers arenas) i none)
  rw [hsame]
  exact hm.owns

/-- A new arena with a fresh block. -/
theorem Models.gain (hm : Models h arenas arrays) (hi : arenas i = none) (hp : h.block p = none)
    (hne : b ≠ []) : Models (h.alloc p b) (Function.update arenas i (some ⟨b.length, some p⟩))
      (Function.update arrays i (some b)) := by
  have hptr : pointers arenas i = none := by rw [pointers, hi]; rfl
  refine hm.update (hm.owns.alloc hp hptr b) (.block hne Heap.alloc_self) fun k q _ hk => ?_
  refine Heap.alloc_ne fun hq => ?_
  exact hm.owns.not_ptr hp k (hq ▸ hk)

/-- An arena gives back what it has: `free` is defined. -/
theorem Models.lose {a : Arena} (hm : Models h arenas arrays) (hi : arenas i = some a) :
    ∃ h', free a.data h = some h' ∧
      Models h' (Function.update arenas i none) (Function.update arrays i none) ∧
      (∀ q, h.block q = none → h'.block q = none) := by
  have hptr : pointers arenas i = a.data := by rw [pointers, hi]; rfl
  cases hd : a.data with
  | none =>
    refine ⟨h, rfl, hm.update ?_ .dead fun _ _ _ _ => rfl, fun q hq => hq⟩
    have hsame : Function.update (pointers arenas) i none = pointers arenas := by
      rw [← hd, ← hptr, Function.update_eq_self]
    change Owns h (Function.update (pointers arenas) i none)
    rw [hsame]
    exact hm.owns
  | some q =>
    obtain ⟨c, hc⟩ := hm.owns.live i q (hptr.trans hd)
    refine ⟨h.release q, Heap.free_eq hc, ?_, ?_⟩
    · refine hm.update (hm.owns.free (hptr.trans hd)) .dead fun k q' hk hkq => ?_
      refine Heap.release_ne fun hq => hk ?_
      exact hm.owns.unique k i q (hq ▸ hkq) (hptr.trans hd)
    · intro q' hq'
      by_cases hq : q' = q
      · rw [hq, Heap.release_self]
      · rw [Heap.release_ne hq, hq']

/-- Two arenas exchange all they have. -/
theorem Models.exchange (hm : Models h arenas arrays) (i j : ι) :
    Models h (Function.update (Function.update arenas j (arenas i)) i (arenas j))
      (Function.update (Function.update arrays j (arrays i)) i (arrays j)) := by
  rw [← Equiv.comp_swap_eq_update, ← Equiv.comp_swap_eq_update]
  exact ⟨hm.owns.comp (Equiv.swap i j), fun k => hm.holds _⟩

/-- The block of an arena is overwritten. -/
theorem Models.overwrite {b' : List Cell} (hm : Models h arenas arrays)
    (hi : arenas i = some ⟨b.length, some p⟩) (hp : h.block p = some b)
    (hlen : b'.length = b.length) (hne : b ≠ []) :
    Models (h.alloc p b') arenas (Function.update arrays i (some b')) := by
  have hptr : pointers arenas i = some p := by rw [pointers, hi]; rfl
  have hne' : b' ≠ [] := by
    intro hnil
    rw [hnil, List.length_nil] at hlen
    exact hne (List.length_eq_zero_iff.mp hlen.symm)
  have hupdate : Models (h.alloc p b') (Function.update arenas i (some ⟨b'.length, some p⟩))
      (Function.update arrays i (some b')) := by
    refine hm.update ?_ (.block hne' Heap.alloc_self) fun k q hk hkq => ?_
    · change Owns _ (Function.update (pointers arenas) i (some p))
      rw [← hptr, Function.update_eq_self]
      exact hm.owns.overwrite hp b'
    · refine Heap.alloc_ne fun hq => hk ?_
      exact hm.owns.unique k i p (hq ▸ hkq) hptr
  rw [hlen, ← hi, Function.update_eq_self] at hupdate
  exact hupdate

/-- Reading inside an arena is reading its array. -/
theorem Holds.bytesAt {a : Arena} (hh : Holds h (some a) (some b)) {offset len : Nat}
    (hin : offset + len ≤ b.length) :
    bytesAt a.data offset len h = some ((b.drop offset).take len) := by
  cases hh with
  | empty =>
    have hzero : len = 0 := by
      rw [List.length_nil] at hin
      omega
    subst hzero
    simp [RuleOfFive.bytesAt]
  | block hne hp => exact Heap.load_eq hp hin

/-- Writing inside an arena is writing its array. -/
theorem Models.memcpy {a : Arena} (hm : Models h arenas arrays) (hi : arenas i = some a)
    (hb : arrays i = some b) (hdata : a.data ≠ none) {offset : Nat} {bytes : List Cell}
    (hin : offset + bytes.length ≤ b.length) :
    ∃ h', memcpy a.data offset (some bytes) h = some h' ∧
      Models h' arenas (Function.update arrays i (some (splice b offset bytes))) := by
  have hh := hm.holds i
  rw [hi, hb] at hh
  cases hh with
  | empty => exact absurd rfl hdata
  | block hne hp =>
    exact ⟨_, Heap.store_eq hp hin, hm.overwrite hi hp (length_splice hin) hne⟩

end BackendPatterns.RuleOfFive
