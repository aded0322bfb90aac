import BackendPatterns.RuleOfFive.ValueSemantics

/-! # Bounds checks

The end of a write or a read is a sum of two `std::size_t`s. Where it wraps to
something small, the check lets an access pass that starts far outside of the
arena; and a write of nothing passes it without any memory to write to. -/

namespace BackendPatterns.RuleOfFive
open BackendPatterns.Lib

/-- The byte at a position of a block. -/
def cell (h : Memory) (p : Addr) (k : Nat) : Option Cell := (h.block p).bind fun b => b[k]?

/-- What the check of a write is for. The range of an access is meant without
wrapping; one that reaches outside of the block is undefined. -/
structure WriteExact (h : Memory) (a : Arena) (offset : Nat) (s : StringView) : Prop where
  throws : a.write offset s h = some (.error (.outOfRange "arena write"), h) ↔
    a.size < offset + s.chars.length
  inside : offset + s.chars.length ≤ a.size → ∃ h', a.write offset s h = some (.ok (), h') ∧
    ∀ p k, cell h' p k ≠ cell h p k → a.data = some p ∧ k < a.size

structure ReadExact (h : Memory) (a : Arena) (offset len : Nat) : Prop where
  throws : a.read offset len h = some (.error (.outOfRange "arena read")) ↔ a.size < offset + len
  inside : offset + len ≤ a.size → ∃ cells, a.read offset len h = some (.ok cells) ∧
    cells.length = len ∧ ∀ p, a.data = some p → ∀ k < len, cells[k]? = cell h p (offset + k)

/-- The sum wraps, to at most the size. -/
def Wraps (a : Arena) (offset len : Nat) : Prop :=
  18446744073709551616 ≤ offset + len ∧ offset + len ≤ 18446744073709551616 + a.size

instance (a : Arena) (offset len : Nat) : Decidable (Wraps a offset len) :=
  inferInstanceAs (Decidable (_ ∧ _))

variable {h : Memory} {a : Arena} {b : List Cell} {offset len : Nat} {s : StringView}

/-- The check is right unless the sum wraps so far. -/
theorem check_iff (hsize : a.size < 18446744073709551616) (ho : offset < 18446744073709551616)
    (hl : len < 18446744073709551616) :
    (a.size < sizeAdd offset len ↔ a.size < offset + len) ↔ ¬ Wraps a offset len := by
  simp only [sizeAdd, Wraps]
  omega

theorem write_passes (hle : ¬ a.size < sizeAdd offset s.chars.length) : a.write offset s h =
    (memcpy a.data offset (s.map (List.map some)) h).map fun h' => (.ok (), h') := by
  rw [Arena.write, if_neg hle]
  exact bind_pure_comp _ _

theorem write_throws_iff : a.write offset s h = some (.error (.outOfRange "arena write"), h) ↔
    a.size < sizeAdd offset s.chars.length := by
  refine ⟨fun hthrows => ?_, fun hgt => if_pos hgt⟩
  by_contra hle
  rw [write_passes hle] at hthrows
  obtain ⟨h', -, heq⟩ := Option.map_eq_some_iff.mp hthrows
  cases heq

theorem read_passes (hle : ¬ a.size < sizeAdd offset len) :
    a.read offset len h = (bytesAt a.data offset len h).map .ok := by
  rw [Arena.read, if_neg hle, Option.map_eq_bind]
  rfl

theorem read_throws_iff : a.read offset len h = some (.error (.outOfRange "arena read")) ↔
    a.size < sizeAdd offset len := by
  refine ⟨fun hthrows => ?_, fun hgt => if_pos hgt⟩
  by_contra hle
  rw [read_passes hle] at hthrows
  obtain ⟨cells, -, heq⟩ := Option.map_eq_some_iff.mp hthrows
  cases heq

/-- Overwriting a part of a block changes the bytes of this part only. -/
theorem cell_splice {p : Addr} {data : List Cell} (hp : h.block p = some b)
    (hin : offset + data.length ≤ b.length) {q : Addr} {k : Nat}
    (hne : cell (h.alloc p (splice b offset data)) q k ≠ cell h q k) : q = p ∧ k < b.length := by
  by_cases hq : q = p
  · subst hq
    refine ⟨rfl, ?_⟩
    simp only [cell, Heap.alloc_self, hp, Option.bind_some, getElem?_splice hin] at hne
    by_contra hk
    rw [if_neg (by omega)] at hne
    exact hne rfl
  · rw [cell, cell, Heap.alloc_ne hq] at hne
    exact absurd rfl hne

theorem memcpy_inside (hh : Holds h (some a) (some b)) (hdata : a.data ≠ none)
    {bytes : List Cell} (hin : offset + bytes.length ≤ a.size) :
    ∃ h', memcpy a.data offset (some bytes) h = some h' ∧
      ∀ p k, cell h' p k ≠ cell h p k → a.data = some p ∧ k < a.size := by
  cases hh with
  | empty => exact absurd rfl hdata
  | @block q _ _ hq =>
    refine ⟨_, Heap.store_eq hq hin, fun p k hne => ?_⟩
    obtain ⟨hp, hk⟩ := cell_splice hq hin hne
    exact ⟨congrArg some hp.symm, hk⟩

theorem bytesAt_inside (hh : Holds h (some a) (some b)) (hin : offset + len ≤ a.size) :
    ∃ cells, bytesAt a.data offset len h = some cells ∧ cells.length = len ∧
      ∀ p, a.data = some p → ∀ k < len, cells[k]? = cell h p (offset + k) := by
  obtain ⟨_, hb, hlen, -, hblock⟩ := hh.alive_eq
  cases hb
  rw [← hlen] at hin
  refine ⟨_, hh.bytesAt hin, ?_, ?_⟩
  · rw [List.length_take, List.length_drop]
    omega
  · intro p hp k hk
    rw [List.getElem?_take_of_lt hk, List.getElem?_drop, cell, hblock p hp, Option.bind_some]

/-- A null write is inside of the arena, but not defined. -/
theorem not_nullWrite (hexact : WriteExact h a offset s) : ¬ NullWrite a offset s := by
  rintro ⟨hchars, hle, hnone⟩
  have hnone : a.data = none ∨ s.map (List.map some) = none :=
    hnone.imp_right fun hs => by rw [hs, Option.map_none]
  have hin : offset + s.chars.length ≤ a.size := by
    rw [hchars]
    exact hle
  obtain ⟨h', hwrite, -⟩ := hexact.inside hin
  have hpass : ¬ a.size < sizeAdd offset s.chars.length :=
    Nat.not_lt.mpr (Nat.le_trans (Nat.mod_le _ _) hin)
  rw [write_passes hpass, memcpy_null hnone] at hwrite
  cases hwrite

/-- A write is exact unless the sum wraps to something small or `memcpy` gets a null
pointer. -/
theorem writeExact_iff (hh : Holds h (some a) (some b)) (hsize : a.size < 18446744073709551616)
    (ho : offset < 18446744073709551616) (hl : s.chars.length < 18446744073709551616) :
    WriteExact h a offset s ↔ ¬ Wraps a offset s.chars.length ∧ ¬ NullWrite a offset s := by
  have hcheck := check_iff hsize ho hl
  refine ⟨fun hexact => ⟨?_, not_nullWrite hexact⟩, ?_⟩
  · exact hcheck.mp (write_throws_iff.symm.trans hexact.throws)
  rintro ⟨hw, hnull⟩
  refine ⟨write_throws_iff.trans (hcheck.mpr hw), fun hin => ?_⟩
  have hle : ¬ a.size < sizeAdd offset s.chars.length := by
    rw [hcheck.mpr hw]
    exact Nat.not_lt.mpr hin
  obtain ⟨_, -, -, hzero, -⟩ := hh.alive_eq
  obtain ⟨hdata, bytes, rfl⟩ := not_null hzero hin hnull
  obtain ⟨h', hcopy, hcells⟩ := @memcpy_inside _ _ _ _ hh hdata (bytes.map some)
    (by rw [List.length_map]; exact hin)
  rw [write_passes hle, Option.map_some, hcopy]
  exact ⟨h', rfl, hcells⟩

theorem readExact_iff (hh : Holds h (some a) (some b)) (hsize : a.size < 18446744073709551616)
    (ho : offset < 18446744073709551616) (hl : len < 18446744073709551616) :
    ReadExact h a offset len ↔ ¬ Wraps a offset len := by
  have hcheck := check_iff hsize ho hl
  refine ⟨fun hexact => hcheck.mp (read_throws_iff.symm.trans hexact.throws), fun hw => ?_⟩
  refine ⟨read_throws_iff.trans (hcheck.mpr hw), fun hin => ?_⟩
  have hle : ¬ a.size < sizeAdd offset len := by
    rw [hcheck.mpr hw]
    exact Nat.not_lt.mpr hin
  obtain ⟨cells, hbytes, hlen, hcells⟩ := bytesAt_inside hh hin
  rw [read_passes hle, hbytes]
  exact ⟨cells, rfl, hlen, hcells⟩

/-! ## Any arena of any run -/

section Runs

variable {ι : Type} [DecidableEq ι] {s t : State ι} {arenas : ι → Option Arena}
  {arrays : ι → Option (List Cell)} {i : ι} {h' : Memory}

/-- A copy that is defined leaves the arenas with arrays. -/
theorem Models.memcpy_some (hm : Models h arenas arrays) (hi : arenas i = some a)
    {source : Option (List Cell)} (hc : RuleOfFive.memcpy a.data offset source h = some h') :
    ∃ arrays', Models h' arenas arrays' := by
  have hh := hm.holds i
  rw [hi] at hh
  generalize arrays i = o at hh
  cases hh with
  | empty => cases hc
  | @block p b hne hp =>
    obtain ⟨bytes, -, hc⟩ := Option.bind_eq_some_iff.mp hc
    simp only [Heap.store, hp, Option.bind_some] at hc
    split at hc
    · rename_i hin
      cases hc
      exact ⟨_, hm.overwrite hi hp (length_splice hin) hne⟩
    · cases hc

theorem models_write {offset : Nat} {view : StringView} (hm : Models s.heap s.arenas arrays)
    (hs : s.write i offset view = some t) : ∃ arrays', Models t.heap t.arenas arrays' := by
  cases hi : s.arenas i with
  | none => simp [State.write, hi] at hs
  | some a =>
    simp only [State.write, hi] at hs
    by_cases hgt : a.size < sizeAdd offset view.chars.length
    · rw [write_throws_iff.mpr hgt] at hs
      cases hs
      exact ⟨arrays, hm⟩
    · rw [write_passes hgt] at hs
      cases hc : memcpy a.data offset (view.map (List.map some)) s.heap with
      | none =>
        rw [hc] at hs
        cases hs
        exact ⟨arrays, hm⟩
      | some h' =>
        rw [hc] at hs
        cases hs
        exact hm.memcpy_some hi hc

omit [DecidableEq ι] in
theorem models_read {offset len : Nat} (hm : Models s.heap s.arenas arrays)
    (hs : s.read i offset len = some t) : ∃ arrays', Models t.heap t.arenas arrays' := by
  unfold State.read at hs
  split at hs
  · split at hs <;> cases hs <;> exact ⟨arrays, hm⟩
  · cases hs

/-- Whatever the offsets and lengths, the arenas stand for arrays as long as the
run is defined, and where it ends. -/
theorem models_of_reachable (hr : Machine.Reachable step start s) :
    ∃ arrays, Models s.heap s.arenas arrays := by
  refine @Machine.Reachable.invariant _ _ step start
    (fun s => ∃ arrays, Models s.heap s.arenas arrays) ⟨_, models_start⟩ ?_ s hr
  intro s a t _ hm hs
  obtain ⟨arrays, hm⟩ := hm
  cases a with
  | life op =>
    have hdefined := (lifeStep_cases hs).1
    have hrep : Represents s ⟨arrays, s.last⟩ := ⟨hm, rfl, hdefined⟩
    obtain ⟨w, -, hw⟩ := hrep.lifeStep hs
    exact ⟨w.arrays, hw.models⟩
  | write i offset view =>
    simp only [step] at hs
    split at hs
    · cases hs
    · exact models_write hm hs
  | read i offset len =>
    simp only [step] at hs
    split at hs
    · cases hs
    · exact models_read hm hs

/-- For any arena of any run: a write or a read throws exactly when its range ends
outside of the arena, and otherwise stays inside, if and only if the sum of offset
and length does not wrap to at most the size, and a write is no null write. -/
theorem bounds_exact_iff (hr : Machine.Reachable step start s) (hi : s.arenas i = some a)
    (hsize : a.size < 18446744073709551616) (ho : offset < 18446744073709551616)
    (hl : len < 18446744073709551616) {view : StringView}
    (hb : view.chars.length < 18446744073709551616) :
    (WriteExact s.heap a offset view ↔
        ¬ Wraps a offset view.chars.length ∧ ¬ NullWrite a offset view) ∧
      (ReadExact s.heap a offset len ↔ ¬ Wraps a offset len) := by
  obtain ⟨arrays, hm⟩ := models_of_reachable hr
  have hh := hm.holds i
  rw [hi] at hh
  obtain ⟨b, hb', -⟩ := hh.alive_eq
  rw [hb'] at hh
  exact ⟨writeExact_iff hh hsize ho hb, readExact_iff hh hsize ho hl⟩

end Runs

/-- An arena of 64 bytes. -/
def sixtyFour : List (Action Unit) := [.life (.construct () 64 (some 100))]

theorem bounds_exact_iff_sixtyFour : ∃ s, Machine.run step start sixtyFour = some s ∧
    WriteExact s.heap ⟨64, some 100⟩ 0 (some (str "cache-key")) ∧
    ReadExact s.heap ⟨64, some 100⟩ 0 9 := by
  obtain ⟨s, hs, hi⟩ : ∃ s, Machine.run step start sixtyFour = some s ∧
    s.arenas () = some ⟨64, some 100⟩ := ⟨_, rfl, rfl⟩
  have hreach := Machine.reachable_of_run hs
  have hexact := @bounds_exact_iff ⟨64, some 100⟩ 0 9 Unit _ s () hreach hi (by decide) (by decide)
    (by decide) (some (str "cache-key")) (by decide)
  exact ⟨s, hs, hexact.1.mpr (by decide), hexact.2.mpr (by decide)⟩

/-- A write of two bytes from one byte before the arena does not throw, but is
undefined. -/
theorem write_before_start : ∃ s, Machine.run step start sixtyFour = some s ∧
    Arena.write ⟨64, some 100⟩ 18446744073709551615 (some (str "ab")) s.heap = none ∧
    ¬ WriteExact s.heap ⟨64, some 100⟩ 18446744073709551615 (some (str "ab")) := by
  obtain ⟨s, hs, hwrite⟩ : ∃ s, Machine.run step start sixtyFour = some s ∧
    Arena.write ⟨64, some 100⟩ 18446744073709551615 (some (str "ab")) s.heap = none :=
    ⟨_, rfl, rfl⟩
  refine ⟨s, hs, hwrite, fun h => ?_⟩
  have hthrows := h.throws.mpr (by decide)
  rw [hwrite] at hthrows
  cases hthrows

end BackendPatterns.RuleOfFive
