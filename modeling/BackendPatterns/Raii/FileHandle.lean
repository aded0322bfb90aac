import Mathlib.Data.List.TakeWhile
import BackendPatterns.Lib.Decimal
import BackendPatterns.Lib.Frames
import BackendPatterns.Lib.Unique

/-! # A file that closes itself

A `FileHandle` is a `unique_ptr` to a stream whose deleter is `fclose`. Opening and each
write may fail. A stream has a buffer, which `fclose` writes out: that may fail as well,
and the deleter does not look at its result. -/

namespace BackendPatterns.Raii
open BackendPatterns.Lib

/-- The address of a `FILE`. -/
abbrev Addr := Nat

/-- A stream: the bytes that are in the file, and those that it has still to write. -/
structure File where
  contents : Bytes
  buffer : Bytes

/-- The bytes that the stream has accepted. -/
def File.accepted (file : File) : Bytes := file.contents ++ file.buffer

/-- The stream accepts `text`, and writes the first `n` bytes that it has. -/
def File.put (file : File) (text : Bytes) (n : Nat) : File :=
  ⟨file.contents ++ (file.buffer ++ text).take n, (file.buffer ++ text).drop n⟩

/-- A call of `fputs` that fails: how many of its bytes it has accepted, and how many
bytes the stream keeps of those that it has still to write. -/
structure Failure where
  accepted : Nat
  kept : Nat

/-- What the C library does: `fopen` returns a stream or fails with an error text, call
`i` of `fputs` writes `written i` bytes of the buffer to the file and may fail, and
`fclose` writes all or some of the rest. -/
structure Library where
  fopen : Except Bytes Addr
  fputs : Nat → Option Failure
  written : Nat → Nat
  fclose : Option Nat

/-- The bytes of the file that remains; the rest of the buffer is lost. -/
def Library.close (lib : Library) (file : File) : List Bytes :=
  match lib.fclose with
  | none => [file.contents ++ file.buffer]
  | some n => [file.contents ++ file.buffer.take n]

/-- The one handle, and the files that were closed. -/
abbrev Handles := Unique.Store Addr Unit File Bytes

/-- What a C function reads of a string. -/
def cStr (s : Bytes) : Bytes := s.takeWhile (· ≠ 0)

def line (prefix_ : Bytes) (i : Nat) : Bytes := prefix_ ++ str " line " ++ decimal i ++ str "\n"

/-- What call `i` of `fputs` does to the stream. -/
def Library.put (lib : Library) (i : Nat) (text : Bytes) (file : File) : File :=
  match lib.fputs i with
  | none => file.put (cStr text) (lib.written i)
  | some failure =>
    let file := file.put ((cStr text).take failure.accepted) (lib.written i)
    { file with buffer := file.buffer.take failure.kept }

/-- The loop of `write_lines` from `i` on, with `n` lines to come. -/
def writeLines (lib : Library) (prefix_ : Bytes) :
    Nat → Nat → Handles → Option (Except Bytes Unit × Handles)
  | 0, _, s => some (.ok (), s)
  | n + 1, i, s =>
    (s.modify () (lib.put i (line prefix_ i))).bind fun s =>
      if (lib.fputs i).isSome then some (.error (str "write failed"), s)
      else writeLines lib prefix_ n (i + 1) s

structure Outcome where
  exitCode : Int
  out : Bytes
  err : Bytes
  handles : Handles

def greeting : Bytes := str "RAII example: writing a small log file.\n"

/-- `main` writes three lines with "request". The handle is destroyed at the end of the
block, whether it is left by `return` or by an exception; `none` is undefined. -/
def main (lib : Library) (prefix_ : Bytes) (count : Int) : Option Outcome :=
  let start : Handles := ⟨.empty, fun _ => none, []⟩
  match lib.fopen with
  | .error err => some ⟨1, greeting, str "Error: fopen failed: " ++ err ++ str "\n", start⟩
  | .ok p => do
    let s ← start.make () p ⟨[], []⟩
    let (result, s) ← writeLines lib prefix_ count.toNat 0 s
    let s ← s.destroy lib.close ()
    match result with
    | .ok () => return ⟨0, greeting ++ str "Wrote raii.log; handle closes automatically.\n", [], s⟩
    | .error what => return ⟨1, greeting, str "Error: " ++ what ++ str "\n", s⟩

/-! ## What is in the file -/

/-- The first lines. -/
def whole (prefix_ : Bytes) (n : Nat) : Bytes :=
  ((List.range n).map fun i => cStr (line prefix_ i)).flatten

theorem whole_succ (prefix_ : Bytes) (n : Nat) :
    whole prefix_ (n + 1) = whole prefix_ n ++ cStr (line prefix_ n) := by
  simp [whole, List.range_succ]

/-- The handle while it is open. -/
def holding (file : File) : Unique.Values Unit File Bytes := ⟨fun _ => some (some file), []⟩

/-- Nothing that is accepted gets lost unless a call fails. -/
theorem accepted_put (file : File) (text : Bytes) (n : Nat) :
    (file.put text n).accepted = file.accepted ++ text := by
  simp only [File.accepted, File.put, List.append_assoc, List.take_append_drop]

theorem accepted_drop (file : File) (n : Nat) :
    File.accepted { file with buffer := file.buffer.take n } <+: file.accepted :=
  (List.prefix_append_right_inj _).mpr (List.take_prefix n file.buffer)

/-- The file has a part of what the stream had, and all of it when `fclose` succeeds. -/
theorem close_eq (lib : Library) (file : File) : ∃ contents, lib.close file = [contents] ∧
    contents <+: file.accepted ∧ (lib.fclose = none → contents = file.accepted) := by
  unfold Library.close
  cases hclose : lib.fclose with
  | none => exact ⟨_, rfl, List.prefix_refl _, fun _ => rfl⟩
  | some n =>
    refine ⟨_, rfl, ?_, nofun⟩
    exact (List.prefix_append_right_inj _).mpr (List.take_prefix n file.buffer)

/-- What the loop ends with: all lines are in the stream, or one of them failed. -/
structure Written (lib : Library) (prefix_ : Bytes) (n : Nat) (result : Except Bytes Unit)
    (file : File) (k : Nat) : Prop where
  le : k ≤ n
  before : ∀ i < k, lib.fputs i = none
  ok : result = .ok () → k = n ∧ file.accepted = whole prefix_ n
  error : ∀ what, result = .error what → what = str "write failed" ∧ k < n ∧
    ∃ failure, lib.fputs k = some failure ∧
      file.accepted <+: whole prefix_ k ++ (cStr (line prefix_ k)).take failure.accepted

theorem holding_modify (file : File) (f : File → File) :
    (holding file).modify () f = some (holding (f file)) := by
  show some (Unique.Values.mk _ _) = _
  rw [holding, holding]
  congr 2

variable {lib : Library} {prefix_ : Bytes} {s : Handles}

/-- A call of `fputs` is defined while the handle is open. -/
theorem exists_modify {file : File} (hr : Unique.Refines s (holding file)) (f : File → File) :
    ∃ t, s.modify () f = some t ∧ Unique.Refines t (holding (f file)) := by
  have hrel := hr.modify () f
  rw [holding_modify] at hrel
  exact Unique.exists_of_rel hrel

variable (lib) in
theorem writeLines_spec {n i : Nat} {file : File} (hr : Unique.Refines s (holding file))
    (haccepted : file.accepted = whole prefix_ i) (hbefore : ∀ j < i, lib.fputs j = none) :
    ∃ result t file' k, writeLines lib prefix_ n i s = some (result, t) ∧
      Unique.Refines t (holding file') ∧
      Written lib prefix_ (i + n) result file' k := by
  induction n generalizing i s file with
  | zero =>
    exact ⟨_, s, file, i, rfl, hr, Nat.le_refl _, hbefore, fun _ => ⟨rfl, haccepted⟩, nofun⟩
  | succ n ih =>
    obtain ⟨u, hu, hr⟩ := exists_modify hr (lib.put i (line prefix_ i))
    unfold writeLines
    rw [hu, Option.bind_some]
    cases hi : lib.fputs i with
    | some failure =>
      have hput : (lib.put i (line prefix_ i) file).accepted <+:
          whole prefix_ i ++ (cStr (line prefix_ i)).take failure.accepted := by
        rw [Library.put, hi, ← haccepted, ← accepted_put]
        exact accepted_drop _ _
      exact ⟨_, u, _, i, rfl, hr, by omega, hbefore, nofun, fun what hwhat =>
        ⟨(Except.error.inj hwhat).symm, by omega, failure, hi, hput⟩⟩
    | none =>
      have hput : (lib.put i (line prefix_ i) file).accepted = whole prefix_ (i + 1) := by
        rw [Library.put, hi, accepted_put, haccepted, whole_succ]
      have hbefore' : ∀ j < i + 1, lib.fputs j = none := by
        intro j hj
        rcases Nat.lt_succ_iff_lt_or_eq.mp hj with hlt | rfl
        · exact hbefore j hlt
        · exact hi
      have hrest := ih hr hput hbefore'
      rwa [Nat.add_right_comm] at hrest

/-- Nothing is left when no handle has anything. -/
theorem released {out : List Bytes} (hr : Unique.Refines s ⟨fun _ => none, out⟩) :
    s.out = out ∧ ∀ p, s.memory.block p = none := by
  refine ⟨hr.out, fun p => ?_⟩
  cases hp : s.memory.block p with
  | none => rfl
  | some b =>
    obtain ⟨i, hi⟩ := hr.stands.owns.covered p b hp
    have hholds := hr.stands.holds i
    cases hptr : s.ptrs i with
    | none =>
      rw [Unique.pointers, hptr] at hi
      cases hi
    | some q =>
      rw [hptr] at hholds
      obtain ⟨o, ho, -⟩ := hholds.alive_eq
      cases ho

/-- A line without its newline. -/
def text (prefix_ : Bytes) (i : Nat) : Bytes := prefix_ ++ str " line " ++ decimal i

theorem not_mem_text {b : UInt8} (hname : b ∉ prefix_) (hline : b ∉ str " line ")
    (hnumeral : ¬ IsNumeral b) (i : Nat) : b ∉ text prefix_ i := by
  simp only [text, List.mem_append, not_or]
  exact ⟨⟨hname, hline⟩, mt mem_decimal hnumeral⟩

/-- A string without a zero byte is read as a whole. -/
theorem cStr_line (h0 : 0 ∉ prefix_) (i : Nat) :
    cStr (line prefix_ i) = text prefix_ i ++ [10] := by
  have hline : line prefix_ i = text prefix_ i ++ [10] := rfl
  rw [hline, cStr, List.takeWhile_eq_self_iff]
  intro b hb
  rcases List.mem_append.mp hb with hb | hb
  · have hnot := not_mem_text h0 (by decide) (by decide) i
    exact decide_eq_true fun heq => hnot (heq ▸ hb)
  · rw [List.mem_singleton.mp hb]
    decide

/-- The lines are read back if the prefix has no zero byte and no newline. -/
theorem frames_whole (h0 : 0 ∉ prefix_) (hnewline : 10 ∉ prefix_) (n : Nat) :
    Frames.frames 10 (whole prefix_ n) = (List.range n).map (text prefix_) := by
  have hwhole : whole prefix_ n = Frames.unframe 10 ((List.range n).map (text prefix_)) := by
    simp only [whole, Frames.unframe, List.map_map, cStr_line h0]
    rfl
  rw [hwhole, Frames.frames_unframe]
  intro m hm
  obtain ⟨i, -, rfl⟩ := List.mem_map.mp hm
  exact not_mem_text hnewline (by decide) (by decide) i

/-- Behind a zero byte nothing is written, not even the newline. -/
theorem whole_of_mem (h0 : 0 ∈ prefix_) (n : Nat) :
    whole prefix_ n = (List.replicate n (cStr prefix_)).flatten := by
  have hline : ∀ i, cStr (line prefix_ i) = cStr prefix_ := by
    intro i
    have hlt : (prefix_.takeWhile (· ≠ 0)).length ≠ prefix_.length := by
      intro hlen
      have hself := (List.takeWhile_prefix (fun b : UInt8 => decide (b ≠ 0))).eq_of_length hlen
      have hall := List.takeWhile_eq_self_iff.mp hself 0 h0
      exact absurd hall (by decide)
    rw [cStr, line, List.append_assoc, List.append_assoc, List.takeWhile_append, if_neg hlt, cStr]
  simp only [whole, hline, List.map_const', List.length_range]

/-- Whatever fails, the handle is defined throughout, and a file that was opened is closed
once. The program succeeds if and only if the file was opened and every `fputs` accepted
its line; else the lines before the one that failed were accepted, and a part of that one.
The file has a prefix of what was accepted, which is all of it if neither an `fputs` nor
`fclose` has failed: the program does not know of the latter. The lines that were accepted
can be read back unless the prefix has a newline or a zero byte, which cuts all lines
short. -/
theorem file_closed_once (lib : Library) (prefix_ : Bytes) (count : Int) :
    ∃ o, main lib prefix_ count = some o ∧ (∀ p, o.handles.memory.block p = none) ∧
      (∀ err, lib.fopen = .error err → o.exitCode = 1 ∧ o.handles.out = []) ∧
      ∀ p, lib.fopen = .ok p → ∃ contents accepted k, o.handles.out = [contents] ∧
        contents <+: accepted ∧ (∀ i < k, lib.fputs i = none) ∧
        ((o.exitCode = 0 ∧ k = count.toNat ∧ accepted = whole prefix_ k ∧
            (lib.fclose = none → contents = accepted)) ∨
          (o.exitCode = 1 ∧ k < count.toNat ∧ ∃ failure, lib.fputs k = some failure ∧
            accepted = whole prefix_ k ++ (cStr (line prefix_ k)).take failure.accepted)) ∧
        (0 ∉ prefix_ → 10 ∉ prefix_ →
          Frames.frames 10 (whole prefix_ k) = (List.range k).map (text prefix_)) ∧
        (0 ∈ prefix_ → whole prefix_ k = (List.replicate k (cStr prefix_)).flatten) := by
  unfold main
  cases hopen : lib.fopen with
  | error err => exact ⟨_, rfl, fun _ => rfl, fun _ _ => ⟨rfl, rfl⟩, nofun⟩
  | ok p =>
    have hstart : Unique.Refines (⟨.empty, fun _ => none, []⟩ : Handles) ⟨fun _ => none, []⟩ :=
      ⟨⟨Owns.empty, fun _ => .dead⟩, rfl⟩
    obtain ⟨s, hs, hr⟩ := Unique.exists_of_rel (hstart.make (p := p) rfl () ⟨[], []⟩)
    have hopened : Unique.Refines s (holding ⟨[], []⟩) := hr
    obtain ⟨result, t, file, k, hwrite, hr, hwritten⟩ :=
      writeLines_spec lib (n := count.toNat) hopened (rfl : _ = whole prefix_ 0) nofun
    obtain ⟨contents, hcontents, hpart, hall⟩ := close_eq lib file
    obtain ⟨u, hu, hr⟩ := Unique.exists_of_rel (hr.destroy lib.close ())
    have hr : Unique.Refines u ⟨fun _ => none, lib.close file⟩ := hr
    obtain ⟨hout, hempty⟩ := released hr
    rw [hcontents] at hout
    rw [Nat.zero_add] at hwritten
    simp only [hs, hwrite, hu, Option.bind_eq_bind, Option.bind_some]
    cases result with
    | ok _ =>
      obtain ⟨hk, haccepted⟩ := hwritten.ok rfl
      rw [← hk] at haccepted
      refine ⟨_, rfl, hempty, nofun, fun _ _ => ⟨contents, file.accepted, k, hout, hpart,
        hwritten.before, ?_, fun h0 hnewline => frames_whole h0 hnewline k,
        fun h0 => whole_of_mem h0 k⟩⟩
      exact .inl ⟨rfl, hk, haccepted, hall⟩
    | error what =>
      obtain ⟨-, hk, failure, hfailed, haccepted⟩ := hwritten.error what rfl
      refine ⟨_, rfl, hempty, nofun, fun _ _ => ⟨contents, _, k, hout, hpart.trans haccepted,
        hwritten.before, ?_, fun h0 hnewline => frames_whole h0 hnewline k,
        fun h0 => whole_of_mem h0 k⟩⟩
      exact .inr ⟨rfl, hk, failure, hfailed, rfl⟩

/-- A full disk: all lines stay in the buffer, and `fclose` loses them. -/
def full : Library := ⟨.ok 0, fun _ => none, fun _ => 0, some 0⟩

/-- The program does not notice. -/
example : (main full (str "request") 3).map (fun o => (o.exitCode, o.handles.out)) =
    some (0, [[]]) := by
  decide

end BackendPatterns.Raii
