import Mathlib.Algebra.Group.Nat.Defs
import BackendPatterns.Lib.Bytes

/-! # Cache keys from parts

A key is built by appending one part after the other. The type of a part selects
its tag, and the tag how the part is appended. -/

namespace BackendPatterns.CacheKey
open BackendPatterns.Lib

/-- The byte order of the machine. -/
inductive Endian
  | little
  | big

inductive UIntType
  | uint8
  | uint16
  | uint32
  | uint64

/-- `sizeof`. -/
def UIntType.size : UIntType → Nat
  | .uint8 => 1
  | .uint16 => 2
  | .uint32 => 4
  | .uint64 => 8

/-- An unsigned integer of so many bytes. -/
abbrev Unsigned (size : Nat) := Fin (256 ^ size)

def zero (size : Nat) : Unsigned size := ⟨0, Nat.pow_pos (by decide)⟩

/-- The bytes of an integer, the lowest first. -/
def leBytes : Nat → Nat → Bytes
  | 0, _ => []
  | n + 1, v => UInt8.ofNat v :: leBytes n (v / 256)

/-- The bytes of an integer in memory. -/
def nativeBytes (e : Endian) {size : Nat} (v : Unsigned size) : Bytes :=
  match e with
  | .little => leBytes size v
  | .big => (leBytes size v).reverse

structure UserKey where
  userId : Unsigned 8
  region : Bytes

inductive PartType
  | uint (t : UIntType)
  | string
  | stringView
  | userKey

def PartType.Value : PartType → Type
  | .uint t => Unsigned t.size
  | .string | .stringView => Bytes
  | .userKey => UserKey

inductive Tag
  | bytes
  | string
  | userKey
  deriving DecidableEq

/-- The trait `KeyPartTag`. -/
def PartType.tag : PartType → Tag
  | .uint _ => .bytes
  | .string | .stringView => .string
  | .userKey => .userKey

def appendBytes (out data : Bytes) : Bytes := out ++ data

/-- The delimiter is a zero byte. -/
def appendString (out s : Bytes) : Bytes := appendBytes out s ++ [0]

/-- `append_part` for `BytesTag`. -/
def appendUInt (e : Endian) {size : Nat} (out : Bytes) (value : Unsigned size) : Bytes :=
  appendBytes out (nativeBytes e value)

/-- `append_part` for `UserKeyTag`. -/
def appendUserKey (e : Endian) (out : Bytes) (key : UserKey) : Bytes :=
  appendString (appendUInt e (out ++ [0xA5]) key.userId) key.region

def appendPart (e : Endian) (out : Bytes) : (t : PartType) → t.Value → Bytes
  | .uint _, value => appendUInt e out value
  | .string, value | .stringView, value => appendString out value
  | .userKey, value => appendUserKey e out value

/-- The values of a sequence of parts. -/
def Values : List PartType → Type
  | [] => Unit
  | t :: ts => t.Value × Values ts

def appendParts (e : Endian) (out : Bytes) : (ts : List PartType) → Values ts → Bytes
  | [], _ => out
  | t :: ts, values => appendParts e (appendPart e out t values.1) ts values.2

/-- The key of a sequence of parts. -/
def key (e : Endian) (ts : List PartType) (values : Values ts) : Bytes :=
  appendParts e [] ts values

/-- What a part appends. -/
def part (e : Endian) (t : PartType) (value : t.Value) : Bytes := appendPart e [] t value

/-! ## Appending only extends -/

variable {e : Endian} {ts : List PartType}

theorem appendPart_eq (e : Endian) (out : Bytes) (t : PartType) (value : t.Value) :
    appendPart e out t value = out ++ part e t value := by
  cases t with
  | uint t => rfl
  | string => exact List.append_assoc _ _ _
  | stringView => exact List.append_assoc _ _ _
  | userKey =>
    simp only [part, appendPart, appendUserKey, appendString, appendUInt, appendBytes,
      List.nil_append, List.append_assoc]

theorem appendParts_eq (e : Endian) (out : Bytes) (ts : List PartType) (values : Values ts) :
    appendParts e out ts values = out ++ key e ts values := by
  induction ts generalizing out with
  | nil => exact (List.append_nil out).symm
  | cons t ts ih =>
    rw [key, appendParts, appendParts, ih, ih, appendPart_eq e out, appendPart_eq e []]
    simp only [List.nil_append, List.append_assoc]

theorem key_cons (t : PartType) (value : t.Value) (values : Values ts) :
    key e (t :: ts) (value, values) = part e t value ++ key e ts values :=
  appendParts_eq e (part e t value) ts values

theorem part_userKey (value : UserKey) :
    part e .userKey value = 0xA5 :: nativeBytes e value.userId ++ (value.region ++ [0]) := by
  simp [part, appendPart, appendUserKey, appendString, appendUInt, appendBytes]

/-! ## Integers -/

theorem length_leBytes (n v : Nat) : (leBytes n v).length = n := by
  induction n generalizing v with
  | zero => rfl
  | succ n ih => rw [leBytes, List.length_cons, ih]

theorem length_nativeBytes (e : Endian) {size : Nat} (v : Unsigned size) :
    (nativeBytes e v).length = size := by
  cases e with
  | little => exact length_leBytes size v
  | big => exact (List.length_reverse).trans (length_leBytes size v)

/-- The integer with these bytes, the lowest first. -/
def ofLeBytes : Bytes → Nat
  | [] => 0
  | b :: bs => b.toNat + 256 * ofLeBytes bs

theorem ofLeBytes_leBytes {n v : Nat} (h : v < 256 ^ n) : ofLeBytes (leBytes n v) = v := by
  induction n generalizing v with
  | zero =>
    rw [Nat.pow_zero] at h
    exact (Nat.lt_one_iff.mp h).symm
  | succ n ih =>
    have hdiv : v / 256 < 256 ^ n := by
      rw [Nat.div_lt_iff_lt_mul (by decide), ← Nat.pow_succ]
      exact h
    rw [leBytes, ofLeBytes, ih hdiv, UInt8.toNat_ofNat']
    exact Nat.mod_add_div v 256

def ofNativeBytes (e : Endian) (size : Nat) (bs : Bytes) : Unsigned size :=
  ⟨ofLeBytes (match e with | .little => bs | .big => bs.reverse) % 256 ^ size,
    Nat.mod_lt _ (Nat.pow_pos (by decide))⟩

theorem ofNativeBytes_nativeBytes (e : Endian) {size : Nat} (v : Unsigned size) :
    ofNativeBytes e size (nativeBytes e v) = v := by
  refine Fin.ext ?_
  have hle : ofLeBytes (leBytes size v) % 256 ^ size = v := by
    rw [ofLeBytes_leBytes v.isLt, Nat.mod_eq_of_lt v.isLt]
  cases e with
  | little => exact hle
  | big =>
    simp only [ofNativeBytes, nativeBytes, List.reverse_reverse]
    exact hle

end BackendPatterns.CacheKey
