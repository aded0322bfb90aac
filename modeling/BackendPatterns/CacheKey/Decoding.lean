import BackendPatterns.Lib.Codec
import BackendPatterns.CacheKey.KeyParts

/-! # Reading a key back

Strings without a zero byte end at their delimiter, and integers have their
width; so the types of the parts are enough to read a key back, whatever bytes
the integers have. -/

namespace BackendPatterns.CacheKey
open BackendPatterns.Lib BackendPatterns.Lib.Codec

def NoNul (s : Bytes) : Prop := 0 ∉ s

instance (s : Bytes) : Decidable (NoNul s) := inferInstanceAs (Decidable (_ ∉ _))

/-- The strings of a part have no zero byte. -/
def NulFree : (t : PartType) → t.Value → Prop
  | .uint _, _ => True
  | .string, value | .stringView, value => NoNul value
  | .userKey, value => NoNul value.region

def AllNulFree : (ts : List PartType) → Values ts → Prop
  | [], _ => True
  | t :: ts, values => NulFree t values.1 ∧ AllNulFree ts values.2

/-- Reads a part of the type back. -/
def decodePart (e : Endian) : (t : PartType) → Decoder t.Value UInt8
  | .uint t => fixed t.size (ofNativeBytes e t.size)
  | .string | .stringView => delimited 0
  | .userKey => map (fun r => ⟨r.2.1, r.2.2⟩)
      (pair (literal 0xA5) (pair (fixed 8 (ofNativeBytes e 8)) (delimited 0)))

/-- Reads the parts of the types back, one after the other. -/
def decodeParts (e : Endian) : (ts : List PartType) → Decoder (Values ts) UInt8
  | [] => done
  | t :: ts => pair (decodePart e t) (decodeParts e ts)

theorem uint_decodes (e : Endian) (size : Nat) :
    Decodes (fixed size (ofNativeBytes e size)) (nativeBytes e) fun _ => True :=
  fixed_decodes (length_nativeBytes e) (ofNativeBytes_nativeBytes e)

theorem userKey_decodes (e : Endian) :
    Decodes (decodePart e .userKey) (part e .userKey) (NulFree .userKey) := by
  have hfields := (literal_decodes (0xA5 : UInt8)).pair
    ((uint_decodes e 8).pair (delimited_decodes (0 : UInt8)))
  have hkey := hfields.map (f := fun r => UserKey.mk r.2.1 r.2.2)
    (g := fun value => ((), value.userId, value.region)) fun _ => rfl
  intro (value : UserKey) hnul rest
  rw [part_userKey value]
  exact hkey value ⟨trivial, trivial, hnul⟩ rest

/-- Each part is read back, whatever follows it. -/
theorem part_decodes (e : Endian) (t : PartType) :
    Decodes (decodePart e t) (part e t) (NulFree t) := by
  cases t with
  | uint t => exact uint_decodes e t.size
  | string => exact delimited_decodes 0
  | stringView => exact delimited_decodes 0
  | userKey => exact userKey_decodes e

theorem key_decodes (e : Endian) (ts : List PartType) :
    Decodes (decodeParts e ts) (key e ts) (AllNulFree ts) := by
  induction ts with
  | nil => exact fun values _ rest => done_decodes values trivial rest
  | cons t ts ih =>
    intro values hnul rest
    have hpair := (part_decodes e t).pair ih
    rw [show key e (t :: ts) values = part e t values.1 ++ key e ts values.2 from
      key_cons t values.1 values.2]
    exact hpair values hnul rest

/-- Appending parts without zero bytes extends what was there by a key that the
types alone read back, exactly and whatever follows; no other key of these types
extends it. -/
theorem key_selfDelimiting (e : Endian) (ts : List PartType) {values : Values ts}
    (h : AllNulFree ts values) (out trailing : Bytes) :
    appendParts e out ts values = out ++ key e ts values ∧
      decodeParts e ts (key e ts values ++ trailing) = some (values, trailing) ∧
      ∀ values' : Values ts, AllNulFree ts values' → key e ts values <+: key e ts values' →
        values = values' :=
  ⟨appendParts_eq e out ts values, key_decodes e ts values h trailing,
    fun _ h' he => (key_decodes e ts).eq_of_isPrefix h h' he⟩

/-- The parts of the demo: a route, a request and a user. -/
def demoParts : List PartType := [.stringView, .uint .uint32, .userKey]

def demoValues : Values demoParts :=
  (str "/users/get", (⟨42, by decide⟩ : Unsigned 4), ⟨⟨9001, by decide⟩, str "us-east-1"⟩, ())

theorem key_selfDelimiting_demo :
    decodeParts .little demoParts (key .little demoParts demoValues ++ [0, 0xA5]) =
      some (demoValues, [0, 0xA5]) :=
  (@key_selfDelimiting .little demoParts demoValues
    ⟨(by decide : NoNul (str "/users/get")), trivial, (by decide : NoNul (str "us-east-1")),
      trivial⟩
    [] [0, 0xA5]).2.1

end BackendPatterns.CacheKey
