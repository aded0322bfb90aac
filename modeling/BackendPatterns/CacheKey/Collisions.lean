import BackendPatterns.CacheKey.KeyParts

/-! # Keys that collide

A string may have zero bytes, and then imitate the delimiter and whatever parts
come after it. With one string in a key its length still tells where it ends;
with two, there are always collisions. -/

namespace BackendPatterns.CacheKey
open BackendPatterns.Lib

/-- A part with a string in it. -/
def PartType.hasString (t : PartType) : Bool := t.tag != .bytes

variable {e : Endian} {t : PartType} {ts : List PartType}

/-! ## One string at most -/

theorem nativeBytes_inj {size : Nat} {v w : Unsigned size}
    (h : nativeBytes e v = nativeBytes e w) : v = w := by
  rw [← ofNativeBytes_nativeBytes e v, h, ofNativeBytes_nativeBytes]

theorem part_inj {v w : t.Value} (h : part e t v = part e t w) : v = w := by
  cases t with
  | uint t => exact nativeBytes_inj h
  | string => exact List.append_cancel_right h
  | stringView => exact List.append_cancel_right h
  | userKey =>
    obtain ⟨userId, region⟩ := v
    obtain ⟨userId', region'⟩ := w
    rw [part_userKey, part_userKey] at h
    obtain ⟨hid, hregion⟩ := List.append_inj h (by
      rw [List.length_cons, List.length_cons, length_nativeBytes, length_nativeBytes])
    have hsame : userId = userId' := nativeBytes_inj (List.cons.inj hid).2
    have hregions : region = region' := List.append_cancel_right hregion
    rw [hsame, hregions]

/-- A part without a string has its width. -/
theorem length_part (h : t.hasString = false) (v w : t.Value) :
    (part e t v).length = (part e t w).length := by
  cases t with
  | uint t => exact (length_nativeBytes e _).trans (length_nativeBytes e _).symm
  | _ => cases h

theorem length_key (h : ts.countP PartType.hasString = 0) (vs ws : Values ts) :
    (key e ts vs).length = (key e ts ws).length := by
  induction ts with
  | nil => rfl
  | cons t ts ih =>
    obtain ⟨v, vs⟩ := vs
    obtain ⟨w, ws⟩ := ws
    rw [List.countP_eq_zero] at h
    have hnot : t.hasString = false := by simpa using h t List.mem_cons_self
    have hrest := ih (List.countP_eq_zero.mpr fun x hx => h x (List.mem_cons_of_mem _ hx)) vs ws
    rw [key_cons, key_cons, List.length_append, List.length_append, length_part hnot v w, hrest]

/-- Where all parts but one have their width, the key tells them all. -/
theorem key_inj (h : ts.countP PartType.hasString ≤ 1) {vs ws : Values ts}
    (heq : key e ts vs = key e ts ws) : vs = ws := by
  induction ts with
  | nil => rfl
  | cons t ts ih =>
    obtain ⟨v, vs⟩ := vs
    obtain ⟨w, ws⟩ := ws
    rw [key_cons, key_cons] at heq
    have hsplit : part e t v = part e t w ∧ key e ts vs = key e ts ws := by
      by_cases ht : t.hasString = true
      · rw [List.countP_cons_of_pos ht] at h
        exact List.append_inj' heq (length_key (by omega) vs ws)
      · exact List.append_inj heq (length_part (by simpa using ht) v w)
    have hcount : ts.countP PartType.hasString ≤ 1 :=
      Nat.le_trans (List.sublist_cons_self t ts).countP_le h
    rw [part_inj hsplit.1, ih hcount hsplit.2]

/-! ## Two strings -/

def PartType.default : (t : PartType) → t.Value
  | .uint t => zero t.size
  | .string | .stringView => ([] : Bytes)
  | .userKey => ⟨zero 8, []⟩

def defaults : (ts : List PartType) → Values ts
  | [] => ()
  | t :: ts => (t.default, defaults ts)

/-- A part with a string is some bytes around any string. -/
theorem exists_part (e : Endian) (h : t.hasString = true) : ∃ (head : Bytes) (f : Bytes → t.Value),
    (∀ s, part e t (f s) = head ++ s ++ [0]) ∧ Function.Injective f := by
  cases t with
  | uint t => cases h
  | string => exact ⟨[], fun s => s, fun _ => rfl, fun _ _ hs => hs⟩
  | stringView => exact ⟨[], fun s => s, fun _ => rfl, fun _ _ hs => hs⟩
  | userKey =>
    refine ⟨0xA5 :: nativeBytes e (zero 8), fun s => (⟨zero 8, s⟩ : UserKey), fun s => ?_,
      fun _ _ hs => congrArg UserKey.region hs⟩
    rw [part_userKey, List.append_assoc]

/-- A key with a string part is some bytes around any string. -/
theorem exists_key (e : Endian) (h : 0 < ts.countP PartType.hasString) :
    ∃ (head tail : Bytes) (f : Bytes → Values ts),
      ∀ s, key e ts (f s) = head ++ s ++ [0] ++ tail := by
  induction ts with
  | nil => cases h
  | cons t ts ih =>
    by_cases ht : t.hasString = true
    · obtain ⟨head, f, hf, -⟩ := exists_part e ht
      refine ⟨head, key e ts (defaults ts), fun s => (f s, defaults ts), fun s => ?_⟩
      rw [key_cons, hf]
    · rw [List.countP_cons_of_neg ht] at h
      obtain ⟨head, tail, f, hf⟩ := ih h
      refine ⟨part e t t.default ++ head, tail, fun s => (t.default, f s), fun s => ?_⟩
      rw [key_cons, hf]
      simp only [List.append_assoc]

/-- The first of two strings takes in all that comes before the second, which
holds it once more. -/
theorem exists_collision (e : Endian) (h : 2 ≤ ts.countP PartType.hasString) :
    ∃ vs ws : Values ts, key e ts vs = key e ts ws ∧ vs ≠ ws := by
  induction ts with
  | nil => cases h
  | cons t ts ih =>
    by_cases ht : t.hasString = true
    · rw [List.countP_cons_of_pos ht] at h
      obtain ⟨head, f, hf, hinj⟩ := exists_part e ht
      obtain ⟨head', tail, g, hg⟩ := exists_key e (show 0 < ts.countP PartType.hasString by omega)
      refine ⟨(f [], g ([0] ++ head')), (f ([0] ++ head'), g []), ?_, ?_⟩
      · rw [key_cons, key_cons, hf, hf, hg, hg]
        simp only [List.append_assoc, List.nil_append]
      · intro heq
        have hempty := hinj (congrArg Prod.fst heq)
        simp at hempty
    · rw [List.countP_cons_of_neg ht] at h
      obtain ⟨vs, ws, heq, hne⟩ := ih h
      refine ⟨(t.default, vs), (t.default, ws), ?_, fun hsame => hne (congrArg Prod.snd hsame)⟩
      rw [key_cons, key_cons, heq]

/-- Keys of one shape never collide if and only if the shape has at most one part
with a string in it. -/
theorem keys_distinct_iff (e : Endian) (ts : List PartType) :
    (∀ vs ws : Values ts, key e ts vs = key e ts ws → vs = ws) ↔
      ts.countP PartType.hasString ≤ 1 := by
  refine ⟨fun h => ?_, fun h vs ws heq => key_inj h heq⟩
  refine Nat.le_of_not_lt fun hcount => ?_
  obtain ⟨vs, ws, heq, hne⟩ := exists_collision e (show 2 ≤ ts.countP PartType.hasString by omega)
  exact hne (h vs ws heq)

/-- A user's region that holds a delimiter makes two keys one. -/
theorem keys_collide : ∃ vs ws : Values [.string, .string],
    vs = (str "alice", ([0] ++ str "admin" : Bytes), ()) ∧
      ws = (str "alice" ++ [0], (str "admin" : Bytes), ()) ∧
      key .little [.string, .string] vs = key .little [.string, .string] ws ∧ vs ≠ ws := by
  refine ⟨_, _, rfl, rfl, by decide, fun heq => ?_⟩
  have hfirst := congrArg Prod.fst heq
  exact absurd hfirst (by decide : str "alice" ≠ str "alice" ++ [0])

end BackendPatterns.CacheKey
