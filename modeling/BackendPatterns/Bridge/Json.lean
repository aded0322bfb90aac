import BackendPatterns.Lib.Json
import BackendPatterns.Bridge.Lines

/-! # The JSON format as JSON

Of the characters that a string literal may not have, `escape_json` escapes three:
the backslash, the quote and the line break. The other control characters pass. -/

namespace BackendPatterns.Bridge
open BackendPatterns.Lib BackendPatterns.Lib.Json

/-- No control character but line breaks. -/
def Clean (s : Bytes) : Prop := ∀ b ∈ s, 0x20 ≤ b ∨ b = newline

instance (s : Bytes) : Decidable (Clean s) := List.decidableBAll _ s

/-- The members of the object, the two fixed ones first. -/
def LogEvent.members (event : LogEvent) : List LogField :=
  ⟨str "level", event.level⟩ :: ⟨str "msg", event.message⟩ :: event.fields

/-- All texts of an event are UTF-8. -/
def LogEvent.Utf8 (event : LogEvent) : Prop :=
  ∀ field ∈ event.members, Json.Utf8 field.key ∧ Json.Utf8 field.value

def LogEvent.Clean (event : LogEvent) : Prop :=
  ∀ field ∈ event.members, Bridge.Clean field.key ∧ Bridge.Clean field.value

instance (event : LogEvent) : Decidable event.Clean := List.decidableBAll _ event.members

/-! ## The format by members -/

def quoted (s : Bytes) : Bytes := quote :: (escapeJson s ++ [quote])

def LogField.member (field : LogField) : Bytes :=
  quoted field.key ++ ([0x3A] ++ quoted field.value)

/-- Members after the first one. -/
def moreMembers (fields : List LogField) : Bytes :=
  fields.flatMap fun field => [0x2C] ++ field.member

theorem moreMembers_cons (field : LogField) (fields : List LogField) :
    moreMembers (field :: fields) = [0x2C] ++ (field.member ++ moreMembers fields) := rfl

theorem escapeJson_append (s t : Bytes) : escapeJson (s ++ t) = escapeJson s ++ escapeJson t := by
  rw [escapeJson_eq, escapeJson_eq, escapeJson_eq, List.flatMap_append]

theorem escapeJson_cons (b : UInt8) (s : Bytes) :
    escapeJson (b :: s) = escapeChar b ++ escapeJson s := by
  rw [escapeJson_eq, escapeJson_eq, List.flatMap_cons]

theorem format_eq (level message : Bytes) (fields : List LogField) :
    jsonLogger.format ⟨level, message, fields⟩ = [0x7B] ++
      ((LogField.mk (str "level") level).member ++
        (moreMembers (⟨str "msg", message⟩ :: fields) ++ [0x7D])) := by
  rw [jsonLogger_format]
  have hlevel : str "\"level\":\"" = quoted (str "level") ++ [0x3A, quote] := by decide
  have hmsg : str ",\"msg\":\"" = 0x2C :: (quoted (str "msg") ++ [0x3A, quote]) := by decide
  have hopen : str "\x7b" = [0x7B] := by decide
  have hclose : str "\x7d" = [0x7D] := by decide
  have hquote : str "\"" = [quote] := by decide
  have hcomma : str ",\"" = [0x2C, quote] := by decide
  have hcolon : str "\":\"" = [quote, 0x3A, quote] := by decide
  rw [hlevel, hmsg, hopen, hclose, hquote, hcomma, hcolon]
  simp [moreMembers, LogField.member, quoted]

/-! ## Escapes -/

/-- What may follow the backslash of an escape, and the byte that it stands for. -/
def Escaped (e b : UInt8) : Prop :=
  (e = backslash ∧ b = backslash) ∨ (e = quote ∧ b = quote) ∨ (e = 0x6E ∧ b = newline)

/-- A byte is escaped, or it is an ordinary one and stays. -/
theorem escapeChar_cases (b : UInt8) : (∃ e, Escaped e b ∧ escapeChar b = [backslash, e]) ∨
    (b ≠ backslash ∧ b ≠ quote ∧ b ≠ newline ∧ escapeChar b = [b]) := by
  by_cases hbackslash : b = backslash
  · exact Or.inl ⟨backslash, Or.inl ⟨rfl, hbackslash⟩, by rw [hbackslash]; decide⟩
  by_cases hquote : b = quote
  · exact Or.inl ⟨quote, Or.inr (Or.inl ⟨rfl, hquote⟩), by rw [hquote]; decide⟩
  by_cases hnewline : b = newline
  · exact Or.inl ⟨0x6E, Or.inr (Or.inr ⟨rfl, hnewline⟩), by rw [hnewline]; decide⟩
  · refine Or.inr ⟨hbackslash, hquote, hnewline, ?_⟩
    exact (if_neg hbackslash).trans ((if_neg hquote).trans (if_neg hnewline))

theorem Escaped.le {e b : UInt8} (h : Escaped e b) : 0x20 ≤ e := by
  rcases h with ⟨rfl, -⟩ | ⟨rfl, -⟩ | ⟨rfl, -⟩ <;> decide

theorem Escaped.clean {e b : UInt8} (h : Escaped e b) : 0x20 ≤ b ∨ b = newline := by
  rcases h with ⟨-, rfl⟩ | ⟨-, rfl⟩ | ⟨-, rfl⟩ <;> decide

/-! ## Control characters -/

theorem scan_escapeChar (b : UInt8) (s : Bytes) (mode : Mode) :
    scan .inside (escapeChar b ++ s) = some mode ↔
      (0x20 ≤ b ∨ b = newline) ∧ scan .inside s = some mode := by
  rcases escapeChar_cases b with ⟨e, he, hescape⟩ | ⟨hbackslash, hquote, hnewline, hescape⟩
  · rw [hescape, List.cons_append, List.singleton_append, scan_backslash he.le]
    exact (and_iff_right he.clean).symm
  · rw [hescape, List.singleton_append, scan]
    have hnext : Mode.inside.next b = .inside := (if_neg hbackslash).trans (if_neg hquote)
    by_cases hlow : b < 0x20
    · rw [if_pos ⟨by decide, hlow⟩]
      exact iff_of_false (Option.some_ne_none mode).symm fun h =>
        h.1.elim (UInt8.not_le.mpr hlow) hnewline
    · rw [if_neg (fun h => hlow h.2), hnext]
      exact (and_iff_right (Or.inl (UInt8.not_lt.mp hlow))).symm

theorem scan_escapeJson (s rest : Bytes) (mode : Mode) :
    scan .inside (escapeJson s ++ rest) = some mode ↔
      Clean s ∧ scan .inside rest = some mode := by
  induction s with
  | nil => exact (and_iff_right fun _ h => nomatch h).symm
  | cons b s ih =>
    rw [escapeJson_cons, List.append_assoc, scan_escapeChar, ih, ← and_assoc, Clean, Clean,
      List.forall_mem_cons]

theorem scan_quoted (s rest : Bytes) (mode : Mode) :
    scan .outside (quoted s ++ rest) = some mode ↔
      Clean s ∧ scan .outside rest = some mode := by
  have hopen : scan .outside [quote] = some .inside := rfl
  have hclose : scan .inside [quote] = some .outside := rfl
  rw [quoted, ← List.singleton_append, List.append_assoc, scan_trans hopen, List.append_assoc,
    scan_escapeJson, scan_trans hclose]

theorem scan_member (field : LogField) (rest : Bytes) (mode : Mode) :
    scan .outside (field.member ++ rest) = some mode ↔
      (Clean field.key ∧ Clean field.value) ∧ scan .outside rest = some mode := by
  have hcolon : scan .outside [0x3A] = some .outside := rfl
  rw [LogField.member, List.append_assoc, scan_quoted, List.append_assoc, scan_trans hcolon,
    scan_quoted, and_assoc]

theorem scan_moreMembers (fields : List LogField) (rest : Bytes) (mode : Mode) :
    scan .outside (moreMembers fields ++ rest) = some mode ↔
      (∀ field ∈ fields, Clean field.key ∧ Clean field.value) ∧
        scan .outside rest = some mode := by
  have hcomma : scan .outside [0x2C] = some .outside := rfl
  induction fields with
  | nil => exact (and_iff_right fun _ h => nomatch h).symm
  | cons field fields ih =>
    rw [moreMembers_cons, List.append_assoc, scan_trans hcomma, List.append_assoc, scan_member,
      List.forall_mem_cons]
    exact (and_congr_right fun _ => ih).trans and_assoc.symm

/-- No string literal of the format has a control character if and only if no text
of the event has one but line breaks. -/
theorem scan_format (event : LogEvent) :
    scan .outside (jsonLogger.format event) = some .outside ↔ event.Clean := by
  have hopen : scan .outside [0x7B] = some .outside := rfl
  have hclose : scan .outside [0x7D] = some .outside := rfl
  obtain ⟨level, message, fields⟩ := event
  have hmembers : LogEvent.Clean ⟨level, message, fields⟩ ↔
      (Clean (str "level") ∧ Clean level) ∧
        ∀ field ∈ LogField.mk (str "msg") message :: fields, Clean field.key ∧ Clean field.value :=
    List.forall_mem_cons
  rw [format_eq, scan_trans hopen, scan_member, scan_moreMembers, hmembers, and_iff_left hclose]

/-! ## The grammar -/

theorem escapeJson_of_ordinary {s : Bytes}
    (h : ∀ b ∈ s, b ≠ backslash ∧ b ≠ quote ∧ b ≠ newline) : escapeJson s = s := by
  induction s with
  | nil => rfl
  | cons b s ih =>
    rw [List.forall_mem_cons] at h
    rcases escapeChar_cases b with ⟨e, he, -⟩ | ⟨-, -, -, hstays⟩
    · rcases he with ⟨-, rfl⟩ | ⟨-, rfl⟩ | ⟨-, rfl⟩
      · exact absurd rfl h.1.1
      · exact absurd rfl h.1.2.1
      · exact absurd rfl h.1.2.2
    · rw [escapeJson_cons, hstays, ih h.2, List.singleton_append]

theorem chars_escapeChar {c : Char} (h : ∀ b ∈ String.utf8EncodeChar c, 0x20 ≤ b ∨ b = newline) :
    Chars (escapeJson (String.utf8EncodeChar c)) := by
  rcases utf8EncodeChar_cases c with ⟨b, hone, heq⟩ | habove
  · rw [hone, escapeJson_cons, show escapeJson [] = [] from rfl, List.append_nil]
    rw [hone, List.forall_mem_singleton] at h
    rcases escapeChar_cases b with ⟨e, he, hescape⟩ | ⟨hbackslash, hquote, hnewline, hescape⟩
    · rw [hescape]
      refine .one (.escaped ?_)
      rcases he with ⟨rfl, -⟩ | ⟨rfl, -⟩ | ⟨rfl, -⟩ <;> decide
    · rw [hescape, ← hone]
      refine .one (.unescaped ?_ ?_ ?_)
      · rw [← heq]
        exact UInt8.le_iff_toNat_le.mp (h.resolve_right hnewline)
      · rintro rfl
        exact hquote (UInt8.toNat_inj.mp heq)
      · rintro rfl
        exact hbackslash (UInt8.toNat_inj.mp heq)
  · obtain ⟨habove, hbytes⟩ := habove
    have hordinary : ∀ b ∈ String.utf8EncodeChar c, b ≠ backslash ∧ b ≠ quote ∧ b ≠ newline := by
      intro b hb
      have hb := hbytes b hb
      refine ⟨?_, ?_, ?_⟩
      · rintro rfl; exact absurd hb (by decide)
      · rintro rfl; exact absurd hb (by decide)
      · rintro rfl; exact absurd hb (by decide)
    rw [escapeJson_of_ordinary hordinary]
    refine .one (.unescaped (by omega) ?_ ?_)
    · rintro rfl; exact absurd habove (by decide)
    · rintro rfl; exact absurd habove (by decide)

theorem chars_escapeJson {s : Bytes} (hutf8 : Json.Utf8 s) (h : Clean s) :
    Chars (escapeJson s) := by
  obtain ⟨text, rfl⟩ := hutf8
  induction text with
  | nil => exact Chars.nil
  | cons c text ih =>
    rw [List.flatMap_cons] at h ⊢
    rw [escapeJson_append]
    exact (chars_escapeChar fun b hb => h b (List.mem_append_left _ hb)).append
      (ih fun b hb => h b (List.mem_append_right _ hb))

theorem derives_member {field : LogField} (hutf8 : Json.Utf8 field.key ∧ Json.Utf8 field.value)
    (h : Clean field.key ∧ Clean field.value) : Derives .member field.member :=
  .member (.mk (chars_escapeJson hutf8.1 h.1)) (Structural.one _)
    (.string (.mk (chars_escapeJson hutf8.2 h.2)))

theorem derives_members (field : LogField) (fields : List LogField)
    (hutf8 : ∀ f ∈ field :: fields, Json.Utf8 f.key ∧ Json.Utf8 f.value)
    (h : ∀ f ∈ field :: fields, Clean f.key ∧ Clean f.value) :
    Derives .members (field.member ++ moreMembers fields) := by
  induction fields generalizing field with
  | nil =>
    rw [moreMembers, List.flatMap_nil, List.append_nil]
    exact .oneMember (derives_member (hutf8 _ List.mem_cons_self) (h _ List.mem_cons_self))
  | cons next fields ih =>
    rw [moreMembers_cons]
    rw [List.forall_mem_cons] at hutf8 h
    exact .moreMembers (derives_member hutf8.1 h.1) (Structural.one _) (ih next hutf8.2 h.2)

/-- The JSON format of an event in UTF-8 is a JSON object if and only if no text of
the event has a control character, line breaks apart. -/
theorem format_object_iff (event : LogEvent) (h : event.Utf8) :
    Derives .object (jsonLogger.format event) ↔ event.Clean := by
  refine ⟨fun hobject => (scan_format event).mp hobject.scan, fun hclean => ?_⟩
  obtain ⟨level, message, fields⟩ := event
  rw [format_eq, ← List.append_assoc (LogField.member _)]
  exact .members (Structural.one _) (derives_members _ _ h hclean) (Structural.one _)

/-- A line break in a message and a quote in a value: still an object. -/
theorem format_object_iff_escaped : Derives .object (jsonLogger.format
    ⟨str "INFO", str "a\nb", [⟨str "q", str "\""⟩]⟩) := by
  have hutf8 : LogEvent.Utf8 ⟨str "INFO", str "a\nb", [⟨str "q", str "\""⟩]⟩ := by
    intro field hfield
    simp only [LogEvent.members, List.mem_cons, List.not_mem_nil, or_false] at hfield
    rcases hfield with rfl | rfl | rfl
    · exact ⟨⟨"level".toList, by decide⟩, ⟨"INFO".toList, by decide⟩⟩
    · exact ⟨⟨"msg".toList, by decide⟩, ⟨"a\nb".toList, by decide⟩⟩
    · exact ⟨⟨"q".toList, by decide⟩, ⟨"\"".toList, by decide⟩⟩
  exact (format_object_iff _ hutf8).mpr (by decide)

/-- A tab in a message. -/
def tabbed : LogEvent := ⟨str "INFO", str "disk\tfull", []⟩

/-- The tab stands in the format as it is, and the format is no JSON. -/
theorem tabbed_not_object :
    tabbed.Utf8 ∧ ¬ Derives .object (jsonLogger.format tabbed) := by
  refine ⟨?_, ?_⟩
  · intro field hfield
    simp only [tabbed, LogEvent.members, List.mem_cons, List.not_mem_nil, or_false] at hfield
    rcases hfield with rfl | rfl
    · exact ⟨⟨"level".toList, by decide⟩, ⟨"INFO".toList, by decide⟩⟩
    · exact ⟨⟨"msg".toList, by decide⟩, ⟨"disk\tfull".toList, by decide⟩⟩
  · intro hobject
    have hstops : scan .outside (jsonLogger.format tabbed) = none := by decide
    rw [hobject.scan] at hstops
    cases hstops

end BackendPatterns.Bridge
