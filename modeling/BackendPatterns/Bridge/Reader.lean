import BackendPatterns.Bridge.Json

/-! # Reading the JSON format

A reader of string literals gets back the level, the message and the fields of an
event, whatever bytes they have. -/

namespace BackendPatterns.Bridge
open BackendPatterns.Lib BackendPatterns.Lib.Json

/-- What a byte after a backslash stands for. -/
def unescape (b : UInt8) : Bytes :=
  if b = backslash then [backslash]
  else if b = quote then [quote]
  else if b = 0x6E then [newline]
  else [backslash, b]

/-- A reader of string literals: those it has read, and what it has of the next. -/
structure Reader where
  mode : Mode
  literals : List Bytes
  text : Bytes

def Reader.step (r : Reader) (b : UInt8) : Reader :=
  match r.mode with
  | .outside => ⟨r.mode.next b, r.literals, []⟩
  | .inside =>
    if b = backslash then ⟨.escaped, r.literals, r.text⟩
    else if b = quote then ⟨.outside, r.literals ++ [r.text], []⟩
    else ⟨.inside, r.literals, r.text ++ [b]⟩
  | .escaped => ⟨.inside, r.literals, r.text ++ unescape b⟩

def Reader.run (r : Reader) (s : Bytes) : Reader := s.foldl Reader.step r

/-- Keys and values in turn. -/
def fieldsOf : List Bytes → Option (List LogField)
  | [] => some []
  | [_] => none
  | key :: value :: literals => (fieldsOf literals).map fun fields => ⟨key, value⟩ :: fields

/-- The event of a list of members. -/
def eventOf : List LogField → Option LogEvent
  | level :: message :: fields =>
    if level.key = str "level" ∧ message.key = str "msg" then
      some ⟨level.value, message.value, fields⟩
    else none
  | _ => none

/-- Reads an event back; no literal may be left open. -/
def readEvent (s : Bytes) : Option LogEvent :=
  let r := Reader.run ⟨.outside, [], []⟩ s
  if r.mode = .outside then (fieldsOf r.literals).bind eventOf else none

/-! ## Literals -/

theorem run_append (r : Reader) (s t : Bytes) : r.run (s ++ t) = (r.run s).run t :=
  List.foldl_append

theorem run_escapeChar (literals : List Bytes) (text : Bytes) (b : UInt8) :
    Reader.run ⟨.inside, literals, text⟩ (escapeChar b) = ⟨.inside, literals, text ++ [b]⟩ := by
  rcases escapeChar_cases b with ⟨e, he, hescape⟩ | ⟨hbackslash, hquote, hnewline, hescape⟩
  · have hunescape : unescape e = [b] := by
      rcases he with ⟨rfl, rfl⟩ | ⟨rfl, rfl⟩ | ⟨rfl, rfl⟩ <;> decide
    rw [hescape, ← hunescape]
    rfl
  · rw [hescape]
    exact (if_neg hbackslash).trans (if_neg hquote)

theorem run_escapeJson (literals : List Bytes) (text s : Bytes) :
    Reader.run ⟨.inside, literals, text⟩ (escapeJson s) = ⟨.inside, literals, text ++ s⟩ := by
  induction s generalizing text with
  | nil => rw [List.append_nil]; rfl
  | cons b s ih =>
    rw [escapeJson_cons, run_append, run_escapeChar, ih, List.append_assoc, List.singleton_append]

theorem run_quoted (literals : List Bytes) (s : Bytes) :
    Reader.run ⟨.outside, literals, []⟩ (quoted s) = ⟨.outside, literals ++ [s], []⟩ := by
  have hopen : Reader.run ⟨.outside, literals, []⟩ [quote] = ⟨.inside, literals, []⟩ := rfl
  rw [quoted, ← List.singleton_append, run_append, hopen, run_append, run_escapeJson,
    List.nil_append]
  rfl

/-! ## Members -/

def literalsOf (fields : List LogField) : List Bytes :=
  fields.flatMap fun field => [field.key, field.value]

theorem fieldsOf_literalsOf (fields : List LogField) :
    fieldsOf (literalsOf fields) = some fields := by
  induction fields with
  | nil => rfl
  | cons field fields ih =>
    have hcons : literalsOf (field :: fields) = field.key :: field.value :: literalsOf fields := rfl
    rw [hcons, fieldsOf, ih, Option.map_some]

theorem run_member (literals : List Bytes) (field : LogField) :
    Reader.run ⟨.outside, literals, []⟩ field.member =
      ⟨.outside, literals ++ [field.key, field.value], []⟩ := by
  have hcolon : ∀ literals, Reader.run ⟨.outside, literals, []⟩ [0x3A] =
      ⟨.outside, literals, []⟩ := fun _ => rfl
  rw [LogField.member, run_append, run_quoted, run_append, hcolon, run_quoted, List.append_assoc,
    List.singleton_append]

theorem run_moreMembers (literals : List Bytes) (fields : List LogField) :
    Reader.run ⟨.outside, literals, []⟩ (moreMembers fields) =
      ⟨.outside, literals ++ literalsOf fields, []⟩ := by
  induction fields generalizing literals with
  | nil => rw [literalsOf, List.flatMap_nil, List.append_nil]; rfl
  | cons field fields ih =>
    have hcomma : Reader.run ⟨.outside, literals, []⟩ [0x2C] = ⟨.outside, literals, []⟩ := rfl
    rw [moreMembers_cons, run_append, hcomma, run_append, run_member, ih, List.append_assoc]
    rfl

/-- The literals of the format are the keys and the values of its members. -/
theorem run_format (event : LogEvent) :
    Reader.run ⟨.outside, [], []⟩ (jsonLogger.format event) =
      ⟨.outside, literalsOf event.members, []⟩ := by
  have hopen : Reader.run ⟨.outside, [], []⟩ [0x7B] = ⟨.outside, [], []⟩ := rfl
  obtain ⟨level, message, fields⟩ := event
  rw [format_eq, run_append, hopen, run_append, run_member, run_append, run_moreMembers]
  rfl

/-! ## Events -/

theorem eventOf_members (event : LogEvent) : eventOf event.members = some event :=
  show (if str "level" = str "level" ∧ str "msg" = str "msg" then some event else none) = _ from
    if_pos ⟨rfl, rfl⟩

theorem readEvent_format (event : LogEvent) :
    readEvent (jsonLogger.format event) = some event := by
  rw [readEvent, run_format, if_pos rfl, fieldsOf_literalsOf, Option.bind_some, eventOf_members]

/-- The reader recovers every event from its JSON format, so no two events have
the same, and the format is one line. -/
theorem format_lossless :
    (∀ event, readEvent (jsonLogger.format event) = some event) ∧
    Function.Injective jsonLogger.format ∧
    ∀ event, newline ∉ jsonLogger.format event := by
  refine ⟨readEvent_format, fun event event' heq => ?_, newline_not_mem_json⟩
  have hread := readEvent_format event
  rw [heq, readEvent_format] at hread
  exact (Option.some.inj hread).symm

end BackendPatterns.Bridge
