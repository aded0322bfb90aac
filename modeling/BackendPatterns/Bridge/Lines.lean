import BackendPatterns.Lib.Frames
import BackendPatterns.Bridge.Logger

/-! # One event, one line

The sinks agree as long as a formatted event has no line break in it. The JSON
format escapes them; the text format passes on those of the message and the
fields. -/

namespace BackendPatterns.Bridge
open BackendPatterns.Lib BackendPatterns.Lib.Frames

/-- No text that the caller provides has a line break. -/
def Call.Plain (call : Call) : Prop :=
  newline ∉ call.event.message ∧
    ∀ field ∈ call.event.fields, newline ∉ field.key ∧ newline ∉ field.value

variable (logger : Logger)

/-- The lines of an in-memory sink are the formatted events. -/
theorem run_inMemory (lines : List Bytes) (calls : List Call) :
    logger.run inMemorySink lines calls =
      lines ++ calls.map fun call => logger.format call.event := by
  induction calls generalizing lines with
  | nil => simp [Logger.run]
  | cons call calls ih =>
    have hstep : logger.run inMemorySink lines (call :: calls) =
        logger.run inMemorySink (lines ++ [logger.format call.event]) calls := rfl
    rw [hstep, ih, List.map_cons, List.append_assoc, List.cons_append, List.nil_append]

/-- `stdout` carries the formatted events, each ended by a line break. -/
theorem run_stdout (stdout : Bytes) (calls : List Call) :
    logger.run stdoutSink stdout calls =
      stdout ++ unframe newline (calls.map fun call => logger.format call.event) := by
  induction calls generalizing stdout with
  | nil => simp [Logger.run]
  | cons call calls ih =>
    have hstep : logger.run stdoutSink stdout (call :: calls) =
        logger.run stdoutSink (stdout ++ logger.format call.event ++ [newline]) calls := rfl
    rw [hstep, ih, List.map_cons, unframe_cons]
    simp only [List.append_assoc, List.cons_append, List.nil_append]

/-- The sinks agree exactly when no formatted event has a line break. -/
theorem sinks_agree_iff (calls : List Call) :
    frames newline (logger.run stdoutSink [] calls) = logger.run inMemorySink [] calls ↔
      ∀ call ∈ calls, newline ∉ logger.format call.event := by
  rw [run_stdout, run_inMemory, List.nil_append, List.nil_append, frames_unframe_iff,
    List.forall_mem_map]

/-! ## Formats -/

theorem level_plain (call : Call) : newline ∉ call.event.level := by
  cases call with
  | info => exact (by decide : newline ∉ str "INFO")
  | warn => exact (by decide : newline ∉ str "WARN")

theorem newline_not_mem_escapeChar (ch : UInt8) : newline ∉ escapeChar ch := by
  unfold escapeChar
  split
  · decide
  split
  · decide
  split
  · decide
  · simpa using Ne.symm ‹_›

theorem escapeJson_eq (s : Bytes) : escapeJson s = s.flatMap escapeChar := by
  rw [escapeJson, List.foldl_append_eq_append, List.nil_append, List.flatMap_def]

theorem newline_not_mem_escapeJson (s : Bytes) : newline ∉ escapeJson s := by
  rw [escapeJson_eq]
  simpa using fun ch _ => newline_not_mem_escapeChar ch

theorem textLogger_format (event : LogEvent) :
    textLogger.format event = event.level ++ str " " ++ event.message ++
      event.fields.flatMap fun field => str " " ++ field.key ++ str "=" ++ field.value := by
  simp only [textLogger, List.append_assoc]
  rw [List.foldl_append_eq_append, List.flatMap_def]
  simp only [List.append_assoc]

theorem jsonLogger_format (event : LogEvent) :
    jsonLogger.format event =
      str "\x7b" ++ (str "\"level\":\"" ++ escapeJson event.level ++ str "\"") ++
      (str ",\"msg\":\"" ++ escapeJson event.message ++ str "\"") ++
      (event.fields.flatMap fun field => str ",\"" ++ escapeJson field.key ++ str "\":\"" ++
        escapeJson field.value ++ str "\"") ++ str "\x7d" := by
  simp only [jsonLogger, List.append_assoc]
  rw [List.foldl_append_eq_append, List.flatMap_def]
  simp only [List.append_assoc]

/-- The text format has the line breaks of the message and the fields. -/
theorem newline_not_mem_text (call : Call) :
    newline ∉ textLogger.format call.event ↔ call.Plain := by
  have hspace : newline ∉ str " " := by decide
  have hequals : newline ∉ str "=" := by decide
  simp [textLogger_format, Call.Plain, level_plain call, hspace, hequals]

/-- The JSON format has none. -/
theorem newline_not_mem_json (event : LogEvent) : newline ∉ jsonLogger.format event := by
  have hquote : newline ∉ str "\"" := by decide
  have hlevel : newline ∉ str "\"level\":\"" := by decide
  have hmsg : newline ∉ str ",\"msg\":\"" := by decide
  have hcolon : newline ∉ str "\":\"" := by decide
  have hcomma : newline ∉ str ",\"" := by decide
  have hopen : newline ∉ str "\x7b" := by decide
  have hclose : newline ∉ str "\x7d" := by decide
  simp [jsonLogger_format, newline_not_mem_escapeJson, hquote, hlevel, hmsg, hcolon, hcomma, hopen,
    hclose]

/-! ## Both sinks -/

/-- Over the same calls the lines on `stdout` are those of an in-memory sink: for a
JSON logger always, for a text logger if and only if no message, key or value has
a line break. -/
theorem same_lines_iff (calls : List Call) :
    frames newline (jsonLogger.run stdoutSink [] calls) = jsonLogger.run inMemorySink [] calls ∧
    (frames newline (textLogger.run stdoutSink [] calls) = textLogger.run inMemorySink [] calls ↔
      ∀ call ∈ calls, call.Plain) := by
  rw [sinks_agree_iff, sinks_agree_iff]
  refine ⟨fun call _ => newline_not_mem_json call.event, ?_⟩
  simp only [newline_not_mem_text]

/-- A user's text that looks like a second event. -/
def forged : List Call := [.info (str "login failed\nWARN disk full") []]

/-- One call puts two lines on `stdout`, and one in memory. -/
theorem forged_lines :
    frames newline (textLogger.run stdoutSink [] forged) =
        [str "INFO login failed", str "WARN disk full"] ∧
      textLogger.run inMemorySink [] forged = [str "INFO login failed\nWARN disk full"] ∧
      frames newline (textLogger.run stdoutSink [] forged) ≠
        textLogger.run inMemorySink [] forged := by
  decide

end BackendPatterns.Bridge
