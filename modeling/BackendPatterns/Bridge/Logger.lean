import BackendPatterns.Lib.Bytes

/-! # Loggers and their sinks

A logger formats an event as a line and gives it to its sink. There are two
formats and two sinks, in any combination. -/

namespace BackendPatterns.Bridge
open BackendPatterns.Lib

def newline : UInt8 := 10

structure LogField where
  key : Bytes
  value : Bytes

structure LogEvent where
  level : Bytes
  message : Bytes
  fields : List LogField

/-- A sink with objects `S`. -/
structure LogSink (S : Type) where
  writeLine : S → Bytes → S

/-- `StdoutSink`, where the object is what stands on `stdout`: `log_line` prints
its parts and then ends the line. -/
def stdoutSink : LogSink Bytes := ⟨fun stdout line => stdout ++ line ++ [newline]⟩

/-- `InMemorySink`, where the object is `lines_`. -/
def inMemorySink : LogSink (List Bytes) := ⟨fun lines line => lines ++ [line]⟩

/-- What a class derived from `Logger` adds to it. -/
structure Logger where
  format : LogEvent → Bytes

def escapeChar (ch : UInt8) : Bytes :=
  if ch = 92 then str "\\\\"
  else if ch = 34 then str "\\\""
  else if ch = newline then str "\\n"
  else [ch]

def escapeJson (s : Bytes) : Bytes := s.foldl (fun out ch => out ++ escapeChar ch) []

def textLogger : Logger where
  format event := event.fields.foldl
    (fun out field => out ++ str " " ++ field.key ++ str "=" ++ field.value)
    (event.level ++ str " " ++ event.message)

def jsonLogger : Logger where
  format event := event.fields.foldl
    (fun out field => out ++ str ",\"" ++ escapeJson field.key ++ str "\":\"" ++
      escapeJson field.value ++ str "\"")
    (str "\x7b" ++ (str "\"level\":\"" ++ escapeJson event.level ++ str "\"") ++
      (str ",\"msg\":\"" ++ escapeJson event.message ++ str "\"")) ++ str "\x7d"

inductive Call
  | info (message : Bytes) (fields : List LogField)
  | warn (message : Bytes) (fields : List LogField)

def Call.event : Call → LogEvent
  | .info message fields => ⟨str "INFO", message, fields⟩
  | .warn message fields => ⟨str "WARN", message, fields⟩

variable {S : Type}

def Logger.emit (logger : Logger) (sink : LogSink S) (s : S) (event : LogEvent) : S :=
  sink.writeLine s (logger.format event)

/-- The sink after a sequence of calls on a logger. -/
def Logger.run (logger : Logger) (sink : LogSink S) (s : S) (calls : List Call) : S :=
  calls.foldl (fun s call => logger.emit sink s call.event) s

end BackendPatterns.Bridge
