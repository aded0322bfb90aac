/-! # The database client and its commands

A command is a call on a receiver, stored to be made later. Executing it may
change the receiver and either returns or throws. -/

namespace BackendPatterns.Commands

/-- `lines` is what the client has logged. -/
structure PostgresClient where
  host : String
  port : Int
  dbname : String
  connected : Bool
  lines : List String

namespace PostgresClient

def make (host : String) (port : Int) (dbname : String) : PostgresClient :=
  ⟨host, port, dbname, true, []⟩

def logLine (pg : PostgresClient) (line : String) : PostgresClient :=
  { pg with lines := pg.lines ++ [line] }

/-- A statement needs the connection. -/
def statement (pg : PostgresClient) (line : String) : Except String Unit × PostgresClient :=
  if pg.connected then (.ok (), pg.logLine line) else (.error "postgres connection lost", pg)

def insert (pg : PostgresClient) (table data : String) : Except String Unit × PostgresClient :=
  pg.statement s!"[PG] INSERT INTO {table} VALUES ({data})"

def update (pg : PostgresClient) (table id data : String) : Except String Unit × PostgresClient :=
  pg.statement s!"[PG] UPDATE {table} SET {data} WHERE id={id}"

def delete (pg : PostgresClient) (table id : String) : Except String Unit × PostgresClient :=
  pg.statement s!"[PG] DELETE FROM {table} WHERE id={id}"

def disconnect (pg : PostgresClient) : PostgresClient :=
  { pg with connected := false }.logLine
    s!"[PG] disconnected from {pg.host}:{pg.port}/{pg.dbname}"

def reconnect (pg : PostgresClient) : PostgresClient :=
  let pg := pg.logLine s!"[PG] reconnecting to {pg.host}:{pg.port}/{pg.dbname}..."
  { pg with connected := true }.logLine "[PG] reconnected"

end PostgresClient

/-- A `Command` with receiver `W` and exceptions `E`: what `execute` does. -/
structure Command (W E : Type) where
  execute : W → Except E Unit × W

abbrev insertCommand (table data : String) : Command PostgresClient String :=
  ⟨fun pg => pg.insert table data⟩

abbrev updateCommand (table id data : String) : Command PostgresClient String :=
  ⟨fun pg => pg.update table id data⟩

abbrev deleteCommand (table id : String) : Command PostgresClient String :=
  ⟨fun pg => pg.delete table id⟩

/-- A command that is one statement on the client. -/
def IsStatement (c : Command PostgresClient String) : Prop :=
  ∃ line, ∀ pg, c.execute pg = pg.statement line

theorem insertCommand_isStatement (table data : String) : IsStatement (insertCommand table data) :=
  ⟨_, fun _ => rfl⟩

theorem updateCommand_isStatement (table id data : String) :
    IsStatement (updateCommand table id data) := ⟨_, fun _ => rfl⟩

theorem deleteCommand_isStatement (table id : String) : IsStatement (deleteCommand table id) :=
  ⟨_, fun _ => rfl⟩

/-- A statement leaves the connection as it found it, and throws when it is lost. -/
theorem IsStatement.cases {c : Command PostgresClient String} (h : IsStatement c)
    {pg pg' : PostgresClient} {r : Except String Unit} (he : c.execute pg = (r, pg')) :
    (pg.connected = true ∧ pg'.connected = true ∧ r = .ok ()) ∨
      (pg.connected = false ∧ pg' = pg ∧ r = .error "postgres connection lost") := by
  obtain ⟨line, hline⟩ := h
  rw [hline, PostgresClient.statement] at he
  split at he
  · rename_i hc
    cases he
    exact .inl ⟨hc, hc, rfl⟩
  · rename_i hc
    cases he
    exact .inr ⟨by simpa using hc, rfl, rfl⟩

end BackendPatterns.Commands
