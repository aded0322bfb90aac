import BackendPatterns.Lib.Bytes

/-! # The connection and its states

A connection hands every call to its state object, which logs, and may put
another state object in its own place. The four state classes have no data. -/

namespace BackendPatterns.Session
open BackendPatterns.Lib

inductive ConnectionState
  | disconnected
  | connecting
  | authenticating
  | ready
  deriving DecidableEq

def ConnectionState.name : ConnectionState → Bytes
  | .disconnected => str "Disconnected"
  | .connecting => str "Connecting"
  | .authenticating => str "Authenticating"
  | .ready => str "Ready"

/-- The calls of a client and the events of its socket. -/
inductive Call
  | connect
  | authenticate (token : Bytes)
  | sendQuery (sql : Bytes)
  | onSocketConnected
  | onBytesReceived (bytes : Bytes)
  | onSocketClosed (reason : Bytes)

def authOk : Bytes := str "AUTH_OK"

def authFail : Bytes := str "AUTH_FAIL"

/-- `lines` is what has been logged. -/
structure Connection where
  state : ConnectionState
  lines : List Bytes

namespace Connection

def make : Connection := ⟨.disconnected, []⟩

def logLine (c : Connection) (line : Bytes) : Connection := { c with lines := c.lines ++ [line] }

def transitionTo (c : Connection) (next : ConnectionState) : Connection :=
  { c.logLine (str "state transition: " ++ c.state.name ++ str " -> " ++ next.name) with
    state := next }

def disconnectedState (c : Connection) : Call → Connection
  | .connect => (c.logLine (str "starting async connect")).transitionTo .connecting
  | .authenticate _ => c.logLine (str "cannot authenticate before connecting")
  | .sendQuery sql => c.logLine (str "dropping query while disconnected: " ++ sql)
  | .onSocketConnected => c.logLine (str "unexpected socket_connected while disconnected")
  | .onBytesReceived bytes => c.logLine (str "unexpected bytes while disconnected: " ++ bytes)
  | .onSocketClosed reason => c.logLine (str "socket already closed: " ++ reason)

def connectingState (c : Connection) : Call → Connection
  | .connect => c.logLine (str "already connecting")
  | .authenticate _ => c.logLine (str "cannot authenticate until socket connects")
  | .sendQuery sql => c.logLine (str "cannot send query until connected: " ++ sql)
  | .onSocketConnected =>
    (c.logLine (str "tcp connected; beginning authentication")).transitionTo .authenticating
  | .onBytesReceived bytes => c.logLine (str "dropping bytes while connecting: " ++ bytes)
  | .onSocketClosed reason =>
    (c.logLine (str "connect failed: " ++ reason)).transitionTo .disconnected

def authenticatingState (c : Connection) : Call → Connection
  | .connect => c.logLine (str "connection already established; waiting for auth")
  | .authenticate token =>
    c.logLine (str "sending auth token=" ++ token ++ str " and waiting for server response")
  | .sendQuery sql => c.logLine (str "cannot run query before auth completes: " ++ sql)
  | .onSocketConnected => c.logLine (str "socket already connected; waiting for auth")
  | .onBytesReceived bytes =>
    if bytes = authOk then (c.logLine (str "auth succeeded")).transitionTo .ready
    else if bytes = authFail then (c.logLine (str "auth failed")).transitionTo .disconnected
    else c.logLine (str "ignoring unexpected auth response: " ++ bytes)
  | .onSocketClosed reason =>
    (c.logLine (str "socket closed during auth: " ++ reason)).transitionTo .disconnected

def readyState (c : Connection) : Call → Connection
  | .connect => c.logLine (str "connection already ready")
  | .authenticate _ => c.logLine (str "already authenticated")
  | .sendQuery sql => c.logLine (str "executing query: " ++ sql)
  | .onSocketConnected => c.logLine (str "socket already connected")
  | .onBytesReceived bytes => c.logLine (str "received server bytes: " ++ bytes)
  | .onSocketClosed reason =>
    (c.logLine (str "socket closed: " ++ reason)).transitionTo .disconnected

/-- A call goes to the state object of the moment. -/
def handle (c : Connection) (call : Call) : Connection :=
  match c.state with
  | .disconnected => c.disconnectedState call
  | .connecting => c.connectingState call
  | .authenticating => c.authenticatingState call
  | .ready => c.readyState call

@[simp] theorem logLine_state (c : Connection) (line : Bytes) : (c.logLine line).state = c.state :=
  rfl

@[simp] theorem transitionTo_state (c : Connection) (next : ConnectionState) :
    (c.transitionTo next).state = next := rfl

end Connection

/-- A connection after a history of calls. -/
def run (history : List Call) : Connection := history.foldl Connection.handle .make

end BackendPatterns.Session
