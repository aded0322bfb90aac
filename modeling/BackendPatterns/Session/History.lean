import BackendPatterns.Lib.Trace
import BackendPatterns.Session.Connection

/-! # What the history says about the state

The four state classes make one automaton. Each of its states but the first is
entered by one call only, so the last entries give back the calls that opened a
session, and these calls open it again. -/

namespace BackendPatterns.Session
open BackendPatterns.Lib BackendPatterns.Lib.Trace

/-! ## The automaton -/

/-- The transitions of the four classes. -/
def next : ConnectionState → Call → ConnectionState
  | .disconnected, .connect => .connecting
  | .connecting, .onSocketConnected => .authenticating
  | .connecting, .onSocketClosed _ => .disconnected
  | .authenticating, .onBytesReceived bytes =>
    if bytes = authOk then .ready else if bytes = authFail then .disconnected else .authenticating
  | .authenticating, .onSocketClosed _ => .disconnected
  | .ready, .onSocketClosed _ => .disconnected
  | s, _ => s

/-- The query that a line says is executed. -/
def queryOf (line : Bytes) : Option Bytes := line.dropPrefix? (str "executing query: ")

/-- The queries that have been executed, as they were logged. -/
def Connection.executed (c : Connection) : List Bytes := c.lines.filterMap queryOf

/-- The queries that a call executes. -/
def executes : ConnectionState → Call → List Bytes
  | .ready, .sendQuery sql => [sql]
  | _, _ => []

theorem handle_state (c : Connection) (call : Call) :
    (c.handle call).state = next c.state call := by
  unfold Connection.handle
  cases hs : c.state with
  | disconnected => cases call <;> simp [Connection.disconnectedState, next, hs]
  | connecting => cases call <;> simp [Connection.connectingState, next, hs]
  | ready => cases call <;> simp [Connection.readyState, next, hs]
  | authenticating =>
    cases call with
    | onBytesReceived bytes =>
      simp only [Connection.authenticatingState, next]
      split
      · rfl
      split
      · rfl
      · simp [hs]
    | _ => simp [Connection.authenticatingState, next, hs]

/-- What is logged for a call. -/
def emit (s : ConnectionState) (call : Call) : List Bytes :=
  (Connection.handle ⟨s, []⟩ call).lines

/-- A call logs the same whatever was logged before. -/
theorem handle_lines (c : Connection) (call : Call) :
    (c.handle call).lines = c.lines ++ emit c.state call := by
  unfold emit Connection.handle
  cases hs : c.state with
  | disconnected =>
    cases call <;>
      simp [Connection.disconnectedState, Connection.transitionTo, Connection.logLine, hs]
  | connecting =>
    cases call <;>
      simp [Connection.connectingState, Connection.transitionTo, Connection.logLine, hs]
  | ready =>
    cases call <;>
      simp [Connection.readyState, Connection.transitionTo, Connection.logLine, hs]
  | authenticating =>
    cases call with
    | onBytesReceived bytes =>
      simp only [Connection.authenticatingState]
      split
      · simp [Connection.transitionTo, Connection.logLine, hs]
      split
      · simp [Connection.transitionTo, Connection.logLine, hs]
      · rfl
    | _ => simp [Connection.authenticatingState, Connection.transitionTo, Connection.logLine, hs]

theorem queryOf_executing (sql : Bytes) : queryOf (str "executing query: " ++ sql) = some sql :=
  List.dropPrefix?_eq_some_iff.mpr ⟨_, rfl, beq_self_eq_true _⟩

/-- A line for a query that is executed tells the query, and no other line begins so. -/
theorem queries_emit (s : ConnectionState) (call : Call) :
    (emit s call).filterMap queryOf = executes s call := by
  cases s with
  | authenticating =>
    cases call with
    | onBytesReceived bytes =>
      simp only [emit, Connection.handle, Connection.authenticatingState]
      split
      · rfl
      split
      · rfl
      · rfl
    | _ => rfl
  | ready =>
    cases call with
    | sendQuery sql => exact List.filterMap_cons_some (queryOf_executing sql)
    | _ => rfl
  | disconnected => cases call <;> rfl
  | connecting => cases call <;> rfl

theorem handle_executed (c : Connection) (call : Call) :
    (c.handle call).executed = c.executed ++ executes c.state call := by
  rw [Connection.executed, handle_lines, List.filterMap_append, queries_emit, Connection.executed]

/-- The calls that change the state. -/
inductive Enters : ConnectionState → Call → ConnectionState → Prop
  | connect : Enters .disconnected .connect .connecting
  | connected : Enters .connecting .onSocketConnected .authenticating
  | authOk : Enters .authenticating (.onBytesReceived authOk) .ready
  | authFail : Enters .authenticating (.onBytesReceived authFail) .disconnected
  | closed (s : ConnectionState) (reason : Bytes) : Enters s (.onSocketClosed reason) .disconnected

variable {s : ConnectionState} {call : Call}

theorem next_cases (s : ConnectionState) (call : Call) :
    next s call = s ∨ Enters s call (next s call) := by
  cases s with
  | disconnected =>
    cases call with
    | connect => exact .inr .connect
    | _ => exact .inl rfl
  | connecting =>
    cases call with
    | onSocketConnected => exact .inr .connected
    | onSocketClosed reason => exact .inr (.closed _ reason)
    | _ => exact .inl rfl
  | authenticating =>
    cases call with
    | onBytesReceived bytes =>
      simp only [next]
      split
      · rename_i hok
        subst hok
        exact .inr .authOk
      split
      · rename_i hfail
        subst hfail
        exact .inr .authFail
      · exact .inl rfl
    | onSocketClosed reason => exact .inr (.closed _ reason)
    | _ => exact .inl rfl
  | ready =>
    cases call with
    | onSocketClosed reason => exact .inr (.closed _ reason)
    | _ => exact .inl rfl

/-- A state that the call leaves for another has been entered. -/
theorem enters {t : ConnectionState} (h : next s call = t) (hs : s ≠ t) : Enters s call t := by
  obtain hsame | henters := next_cases s call
  · exact absurd (hsame.symm.trans h) hs
  · rwa [h] at henters

theorem next_closed (s : ConnectionState) (reason : Bytes) :
    next s (.onSocketClosed reason) = .disconnected := by
  cases s <;> rfl

theorem next_authFail : next .authenticating (.onBytesReceived authFail) = .disconnected := rfl

theorem next_query (s : ConnectionState) (sql : Bytes) : next s (.sendQuery sql) = s := by
  cases s <;> rfl

theorem next_authenticate (s : ConnectionState) (token : Bytes) :
    next s (.authenticate token) = s := by
  cases s <;> rfl

/-! ## Sessions -/

variable {history : List Call} {i j k : Nat}

/-- The state after the first `n` calls. -/
def stateAfter (history : List Call) (n : Nat) : ConnectionState :=
  (stateAt Connection.handle .make history n).state

theorem stateAfter_length (history : List Call) :
    stateAfter history history.length = (run history).state := by
  rw [stateAfter, stateAt_length]
  rfl

theorem stateAfter_succ {n : Nat} (h : history[n]? = some call) :
    stateAfter history (n + 1) = next (stateAfter history n) call := by
  rw [stateAfter, stateAt_succ h, handle_state]
  rfl

/-- The last entry into a state other than the first. -/
theorem last_enters {t : ConnectionState} {n : Nat} (hn : n ≤ history.length)
    (ht : .disconnected ≠ t) (h : stateAfter history n = t) :
    ∃ k call, k < n ∧ history[k]? = some call ∧ Enters (stateAfter history k) call t ∧
      ∀ m, k < m → m ≤ n → stateAfter history m = t := by
  obtain ⟨k, call, hk, hget, hnot, hsince⟩ := @last_entry _ _ Connection.handle .make history
    (fun c => c.state = t) n hn ht h
  have henter : stateAfter history (k + 1) = t := hsince (k + 1) (Nat.lt_succ_self k) hk
  rw [stateAfter_succ hget] at henter
  exact ⟨k, call, hk, hget, enters henter hnot, hsince⟩

/-- The calls at `i`, `j` and `k` are those of a session, and the socket has not
been closed since. -/
structure Opening (history : List Call) (i j k : Nat) : Prop where
  ij : i < j
  jk : j < k
  connect : history[i]? = some .connect
  connected : history[j]? = some .onSocketConnected
  authOk : history[k]? = some (.onBytesReceived authOk)
  notClosed : ∀ m reason, i < m → history[m]? ≠ some (.onSocketClosed reason)

def NoAuthFail (history : List Call) (lo hi : Nat) : Prop :=
  ∀ m, lo < m → m < hi → history[m]? ≠ some (.onBytesReceived authFail)

/-- The three calls have changed the state as they should, and nothing else has. -/
structure Opened (history : List Call) (i j k : Nat) : Prop where
  ij : i < j
  jk : j < k
  connect : history[i]? = some .connect
  connected : history[j]? = some .onSocketConnected
  authOk : history[k]? = some (.onBytesReceived authOk)
  connecting : ∀ m, i < m → m ≤ j → stateAfter history m = .connecting
  authenticating : ∀ m, j < m → m ≤ k → stateAfter history m = .authenticating
  ready : ∀ m, k < m → m ≤ history.length → stateAfter history m = .ready

theorem exists_opened (h : (run history).state = .ready) : ∃ i j k, Opened history i j k := by
  rw [← stateAfter_length] at h
  obtain ⟨k, _, hk, hgetk, henter, hready⟩ := last_enters (Nat.le_refl _) (by simp) h
  generalize hsk : stateAfter history k = s at henter
  cases henter
  obtain ⟨j, _, hj, hgetj, henter, hauth⟩ := last_enters (by omega) (by simp) hsk
  generalize hsj : stateAfter history j = s at henter
  cases henter
  obtain ⟨i, _, hi, hgeti, henter, hconnecting⟩ := last_enters (by omega) (by simp) hsj
  generalize hsi : stateAfter history i = s at henter
  cases henter
  exact ⟨i, j, k, hi, hj, hgeti, hgetj, hgetk, hconnecting, hauth, hready⟩

/-- No call has ended the session while it lasts. -/
theorem Opened.opening (h : Opened history i j k) : Opening history i j k := by
  refine ⟨h.ij, h.jk, h.connect, h.connected, h.authOk, fun m reason him hget => ?_⟩
  have hlt : m < history.length := (List.getElem?_eq_some_iff.mp hget).1
  have hdown : stateAfter history (m + 1) = .disconnected := by
    rw [stateAfter_succ hget, next_closed]
  obtain hj | hj := Nat.lt_or_ge m j
  · rw [h.connecting (m + 1) (by omega) hj] at hdown
    cases hdown
  obtain hk | hk := Nat.lt_or_ge m k
  · rw [h.authenticating (m + 1) (by omega) hk] at hdown
    cases hdown
  · rw [h.ready (m + 1) (by omega) hlt] at hdown
    cases hdown

theorem Opened.noAuthFail (h : Opened history i j k) : NoAuthFail history j k := by
  intro m hjm hmk hget
  have hdown : stateAfter history (m + 1) = .disconnected := by
    rw [stateAfter_succ hget, h.authenticating m hjm (Nat.le_of_lt hmk), next_authFail]
  rw [h.authenticating (m + 1) (by omega) hmk] at hdown
  cases hdown

theorem carry_state {P : ConnectionState → Prop} {i n : Nat} (hin : i ≤ n)
    (hn : n ≤ history.length) (hi : P (stateAfter history i))
    (hs : ∀ m call s, i ≤ m → m < n → history[m]? = some call → P s → P (next s call)) :
    P (stateAfter history n) := by
  refine @carry _ _ Connection.handle .make history (fun c => P c.state) i n hin hn hi ?_
  intro m call c him hmn hget hp
  rw [handle_state]
  exact hs m call c.state him hmn hget hp

/-- Only two calls disconnect. -/
theorem next_up (hs : s ≠ .disconnected) (hclosed : ∀ reason, call ≠ .onSocketClosed reason)
    (hfail : call ≠ .onBytesReceived authFail) : next s call ≠ .disconnected := by
  intro hdown
  generalize ht : ConnectionState.disconnected = t at hdown hs
  cases enters hdown hs with
  | authFail => exact hfail rfl
  | closed s reason => exact hclosed reason rfl
  | _ => cases ht

/-- The socket has been connected. -/
def Connected (s : ConnectionState) : Prop := s = .authenticating ∨ s = .ready

theorem connected_of_call (hs : s ≠ .disconnected) : Connected (next s .onSocketConnected) := by
  cases s with
  | disconnected => exact absurd rfl hs
  | connecting => exact .inl rfl
  | authenticating => exact .inl rfl
  | ready => exact .inr rfl

theorem Connected.next (hs : Connected s) (hup : next s call ≠ .disconnected) :
    Connected (next s call) := by
  obtain hsame | henters := next_cases s call
  · rwa [hsame]
  · generalize Session.next s call = t at henters hup
    cases henters with
    | connect => obtain h | h := hs <;> cases h
    | connected => exact .inl rfl
    | authOk => exact .inr rfl
    | authFail => exact absurd rfl hup
    | closed => exact absurd rfl hup

theorem next_ready (hclosed : ∀ reason, call ≠ .onSocketClosed reason) :
    next .ready call = .ready := by
  obtain hsame | henters := next_cases .ready call
  · exact hsame
  · generalize next .ready call = t at henters ⊢
    cases henters with
    | closed _ reason => exact absurd rfl (hclosed reason)

/-- The three calls open a session, when nothing ends it. -/
theorem Opening.ready (h : Opening history i j k) (hfail : NoAuthFail history i k) :
    (run history).state = .ready := by
  have hij := h.ij
  have hjk := h.jk
  have hlt : k < history.length := (List.getElem?_eq_some_iff.mp h.authOk).1
  have hkeep : ∀ m call s, i < m → m < k → history[m]? = some call → s ≠ .disconnected →
      next s call ≠ .disconnected := by
    intro m call s him hmk hget hs
    refine next_up hs (fun reason hcall => ?_) fun hcall => ?_
    · exact h.notClosed m reason him (hcall ▸ hget)
    · exact hfail m him hmk (hcall ▸ hget)
  have hup : stateAfter history j ≠ .disconnected := by
    refine @carry_state history (· ≠ .disconnected) (i + 1) j hij (by omega) ?_ ?_
    · rw [stateAfter_succ h.connect]
      cases stateAfter history i <;> simp [next]
    · intro m call s him hmj hget hs
      exact hkeep m call s him (by omega) hget hs
  have hauth : Connected (stateAfter history k) := by
    refine carry_state hjk (Nat.le_of_lt hlt) ?_ ?_
    · rw [stateAfter_succ h.connected]
      exact connected_of_call hup
    · intro m call s hjm hmk hget hs
      refine hs.next (hkeep m call s (by omega) hmk hget ?_)
      obtain hs | hs := hs <;> rw [hs] <;> simp
  rw [← stateAfter_length]
  refine @carry_state history (· = .ready) (k + 1) history.length hlt (Nat.le_refl _) ?_ ?_
  · rw [stateAfter_succ h.authOk]
    obtain hs | hs := hauth <;> rw [hs] <;> rfl
  · intro m call s hkm _ hget hs
    rw [hs]
    exact next_ready fun reason hcall => h.notClosed m reason (by omega) (hcall ▸ hget)

/-! ## Queries -/

/-- A query sent at the end of the history is executed, as the log says. -/
def Executes (history : List Call) (sql : Bytes) : Prop :=
  (run (history ++ [.sendQuery sql])).executed = (run history).executed ++ [sql]

theorem run_snoc (history : List Call) (call : Call) :
    run (history ++ [call]) = (run history).handle call := by
  simp [run]

theorem executes_iff (history : List Call) (sql : Bytes) :
    Executes history sql ↔ (run history).state = .ready := by
  rw [Executes, run_snoc, handle_executed]
  constructor
  · intro h
    have hsql := List.append_cancel_left h
    cases hs : (run history).state <;> rw [hs] at hsql <;> simp [executes] at hsql ⊢
  · intro h
    rw [h]
    rfl

/-- What later calls do is up to the state and the queries executed. -/
theorem run_congr {c d : Connection} (hs : c.state = d.state) (he : c.executed = d.executed)
    (later : List Call) :
    (later.foldl Connection.handle c).executed = (later.foldl Connection.handle d).executed := by
  induction later generalizing c d with
  | nil => exact he
  | cons call later ih =>
    refine ih ?_ ?_
    · rw [handle_state, handle_state, hs]
    · rw [handle_executed, handle_executed, hs, he]

/-! ## Authentication -/

/-- Whenever the connection is ready or a query is executed, the server's `AUTH_OK`
has arrived in the session's authenticating state, which the last
`on_socket_connected` that counted began, and nothing has changed the state since. -/
theorem ready_after_authOk (h : (run history).state = .ready ∨ ∃ sql, Executes history sql) :
    ∃ j k : Nat, j < k ∧ history[j]? = some .onSocketConnected ∧
      stateAfter history j = .connecting ∧ history[k]? = some (.onBytesReceived authOk) ∧
      (∀ m, j < m → m ≤ k → stateAfter history m = .authenticating) ∧
      ∀ m, k < m → m ≤ history.length → stateAfter history m = .ready := by
  have hready : (run history).state = .ready := by
    obtain hready | ⟨sql, hexec⟩ := h
    · exact hready
    · exact (executes_iff history sql).mp hexec
  obtain ⟨i, j, k, hopened⟩ := exists_opened hready
  exact ⟨j, k, hopened.jk, hopened.connected, hopened.connecting j hopened.ij (Nat.le_refl j),
    hopened.authOk, hopened.authenticating, hopened.ready⟩

/-- The calls of the demo up to its last query. -/
def demo : List Call :=
  [.sendQuery (str "SELECT 1"), .connect, .sendQuery (str "SELECT * FROM users"),
    .onSocketConnected, .authenticate (str "token-abc"), .onBytesReceived authOk]

theorem ready_after_authOk_demo : ∃ j k : Nat, j < k ∧ demo[j]? = some .onSocketConnected ∧
    demo[k]? = some (.onBytesReceived authOk) := by
  obtain ⟨j, k, hjk, hj, -, hk, -⟩ := @ready_after_authOk demo (.inl (by decide))
  exact ⟨j, k, hjk, hj, hk⟩

/-- A server that accepts before it was asked. -/
def unasked : List Call :=
  [.connect, .onSocketConnected, .onBytesReceived authOk, .sendQuery (str "SELECT 1")]

/-- The query is executed, and `authenticate` was never called. -/
theorem ready_without_authenticate :
    (run unasked).state = .ready ∧ (run unasked).executed = [str "SELECT 1"] ∧
      ∀ (n : Nat) token, unasked[n]? ≠ some (.authenticate token) := by
  refine ⟨by decide, by decide, fun n token h => ?_⟩
  have hmem := List.mem_of_getElem? h
  simp [unasked] at hmem

/-! ## Event histories -/

/-- A query at the end is executed only after the three calls that open a session,
in this order and with nothing that ends it, and it is executed after them. One
that is not executed leaves no trace in the queries executed later. Neither
`send_query` nor `authenticate` changes the state. -/
theorem query_history (history : List Call) (sql : Bytes) :
    (Executes history sql → ∃ i j k, Opening history i j k ∧ NoAuthFail history j k) ∧
    ((∃ i j k, Opening history i j k ∧ NoAuthFail history i k) → Executes history sql) ∧
    (¬ Executes history sql → ∀ later,
      (run (history ++ .sendQuery sql :: later)).executed = (run (history ++ later)).executed) ∧
    (∀ c : Connection, (c.handle (.sendQuery sql)).state = c.state) ∧
    ∀ (c : Connection) token, (c.handle (.authenticate token)).state = c.state := by
  refine ⟨?_, ?_, ?_, ?_, ?_⟩
  · intro h
    obtain ⟨i, j, k, hopened⟩ := exists_opened ((executes_iff history sql).mp h)
    exact ⟨i, j, k, hopened.opening, hopened.noAuthFail⟩
  · intro h
    obtain ⟨i, j, k, hopening, hfail⟩ := h
    exact (executes_iff history sql).mpr (hopening.ready hfail)
  · intro h later
    rw [executes_iff] at h
    simp only [run, List.foldl_append, List.foldl_cons]
    refine run_congr ?_ ?_ later
    · rw [handle_state, next_query]
    · rw [handle_executed]
      change (run history).executed ++ executes (run history).state (.sendQuery sql) = _
      cases hs : (run history).state with
      | ready => exact absurd hs h
      | _ => exact List.append_nil _
  · intro c
    rw [handle_state, next_query]
  · intro c token
    rw [handle_state, next_authenticate]

end BackendPatterns.Session
