import BackendPatterns.Lib.Frames
import BackendPatterns.Lib.Transcript
import BackendPatterns.Session.History

/-! # The log of a connection

Every call is logged, in words that tell it from the other calls in the same state.
So the log has all calls, but for the tokens that no state has looked at. -/

namespace BackendPatterns.Session
open BackendPatterns.Lib

def newline : UInt8 := 10

/-- The string that a call comes with. -/
def Call.text : Call → Bytes
  | .connect | .onSocketConnected => []
  | .authenticate text | .sendQuery text | .onBytesReceived text | .onSocketClosed text => text

/-- A call as far as it is logged. -/
def hear : ConnectionState → Call → Call
  | .authenticating, call => call
  | _, .authenticate _ => .authenticate []
  | _, call => call

def heard : ConnectionState → List Call → List Call
  | _, [] => []
  | s, call :: calls => hear s call :: heard (next s call) calls

/-- The line for a transition, if there is one. -/
def moved (s t : ConnectionState) : List Bytes :=
  if t = s then [] else [str "state transition: " ++ s.name ++ str " -> " ++ t.name]

/-! ## Reading it back -/

/-- A line that says no more than this. -/
def bare (call : Call) (rest : Bytes) : Option Call := if rest = [] then some call else none

/-- The token ends before the rest of the line. -/
def sentToken (rest : Bytes) : Option Call :=
  (rest.dropSuffix? (str " and waiting for server response")).map .authenticate

/-- The two answers have lines of their own. -/
def ignored (bytes : Bytes) : Option Call :=
  if bytes = authOk ∨ bytes = authFail then none else some (.onBytesReceived bytes)

def templates : ConnectionState → List (Transcript.Template Call UInt8)
  | .disconnected => [
    (str "starting async connect", bare .connect),
    (str "cannot authenticate before connecting", bare (.authenticate [])),
    (str "dropping query while disconnected: ", fun sql => some (.sendQuery sql)),
    (str "unexpected socket_connected while disconnected", bare .onSocketConnected),
    (str "unexpected bytes while disconnected: ", fun bytes => some (.onBytesReceived bytes)),
    (str "socket already closed: ", fun reason => some (.onSocketClosed reason))]
  | .connecting => [
    (str "already connecting", bare .connect),
    (str "cannot authenticate until socket connects", bare (.authenticate [])),
    (str "cannot send query until connected: ", fun sql => some (.sendQuery sql)),
    (str "tcp connected; beginning authentication", bare .onSocketConnected),
    (str "dropping bytes while connecting: ", fun bytes => some (.onBytesReceived bytes)),
    (str "connect failed: ", fun reason => some (.onSocketClosed reason))]
  | .authenticating => [
    (str "connection already established; waiting for auth", bare .connect),
    (str "sending auth token=", sentToken),
    (str "cannot run query before auth completes: ", fun sql => some (.sendQuery sql)),
    (str "socket already connected; waiting for auth", bare .onSocketConnected),
    (str "auth succeeded", bare (.onBytesReceived authOk)),
    (str "auth failed", bare (.onBytesReceived authFail)),
    (str "ignoring unexpected auth response: ", ignored),
    (str "socket closed during auth: ", fun reason => some (.onSocketClosed reason))]
  | .ready => [
    (str "connection already ready", bare .connect),
    (str "already authenticated", bare (.authenticate [])),
    (str "executing query: ", fun sql => some (.sendQuery sql)),
    (str "socket already connected", bare .onSocketConnected),
    (str "received server bytes: ", fun bytes => some (.onBytesReceived bytes)),
    (str "socket closed: ", fun reason => some (.onSocketClosed reason))]

/-- One call, with the transition that it makes. -/
def readCall (s : ConnectionState) : Codec.Decoder Call Bytes
  | [] => none
  | line :: rest => (Transcript.readLine (templates s) line).bind fun call =>
    (rest.dropPrefix? (moved s (next s call))).map fun rest => (call, rest)

/-- The calls of a log, from the start of the connection on. -/
def readLog (lines : List Bytes) : Option (List Call) :=
  Transcript.readBack next readCall lines.length .disconnected lines

/-! ## What one call logs -/

theorem templates_apart (s : ConnectionState) :
    Transcript.Apart ((templates s).map Prod.fst) := by
  cases s <;> decide

theorem next_hear (s : ConnectionState) (call : Call) : next s (hear s call) = next s call := by
  cases s <;> cases call <;> rfl

/-- What is not logged has no effect either. -/
theorem handle_hear (c : Connection) (call : Call) :
    c.handle (hear c.state call) = c.handle call := by
  unfold Connection.handle
  cases hs : c.state <;> cases call <;> rfl

/-- The line of a call: how it begins, what may follow, and what follows. -/
structure Says (s : ConnectionState) (call : Call) (o : Bytes) (f : Bytes → Option Call)
    (x : Bytes) : Prop where
  template : (o, f) ∈ templates s
  means : f x = some (hear s call)
  emits : emit s call = (o ++ x) :: moved s (next s call)
  text : newline ∈ x ↔ newline ∈ (hear s call).text

variable {s : ConnectionState} {call c : Call} {o x : Bytes} {f : Bytes → Option Call}

theorem says_bare (k : Nat) (hk : (templates s)[k]? = some (o, bare c)) (hc : hear s call = c)
    (htext : newline ∉ c.text) (hemit : emit s call = o :: moved s (next s call)) :
    ∃ o f x, Says s call o f x := by
  refine ⟨o, bare c, [], List.mem_of_getElem? hk, ?_, ?_, ?_⟩
  · rw [hc]
    rfl
  · rw [List.append_nil]
    exact hemit
  · rw [hc]
    exact ⟨nofun, fun hmem => absurd hmem htext⟩

theorem says_text (k : Nat) (hk : (templates s)[k]? = some (o, f))
    (hf : f x = some (hear s call)) (htext : (hear s call).text = x)
    (hemit : emit s call = (o ++ x) :: moved s (next s call)) : ∃ o f x, Says s call o f x :=
  ⟨o, f, x, List.mem_of_getElem? hk, hf, hemit, by rw [htext]⟩

theorem says_token (token : Bytes) : ∃ o f x, Says .authenticating (.authenticate token) o f x := by
  refine ⟨str "sending auth token=", sentToken, token ++ str " and waiting for server response",
    List.mem_of_getElem? (i := 1) rfl, ?_, ?_, ?_⟩
  · have hdrop : (token ++ str " and waiting for server response").dropSuffix?
        (str " and waiting for server response") = some token :=
      List.dropSuffix?_eq_some_iff.mpr ⟨_, rfl, beq_self_eq_true _⟩
    rw [sentToken, hdrop]
    rfl
  · rw [← List.append_assoc]
    rfl
  · have hplain : newline ∉ str " and waiting for server response" := by decide
    rw [List.mem_append, or_iff_left hplain]
    rfl

theorem emit_ignored {bytes : Bytes} (hok : bytes ≠ authOk) (hfail : bytes ≠ authFail) :
    emit .authenticating (.onBytesReceived bytes) =
      (str "ignoring unexpected auth response: " ++ bytes) ::
        moved .authenticating (next .authenticating (.onBytesReceived bytes)) := by
  show (Connection.authenticatingState _ _).lines = _ :: moved _ (next _ _)
  simp only [Connection.authenticatingState, next, hok, hfail, if_false]
  rfl

theorem says_received (bytes : Bytes) :
    ∃ o f x, Says .authenticating (.onBytesReceived bytes) o f x := by
  by_cases hok : bytes = authOk
  · subst hok
    exact says_bare 4 rfl rfl (by decide) rfl
  by_cases hfail : bytes = authFail
  · subst hfail
    exact says_bare 5 rfl rfl (by decide) rfl
  exact says_text 6 rfl (if_neg (not_or.mpr ⟨hok, hfail⟩)) rfl (emit_ignored hok hfail)

theorem exists_says (s : ConnectionState) (call : Call) : ∃ o f x, Says s call o f x := by
  cases s with
  | disconnected =>
    cases call with
    | connect => exact says_bare 0 rfl rfl nofun rfl
    | authenticate => exact says_bare 1 rfl rfl nofun rfl
    | sendQuery => exact says_text 2 rfl rfl rfl rfl
    | onSocketConnected => exact says_bare 3 rfl rfl nofun rfl
    | onBytesReceived => exact says_text 4 rfl rfl rfl rfl
    | onSocketClosed => exact says_text 5 rfl rfl rfl rfl
  | connecting =>
    cases call with
    | connect => exact says_bare 0 rfl rfl nofun rfl
    | authenticate => exact says_bare 1 rfl rfl nofun rfl
    | sendQuery => exact says_text 2 rfl rfl rfl rfl
    | onSocketConnected => exact says_bare 3 rfl rfl nofun rfl
    | onBytesReceived => exact says_text 4 rfl rfl rfl rfl
    | onSocketClosed => exact says_text 5 rfl rfl rfl rfl
  | authenticating =>
    cases call with
    | connect => exact says_bare 0 rfl rfl nofun rfl
    | authenticate token => exact says_token token
    | sendQuery => exact says_text 2 rfl rfl rfl rfl
    | onSocketConnected => exact says_bare 3 rfl rfl nofun rfl
    | onBytesReceived bytes => exact says_received bytes
    | onSocketClosed => exact says_text 7 rfl rfl rfl rfl
  | ready =>
    cases call with
    | connect => exact says_bare 0 rfl rfl nofun rfl
    | authenticate => exact says_bare 1 rfl rfl nofun rfl
    | sendQuery => exact says_text 2 rfl rfl rfl rfl
    | onSocketConnected => exact says_bare 3 rfl rfl nofun rfl
    | onBytesReceived => exact says_text 4 rfl rfl rfl rfl
    | onSocketClosed => exact says_text 5 rfl rfl rfl rfl

/-- A template is only for calls that have such lines. -/
def Sound (s : ConnectionState) (t : Transcript.Template Call UInt8) : Prop :=
  ∀ x call, t.2 x = some call →
    hear s call = call ∧ emit s call = (t.1 ++ x) :: moved s (next s call)

theorem sound_bare (hc : hear s c = c) (hemit : emit s c = o :: moved s (next s c)) :
    Sound s (o, bare c) := by
  intro x call h
  obtain ⟨rfl, hcall⟩ := Option.ite_none_right_eq_some.mp h
  cases hcall
  rw [List.append_nil]
  exact ⟨hc, hemit⟩

theorem sound_text {mk : Bytes → Call} (hc : ∀ x, hear s (mk x) = mk x)
    (hemit : ∀ x, emit s (mk x) = (o ++ x) :: moved s (next s (mk x))) :
    Sound s (o, fun x => some (mk x)) := by
  intro x call h
  cases h
  exact ⟨hc x, hemit x⟩

theorem sound_token : Sound .authenticating (str "sending auth token=", sentToken) := by
  intro x call h
  obtain ⟨token, htoken, rfl⟩ := Option.map_eq_some_iff.mp h
  obtain ⟨suffix, rfl, hsuffix⟩ := List.dropSuffix?_eq_some_iff.mp htoken
  rw [eq_of_beq hsuffix, ← List.append_assoc]
  exact ⟨rfl, rfl⟩

theorem sound_ignored :
    Sound .authenticating (str "ignoring unexpected auth response: ", ignored) := by
  intro x call h
  obtain ⟨hx, hcall⟩ := Option.ite_none_left_eq_some.mp h
  cases hcall
  obtain ⟨hok, hfail⟩ := not_or.mp hx
  exact ⟨rfl, emit_ignored hok hfail⟩

theorem sound_templates (s : ConnectionState) : ∀ t ∈ templates s, Sound s t := by
  cases s with
  | disconnected =>
    simp only [templates, List.forall_mem_cons]
    exact ⟨sound_bare rfl rfl, sound_bare rfl rfl, sound_text (fun _ => rfl) fun _ => rfl,
      sound_bare rfl rfl, sound_text (fun _ => rfl) fun _ => rfl,
      sound_text (fun _ => rfl) fun _ => rfl, nofun⟩
  | connecting =>
    simp only [templates, List.forall_mem_cons]
    exact ⟨sound_bare rfl rfl, sound_bare rfl rfl, sound_text (fun _ => rfl) fun _ => rfl,
      sound_bare rfl rfl, sound_text (fun _ => rfl) fun _ => rfl,
      sound_text (fun _ => rfl) fun _ => rfl, nofun⟩
  | authenticating =>
    simp only [templates, List.forall_mem_cons]
    exact ⟨sound_bare rfl rfl, sound_token, sound_text (fun _ => rfl) fun _ => rfl,
      sound_bare rfl rfl, sound_bare rfl rfl, sound_bare rfl rfl, sound_ignored,
      sound_text (fun _ => rfl) fun _ => rfl, nofun⟩
  | ready =>
    simp only [templates, List.forall_mem_cons]
    exact ⟨sound_bare rfl rfl, sound_bare rfl rfl, sound_text (fun _ => rfl) fun _ => rfl,
      sound_bare rfl rfl, sound_text (fun _ => rfl) fun _ => rfl,
      sound_text (fun _ => rfl) fun _ => rfl, nofun⟩

/-- Whatever follows in the log, the lines of one call are read as this call. -/
theorem reads : Transcript.Reads emit readCall fun s call => hear s call = call := by
  refine ⟨?_, ?_, ?_⟩
  · intro s call hcall rest
    obtain ⟨o, f, x, htold⟩ := exists_says s call
    have hline := Transcript.readLine_append (templates_apart s) htold.template x
    have hdrop : (moved s (next s call) ++ rest).dropPrefix? (moved s (next s call)) = some rest :=
      List.dropPrefix?_eq_some_iff.mpr ⟨_, rfl, beq_self_eq_true _⟩
    rw [htold.means, hcall] at hline
    rw [htold.emits, List.cons_append, readCall, hline, Option.bind_some, hdrop, Option.map_some]
  · intro s lines call rest hread
    cases lines with
    | nil => cases hread
    | cons line lines =>
      obtain ⟨call', hline, hdrop⟩ := Option.bind_eq_some_iff.mp hread
      obtain ⟨rest', hrest, hpair⟩ := Option.map_eq_some_iff.mp hdrop
      cases hpair
      obtain ⟨o, f, x, hmem, rfl, hf⟩ := Transcript.exists_of_readLine hline
      obtain ⟨hhear, hemit⟩ := sound_templates s _ hmem x call hf
      obtain ⟨before, rfl, hbefore⟩ := List.dropPrefix?_eq_some_iff.mp hrest
      rw [hemit, eq_of_beq hbefore]
      exact ⟨hhear, rfl⟩
  · intro s call hnil
    obtain ⟨o, f, x, htold⟩ := exists_says s call
    rw [htold.emits] at hnil
    cases hnil

/-! ## Whole logs -/

theorem foldl_lines (c : Connection) (calls : List Call) :
    (calls.foldl Connection.handle c).lines =
      c.lines ++ Transcript.outputs next emit c.state calls := by
  induction calls generalizing c with
  | nil => exact (List.append_nil _).symm
  | cons call calls ih =>
    rw [List.foldl_cons, ih, handle_lines, handle_state, List.append_assoc]
    rfl

theorem run_lines (history : List Call) :
    (run history).lines = Transcript.outputs next emit .disconnected history :=
  foldl_lines .make history

theorem foldl_heard (c : Connection) (calls : List Call) :
    (heard c.state calls).foldl Connection.handle c = calls.foldl Connection.handle c := by
  induction calls generalizing c with
  | nil => rfl
  | cons call calls ih =>
    rw [heard, List.foldl_cons, List.foldl_cons, handle_hear, ← handle_state, ih]

theorem run_heard (history : List Call) : run (heard .disconnected history) = run history :=
  foldl_heard .make history

/-- Calls that are logged in full. -/
theorem along_iff (s : ConnectionState) (calls : List Call) :
    Transcript.Along next (fun s call => hear s call = call) s calls ↔ heard s calls = calls := by
  induction calls generalizing s with
  | nil => exact ⟨fun _ => rfl, fun _ => trivial⟩
  | cons call calls ih => rw [Transcript.Along, heard, List.cons.injEq, ih]

theorem hear_hear (s : ConnectionState) (call : Call) : hear s (hear s call) = hear s call := by
  cases s <;> cases call <;> rfl

theorem heard_heard (s : ConnectionState) (calls : List Call) :
    heard s (heard s calls) = heard s calls := by
  induction calls generalizing s with
  | nil => rfl
  | cons call calls ih => rw [heard, heard, hear_hear, next_hear, ih]

theorem readLog_eq_some_iff {lines : List Bytes} {calls : List Call} :
    readLog lines = some calls ↔ heard .disconnected calls = calls ∧ (run calls).lines = lines := by
  rw [readLog, reads.readBack_eq_some_iff, along_iff, run_lines]

/-! ## The log on a stream -/

theorem plain_openings (s : ConnectionState) : ∀ t ∈ templates s, newline ∉ t.1 := by
  cases s <;> decide

theorem plain_moved (s t : ConnectionState) : ∀ line ∈ moved s t, newline ∉ line := by
  cases s <;> cases t <;> decide

theorem plain_emit (s : ConnectionState) (call : Call) :
    (∀ line ∈ emit s call, newline ∉ line) ↔ newline ∉ (hear s call).text := by
  obtain ⟨o, f, x, htold⟩ := exists_says s call
  have ho : newline ∉ o := plain_openings s _ htold.template
  rw [htold.emits, List.forall_mem_cons, and_iff_left (plain_moved _ _), List.mem_append,
    or_iff_right ho, htold.text]

theorem plain_outputs (s : ConnectionState) (calls : List Call) :
    (∀ line ∈ Transcript.outputs next emit s calls, newline ∉ line) ↔
      ∀ call ∈ heard s calls, newline ∉ call.text := by
  induction calls generalizing s with
  | nil => exact ⟨fun _ => nofun, fun _ => nofun⟩
  | cons call calls ih =>
    rw [Transcript.outputs, heard, List.forall_mem_append, List.forall_mem_cons, plain_emit, ih]

/-- The log says which calls were made, in which order and with which strings; only tokens
that were not sent are missing, and a connection with the same log is the same. It accepts
nothing but logs. On a stream it can be split into its lines again exactly when no logged
string has a newline. -/
theorem log_read_back (history : List Call) :
    readLog (run history).lines = some (heard .disconnected history) ∧
      run (heard .disconnected history) = run history ∧
      (∀ lines calls, readLog lines = some calls ↔
        heard .disconnected calls = calls ∧ (run calls).lines = lines) ∧
      (Frames.frames newline (Frames.unframe newline (run history).lines) =
          (run history).lines ↔
        ∀ call ∈ heard .disconnected history, newline ∉ call.text) := by
  refine ⟨?_, run_heard history, fun _ _ => readLog_eq_some_iff, ?_⟩
  · exact readLog_eq_some_iff.mpr ⟨heard_heard _ _, by rw [run_heard]⟩
  · rw [Frames.frames_unframe_iff, run_lines, plain_outputs]

/-- A string with a newline can pass for lines of its own. -/
example : Frames.unframe newline (run [.sendQuery (str "a\nsocket already closed: b")]).lines =
    Frames.unframe newline (run [.sendQuery (str "a"), .onSocketClosed (str "b")]).lines := by
  decide

end BackendPatterns.Session
