import Mathlib.Data.List.Basic
import BackendPatterns.Commands.Client

/-! # Retries

`execute_with_retry` retries what derives from `std::exception`. Any other
exception leaves the loop at once, and a bound below one leaves it with no
attempt at all: the caller takes that for success. -/

namespace BackendPatterns.Commands

/-- An exception: one with a `what()`, or a value of any other type. -/
inductive Exn (X : Type)
  | std (what : String)
  | other (x : X)

/-- The client, and whatever else commands work on. -/
structure World (S : Type) where
  pg : PostgresClient
  rest : S

/-- A call of `execute`: the world that it found, its outcome, and the world it left. -/
structure Call (S X : Type) where
  before : World S
  outcome : Except (Exn X) Unit
  after : World S

/-- A call that the loop makes: `execute`, or `reconnect` on a client. -/
inductive Event (S X : Type)
  | execute (call : Call S X)
  | reconnect (pg : PostgresClient)

variable {S X : Type}

def World.logLine (w : World S) (line : String) : World S := { w with pg := w.pg.logLine line }

def World.reconnect (w : World S) : World S × List (Event S X) :=
  ({ w with pg := w.pg.reconnect }, [.reconnect w.pg])

/-- The rest of the `catch` block, where attempts are left. -/
def World.recover (w : World S) : World S × List (Event S X) :=
  let w := w.logLine "attempting to reconnect..."
  let (w, events) := w.reconnect
  (w.logLine "retrying...", events)

def Command.call (cmd : Command (World S) (Exn X)) (w : World S) : Call S X :=
  ⟨w, (cmd.execute w).1, (cmd.execute w).2⟩

/-- What a call of `execute_with_retry` comes to. -/
structure Outcome (S X : Type) where
  result : Except (Exn X) Unit
  world : World S
  trace : List (Event S X)

/-- The loop from a given attempt on. It ends at `max` at the latest, so the
counter does not overflow. -/
def retryLoop (cmd : Command (World S) (Exn X)) (max attempt : Int) (w : World S) :
    Outcome S X :=
  if attempt ≤ max then
    let call := cmd.call w
    let w := call.after
    match call.outcome with
    | .ok () =>
      let w := if 1 < attempt then w.logLine s!"succeeded on attempt {attempt}" else w
      ⟨.ok (), w, [.execute call]⟩
    | .error (.std what) =>
      let w := w.logLine s!"attempt {attempt} failed: {what}"
      if attempt = max then
        let w := w.logLine "max retries exceeded, giving up"
        ⟨.error (.std what), w, [.execute call]⟩
      else
        let (w, events) := w.recover
        let r := retryLoop cmd max (attempt + 1) w
        ⟨r.result, r.world, .execute call :: events ++ r.trace⟩
    | .error (.other x) => ⟨.error (.other x), w, [.execute call]⟩
  else ⟨.ok (), w, []⟩
termination_by (max + 1 - attempt).toNat
decreasing_by omega

def executeWithRetry (cmd : Command (World S) (Exn X)) (w : World S) (max : Int) :
    Outcome S X := retryLoop cmd max 1 w

/-- The outcomes of the `execute` calls of a trace. -/
def calls (trace : List (Event S X)) : List (Except (Exn X) Unit) :=
  trace.filterMap fun
    | .execute call => some call.outcome
    | .reconnect _ => none

/-- What the loop logs is all that it changes. -/
def World.Logs (w w' : World S) : Prop :=
  ∃ lines, w' = { w with pg := { w.pg with lines := w.pg.lines ++ lines } }

/-- The trace of calls of the command that take the world from `w` to `w'`. After each
but the last, which threw, the client logs that, is reconnected once, and logs that it
tries again; nothing else comes between two calls, and nothing but lines after the last. -/
inductive Alternates (cmd : Command (World S) (Exn X)) :
    Int → World S → List (Event S X) → World S → Prop
  | last (attempt : Int) {w w' : World S} (h : (cmd.call w).after.Logs w') :
      Alternates cmd attempt w [.execute (cmd.call w)] w'
  | again {attempt : Int} {w w' : World S} {what : String} {pg : PostgresClient}
      {trace : List (Event S X)} (he : (cmd.call w).outcome = .error (.std what))
      (hpg : pg = ((cmd.call w).after.pg.logLine s!"attempt {attempt} failed: {what}").logLine
        "attempting to reconnect...")
      (h : Alternates cmd (attempt + 1)
        { (cmd.call w).after with pg := pg.reconnect.logLine "retrying..." } trace w') :
      Alternates cmd attempt w (.execute (cmd.call w) :: .reconnect pg :: trace) w'

/-- What retries promise. Success ends them; without one they use up all attempts,
and throw what the last call has thrown. Between two calls the client reconnects
once. -/
structure Retries (cmd : Command (World S) (Exn X)) (w : World S) (max : Int) (r : Outcome S X) :
    Prop where
  returns : r.result = .ok () ↔ .ok () ∈ calls r.trace
  bound : (calls r.trace).length ≤ max.toNat
  stops : .ok () ∉ (calls r.trace).dropLast
  exhausts : .ok () ∉ calls r.trace → 1 ≤ max → (calls r.trace).length = max
  throws : .ok () ∉ calls r.trace → ∃ e, r.result = .error e ∧
    ∀ last ∈ (calls r.trace).getLast?, last = .error e
  reconnects : r.trace = [] ∨ Alternates cmd 1 w r.trace r.world

/-! ## The sequence of outcomes -/

/-- The world in which the next attempt is made. -/
def World.reconnected (w : World S) : World S := (w.recover (X := Empty)).1

/-- The outcomes of successive `execute` calls, with the client reconnected after
each exception. -/
def outcome (cmd : Command (World S) (Exn X)) (attempt : Int) (w : World S) :
    Nat → Except (Exn X) Unit
  | 0 => (cmd.execute w).1
  | i + 1 =>
    match cmd.execute w with
    | (.error (.std what), w) =>
      outcome cmd (attempt + 1) (w.logLine s!"attempt {attempt} failed: {what}").reconnected i
    | (_, w) => outcome cmd (attempt + 1) w.reconnected i

variable {cmd : Command (World S) (Exn X)} {max attempt : Int} {w w' : World S}

/-- The world after a retried attempt. -/
def afterFailure (attempt : Int) (what : String) (w : World S) : World S :=
  (w.logLine s!"attempt {attempt} failed: {what}").reconnected

theorem outcome_succ {what : String} (he : cmd.execute w = (.error (.std what), w')) (i : Nat) :
    outcome cmd attempt w (i + 1) = outcome cmd (attempt + 1) (afterFailure attempt what w') i := by
  rw [outcome, he]
  rfl

theorem logs_refl (w : World S) : w.Logs w := ⟨[], by rw [List.append_nil]⟩

theorem logs_logLine (w : World S) (line : String) : w.Logs (w.logLine line) := ⟨[line], rfl⟩

theorem World.Logs.trans {w w' w'' : World S} (h : w.Logs w') (h' : w'.Logs w'') : w.Logs w'' := by
  obtain ⟨lines, rfl⟩ := h
  obtain ⟨lines', rfl⟩ := h'
  exact ⟨lines ++ lines', by rw [← List.append_assoc]⟩

/-- Success ends the loop, so does an exception of another type, and so does the
last attempt. -/
theorem retryLoop_ends (h : attempt ≤ max)
    (hend : attempt < max → ∀ what, (cmd.execute w).1 ≠ .error (.std what)) :
    (retryLoop cmd max attempt w).result = (cmd.execute w).1 ∧
      (retryLoop cmd max attempt w).trace = [.execute (cmd.call w)] ∧
      (cmd.call w).after.Logs (retryLoop cmd max attempt w).world := by
  rw [retryLoop, if_pos h]
  rcases he : cmd.execute w with ⟨(⟨what⟩ | x) | ⟨⟩, w'⟩
  · rw [he] at hend
    have hlast : attempt = max := Int.le_antisymm h (Int.not_lt.mp fun hlt => hend hlt what rfl)
    simp only [Command.call, he, if_pos hlast, true_and]
    exact (logs_logLine w' _).trans (logs_logLine _ _)
  · simp only [Command.call, he, true_and]
    exact logs_refl w'
  · simp only [Command.call, he, true_and]
    split
    · exact logs_logLine w' _
    · exact logs_refl w'

theorem retryLoop_again {what : String} (h : attempt < max)
    (he : cmd.execute w = (.error (.std what), w')) :
    (retryLoop cmd max attempt w).result =
        (retryLoop cmd max (attempt + 1) (afterFailure attempt what w')).result ∧
      (retryLoop cmd max attempt w).trace = .execute (cmd.call w) ::
        .reconnect ((w'.pg.logLine s!"attempt {attempt} failed: {what}").logLine
          "attempting to reconnect...") ::
        (retryLoop cmd max (attempt + 1) (afterFailure attempt what w')).trace ∧
      (retryLoop cmd max attempt w).world =
        (retryLoop cmd max (attempt + 1) (afterFailure attempt what w')).world := by
  rw [retryLoop, if_pos (Int.le_of_lt h)]
  simp only [Command.call, he, if_neg (Int.ne_of_lt h)]
  exact ⟨rfl, rfl, rfl⟩

/-! ## The loop -/

/-- The first `k + 1` outcomes. -/
def outcomes (cmd : Command (World S) (Exn X)) (attempt : Int) (w : World S) (k : Nat) :
    List (Except (Exn X) Unit) := (List.range (k + 1)).map (outcome cmd attempt w)

theorem outcomes_succ {what : String} (he : cmd.execute w = (.error (.std what), w')) (k : Nat) :
    outcomes cmd attempt w (k + 1) =
      .error (.std what) :: outcomes cmd (attempt + 1) (afterFailure attempt what w') k := by
  have hfirst : outcome cmd attempt w 0 = .error (.std what) := by rw [outcome, he]
  have hrest : outcome cmd attempt w ∘ Nat.succ =
      outcome cmd (attempt + 1) (afterFailure attempt what w') := funext (outcome_succ he)
  rw [outcomes, List.range_succ_eq_map, List.map_cons, List.map_map, hfirst, hrest]
  rfl

/-- The loop ends with the outcome of call `k`: it is the last attempt, or not to
be retried, as all before it are. -/
structure EndsAt (cmd : Command (World S) (Exn X)) (max attempt : Int) (w : World S) (k : Nat) :
    Prop where
  le : attempt + k ≤ max
  retried : ∀ i < k, ∃ what, outcome cmd attempt w i = .error (.std what)
  final : attempt + k < max → ∀ what, outcome cmd attempt w k ≠ .error (.std what)
  result : (retryLoop cmd max attempt w).result = outcome cmd attempt w k
  calls : calls (retryLoop cmd max attempt w).trace = outcomes cmd attempt w k
  alternates : Alternates cmd attempt w (retryLoop cmd max attempt w).trace
    (retryLoop cmd max attempt w).world

theorem EndsAt.zero (h : attempt ≤ max)
    (hend : attempt < max → ∀ what, (cmd.execute w).1 ≠ .error (.std what)) :
    EndsAt cmd max attempt w 0 := by
  obtain ⟨hresult, htrace, hworld⟩ := retryLoop_ends h hend
  refine ⟨by omega, fun i hi => absurd hi (Nat.not_lt_zero i), fun hlt => hend (by omega), hresult,
    ?_, ?_⟩
  · rw [htrace]
    rfl
  · rw [htrace]
    exact .last attempt hworld

theorem EndsAt.succ {what : String} {k : Nat} (h : attempt < max)
    (he : cmd.execute w = (.error (.std what), w'))
    (hk : EndsAt cmd max (attempt + 1) (afterFailure attempt what w') k) :
    EndsAt cmd max attempt w (k + 1) := by
  obtain ⟨hresult, htrace, hworld⟩ := retryLoop_again h he
  obtain ⟨hle, hretried, hfinal, hresult', hcalls, halternates⟩ := hk
  refine ⟨by omega, ?_, ?_, ?_, ?_, ?_⟩
  · intro i hi
    cases i with
    | zero => exact ⟨what, by rw [outcome, he]⟩
    | succ i =>
      rw [outcome_succ he]
      exact hretried i (by omega)
  · intro hlt
    rw [outcome_succ he]
    exact hfinal (by omega)
  · rw [hresult, hresult', outcome_succ he]
  · have hcall : (cmd.call w).outcome = .error (.std what) := congrArg Prod.fst he
    rw [htrace, outcomes_succ he, ← hcalls, ← hcall]
    rfl
  · have hafter : (cmd.call w).after = w' := congrArg Prod.snd he
    rw [htrace, hworld]
    refine .again (congrArg Prod.fst he) (by rw [hafter]) ?_
    rw [hafter]
    exact halternates

/-- The loop makes the calls up to the first that is not to be retried, or to the
last attempt. -/
theorem exists_endsAt (cmd : Command (World S) (Exn X)) (w : World S) (h : attempt ≤ max) :
    ∃ k, EndsAt cmd max attempt w k := by
  obtain ⟨n, hn⟩ := Int.le.dest h
  induction n generalizing attempt w with
  | zero => exact ⟨0, .zero h fun hlt => by omega⟩
  | succ n ih =>
    by_cases hstd : ∃ what, (cmd.execute w).1 = .error (.std what)
    · obtain ⟨what, hwhat⟩ := hstd
      obtain ⟨k, hk⟩ := ih (afterFailure attempt what (cmd.execute w).2)
        (show attempt + 1 ≤ max by omega) (by omega)
      exact ⟨k + 1, .succ (by omega) (Prod.ext hwhat rfl) hk⟩
    · exact ⟨0, .zero h fun _ what hwhat => hstd ⟨what, hwhat⟩⟩

/-! ## Retries -/

theorem outcomes_concat (k : Nat) : outcomes cmd attempt w k =
    (List.range k).map (outcome cmd attempt w) ++ [outcome cmd attempt w k] := by
  rw [outcomes, List.range_succ, List.map_append, List.map_singleton]

namespace EndsAt
variable {k : Nat} (h : EndsAt cmd max 1 w k)
include h

theorem calls_eq : Commands.calls (executeWithRetry cmd w max).trace = outcomes cmd 1 w k :=
  h.calls

theorem not_ok_before : .ok () ∉ (List.range k).map (outcome cmd 1 w) := by
  intro hmem
  obtain ⟨i, hi, hok⟩ := List.mem_map.mp hmem
  obtain ⟨what, hwhat⟩ := h.retried i (List.mem_range.mp hi)
  rw [hwhat] at hok
  cases hok

theorem ok_mem_iff : .ok () ∈ outcomes cmd 1 w k ↔ outcome cmd 1 w k = .ok () := by
  rw [outcomes_concat, List.mem_append, List.mem_singleton, or_iff_right h.not_ok_before]
  exact eq_comm

/-- Apart from using up its attempts, the loop keeps all promises. -/
theorem retries (hall : outcome cmd 1 w k ≠ .ok () → k + 1 = max) :
    Retries cmd w max (executeWithRetry cmd w max) where
  returns := by rw [h.calls_eq, h.ok_mem_iff]; exact Eq.congr_left h.result
  bound := by
    have hle := h.le
    rw [h.calls_eq, outcomes, List.length_map, List.length_range]
    omega
  stops := by
    rw [h.calls_eq, outcomes_concat, List.dropLast_concat]
    exact h.not_ok_before
  exhausts hnone _ := by
    rw [h.calls_eq] at hnone ⊢
    rw [outcomes, List.length_map, List.length_range]
    exact_mod_cast hall fun hok => hnone (h.ok_mem_iff.mpr hok)
  throws hnone := by
    rw [h.calls_eq, h.ok_mem_iff] at hnone
    obtain ⟨e, he⟩ : ∃ e, outcome cmd 1 w k = .error e := by
      cases ho : outcome cmd 1 w k with
      | error e => exact ⟨e, rfl⟩
      | ok u => exact absurd ho hnone
    refine ⟨e, h.result.trans he, fun last hlast => ?_⟩
    rw [h.calls_eq, outcomes_concat, List.getLast?_concat] at hlast
    exact (Option.mem_some.mp hlast).symm.trans he
  reconnects := .inr h.alternates

end EndsAt

/-- The bound and the exceptions that the loop needs. -/
theorem retries_of_std (hmax : 1 ≤ max) (hstd : ∀ i : Nat, i + 1 < max →
    (∀ j < i, ∃ what, outcome cmd 1 w j = .error (.std what)) →
    ∀ x, outcome cmd 1 w i ≠ .error (.other x)) :
    Retries cmd w max (executeWithRetry cmd w max) := by
  obtain ⟨k, hk⟩ := exists_endsAt cmd w hmax
  have hle := hk.le
  refine hk.retries fun hok => Int.le_antisymm (by omega) (Int.not_lt.mp fun hlt => ?_)
  cases ho : outcome cmd 1 w k with
  | ok => exact hok ho
  | error e =>
    cases e with
    | std what => exact hk.final (by omega) what ho
    | other x => exact hstd k hlt hk.retried x ho

/-- Retries keep what they promise if and only if there is at least one attempt,
and no attempt but the last is the first to throw an exception of another type. -/
theorem executeWithRetry_retries_iff (cmd : Command (World S) (Exn X)) (w : World S) (max : Int) :
    Retries cmd w max (executeWithRetry cmd w max) ↔
      1 ≤ max ∧ ∀ i : Nat, i + 1 < max →
        (∀ j < i, ∃ what, outcome cmd 1 w j = .error (.std what)) →
        ∀ x, outcome cmd 1 w i ≠ .error (.other x) := by
  constructor
  · intro h
    have hmax : 1 ≤ max := by
      refine Int.not_lt.mp fun hlt => ?_
      have hnone : executeWithRetry cmd w max = ⟨.ok (), w, []⟩ := by
        rw [executeWithRetry, retryLoop, if_neg (by omega)]
      rw [hnone] at h
      obtain ⟨e, he, -⟩ := h.throws (List.not_mem_nil)
      cases he
    obtain ⟨k, hk⟩ := exists_endsAt cmd w hmax
    refine ⟨hmax, fun i hi hbefore x hx => ?_⟩
    have hle := hk.le
    rcases Nat.lt_trichotomy k i with hlt | rfl | hlt
    · obtain ⟨what, hwhat⟩ := hbefore k hlt
      exact hk.final (by omega) what hwhat
    · have hnone : .ok () ∉ outcomes cmd 1 w k := by
        rw [hk.ok_mem_iff, hx]
        exact fun heq => nomatch heq
      have hlength := h.exhausts (hk.calls_eq ▸ hnone) hmax
      rw [hk.calls_eq, outcomes, List.length_map, List.length_range] at hlength
      omega
    · obtain ⟨what, hwhat⟩ := hk.retried i hlt
      rw [hx] at hwhat
      cases hwhat
  · exact fun h => retries_of_std h.1 h.2

/-- A command that throws a number. -/
def fails : Command (World Unit) (Exn Int) := ⟨fun w => (.error (.other 5), w)⟩

def connected : World Unit := ⟨PostgresClient.make "localhost" 5432 "mydb", ()⟩

/-- With no attempts the command does not run, and the call returns as if it had.
With three, an exception of another type ends them after one. -/
theorem fails_not_retried :
    executeWithRetry fails connected 0 = ⟨.ok (), connected, []⟩ ∧
      executeWithRetry fails connected 3 =
        ⟨.error (.other 5), connected, [.execute (fails.call connected)]⟩ ∧
      ¬ Retries fails connected 0 (executeWithRetry fails connected 0) ∧
      ¬ Retries fails connected 3 (executeWithRetry fails connected 3) := by
  have hnone : executeWithRetry fails connected 0 = ⟨.ok (), connected, []⟩ := by
    rw [executeWithRetry, retryLoop, if_neg (by decide)]
  have hone : executeWithRetry fails connected 3 =
      ⟨.error (.other 5), connected, [.execute (fails.call connected)]⟩ := by
    rw [executeWithRetry, retryLoop, if_pos (by decide)]
    rfl
  refine ⟨hnone, hone, ?_, ?_⟩
  · intro h
    rw [hnone] at h
    obtain ⟨e, he, -⟩ := h.throws List.not_mem_nil
    cases he
  · intro h
    rw [hone] at h
    have hnone : .ok () ∉ calls [.execute (fails.call connected)] := by
      simp [calls, Command.call, fails]
    have hlength : ((1 : Nat) : Int) = 3 := h.exhausts hnone (by decide)
    cases hlength

/-! ## Commands on the client -/

/-- A command that works on the client alone; what it throws is a
`std::runtime_error`. -/
def lift (cmd : Command PostgresClient String) : Command (World S) (Exn X) where
  execute w :=
    match cmd.execute w.pg with
    | (.ok (), pg) => (.ok (), { w with pg })
    | (.error what, pg) => (.error (.std what), { w with pg })

theorem lift_execute (cmd : Command PostgresClient String) (w : World S) (x : X) :
    ((lift cmd).execute w).1 ≠ .error (.other x) := by
  rcases he : cmd.execute w.pg with ⟨what | ⟨⟩, pg⟩
  · simp [lift, he]
  · simp [lift, he]

theorem lift_outcome (cmd : Command PostgresClient String) (attempt : Int) (w : World S) (i : Nat)
    (x : X) : outcome (lift cmd) attempt w i ≠ .error (.other x) := by
  induction i generalizing attempt w with
  | zero => exact lift_execute cmd w x
  | succ i ih =>
    rw [outcome]
    split
    · exact ih _ _
    · exact ih _ _

/-- Commands on the client are retried as promised, with one attempt at least. -/
theorem lift_retries (cmd : Command PostgresClient String) (w : World S) (h : 1 ≤ max) :
    Retries (lift cmd : Command (World S) (Exn X)) w max (executeWithRetry (lift cmd) w max) :=
  retries_of_std h fun i _ _ x => lift_outcome cmd 1 w i x

end BackendPatterns.Commands
