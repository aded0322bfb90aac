import BackendPatterns.Lib.Decimal

/-! # Decorators

Logging and timing may stand around a handler in any order and number. The response
is that of the handler, which is called once, and no decorator reports less time
than those inside of it. -/

namespace BackendPatterns.Decorator
open BackendPatterns.Lib

/-- What handlers work on: the state of the innermost one, how often the clock was
read, and the lines that were logged. -/
structure World (σ : Type) where
  state : σ
  reads : Nat
  log : List Bytes

/-- `handle`, which may throw. -/
abbrev RequestHandler (σ E : Type) := World σ → Bytes → Except E Bytes × World σ

variable {σ E : Type}

def World.logLine (w : World σ) (line : Bytes) : World σ := { w with log := w.log ++ [line] }

/-- What `steady_clock` promises: it never goes back. -/
def Steady (clock : Nat → Int) : Prop := ∀ ⦃i j⦄, i ≤ j → clock i ≤ clock j

/-- `steady_clock::now()` in nanoseconds, where `clock k` is the time of reading `k`. The
readings are taken to be so close together that their differences fit the 64-bit count. -/
def World.now (clock : Nat → Int) (w : World σ) : Int × World σ :=
  (clock w.reads, { w with reads := w.reads + 1 })

def echoHandler : RequestHandler σ E := fun w request => (.ok (str "200 OK: " ++ request), w)

def requestLine (request : Bytes) : Bytes := str "logging: request=" ++ request

def responseLine (response : Bytes) : Bytes := str "logging: response=" ++ response

def timingLine (elapsedUs : Int) : Bytes := str "timing: took " ++ decimal elapsedUs ++ str "us"

def loggingDecorator (inner : RequestHandler σ E) : RequestHandler σ E := fun w request =>
  match inner (w.logLine (requestLine request)) request with
  | (.error e, w) => (.error e, w)
  | (.ok response, w) => (.ok response, w.logLine (responseLine response))

def timingDecorator (clock : Nat → Int) (inner : RequestHandler σ E) : RequestHandler σ E :=
  fun w request =>
    let (start, w) := w.now clock
    match inner w request with
    | (.error e, w) => (.error e, w)
    | (.ok response, w) =>
      let (stop, w) := w.now clock
      (.ok response, w.logLine (timingLine ((stop - start).tdiv 1000)))

inductive Layer
  | logging
  | timing
  deriving DecidableEq

/-- The decorators around a handler, the outermost first. -/
def stack (clock : Nat → Int) (inner : RequestHandler σ E) : List Layer → RequestHandler σ E
  | [] => inner
  | .logging :: layers => loggingDecorator (stack clock inner layers)
  | .timing :: layers => timingDecorator clock (stack clock inner layers)

/-! ## What a stack does -/

/-- What is logged before the handler is called. -/
def opening (request : Bytes) : List Layer → List Bytes
  | [] => []
  | .logging :: layers => requestLine request :: opening request layers
  | .timing :: layers => opening request layers

/-- What is logged after it has returned, where no time is more than `elapsedUs`. -/
inductive Closes (response : Bytes) : List Layer → Int → List Bytes → Prop
  | nil : Closes response [] 0 []
  | logging {layers : List Layer} {elapsedUs : Int} {lines : List Bytes} :
      Closes response layers elapsedUs lines →
      Closes response (.logging :: layers) elapsedUs (lines ++ [responseLine response])
  | timing {layers : List Layer} {inside elapsedUs : Int} {lines : List Bytes} :
      Closes response layers inside lines → inside ≤ elapsedUs →
      Closes response (.timing :: layers) elapsedUs (lines ++ [timingLine elapsedUs])

/-- From `w` the handler is called once, on `u`, and the stack ends in `t` as the
handler did in `x`. -/
structure Wraps (clock : Nat → Int) (layers : List Layer) (request : Bytes) (w u : World σ)
    (x t : Except E Bytes × World σ) : Prop where
  result : t.1 = x.1
  before : u.state = w.state ∧ w.reads ≤ u.reads ∧ u.log = w.log ++ opening request layers
  state : t.2.state = x.2.state
  reads : x.2.reads ≤ t.2.reads
  threw : ∀ e, x.1 = .error e → t.2 = x.2
  returned : ∀ response, x.1 = .ok response → ∃ elapsedUs lines,
    Closes response layers elapsedUs lines ∧ t.2.log = x.2.log ++ lines ∧
      ∀ i j, i ≤ w.reads → t.2.reads ≤ j → elapsedUs ≤ (clock j - clock i).tdiv 1000

variable {clock : Nat → Int} {inner : RequestHandler σ E}

/-- A time is not less than that of a part of it. -/
theorem elapsed_le (hclock : Steady clock) {i j i' j' : Nat} (hi : i' ≤ i) (hij : i ≤ j)
    (hj : j ≤ j') : (clock j - clock i).tdiv 1000 ≤ (clock j' - clock i').tdiv 1000 := by
  have hstart := hclock hi
  have hmiddle := hclock hij
  have hstop := hclock hj
  rw [Int.tdiv_eq_ediv_of_nonneg (by omega), Int.tdiv_eq_ediv_of_nonneg (by omega)]
  exact Int.ediv_le_ediv (by omega) (by omega)

section
variable {layers : List Layer} {request : Bytes} {w u : World σ} {x : Except E Bytes × World σ}

theorem Wraps.logging
    (hu : Wraps clock layers request (w.logLine (requestLine request)) u x
      (inner (w.logLine (requestLine request)) request)) :
    Wraps clock (.logging :: layers) request w u x (loggingDecorator inner w request) := by
  have hbefore : u.state = w.state ∧ w.reads ≤ u.reads ∧
      u.log = w.log ++ opening request (.logging :: layers) :=
    ⟨hu.before.1, hu.before.2.1, hu.before.2.2.trans (List.append_assoc _ _ _)⟩
  unfold loggingDecorator
  rcases ht : inner (w.logLine (requestLine request)) request with ⟨_ | response, t⟩
  · rw [ht] at hu
    refine ⟨hu.result, hbefore, hu.state, hu.reads, hu.threw, fun response hx => ?_⟩
    rw [← hu.result] at hx
    cases hx
  · rw [ht] at hu
    refine ⟨hu.result, hbefore, hu.state, hu.reads, fun e hx => ?_, fun response' hx => ?_⟩
    · rw [← hu.result] at hx
      cases hx
    · obtain ⟨elapsedUs, lines, hcloses, hlog, hbound⟩ := hu.returned response' hx
      rw [← hu.result] at hx
      cases hx
      refine ⟨elapsedUs, _, hcloses.logging, ?_, hbound⟩
      show t.log ++ _ = _
      rw [hlog, List.append_assoc]

theorem Wraps.timing (hclock : Steady clock) (hreads : u.reads ≤ x.2.reads)
    (hu : Wraps clock layers request (w.now clock).2 u x (inner (w.now clock).2 request)) :
    Wraps clock (.timing :: layers) request w u x (timingDecorator clock inner w request) := by
  have hbefore : u.state = w.state ∧ w.reads ≤ u.reads ∧
      u.log = w.log ++ opening request (.timing :: layers) :=
    ⟨hu.before.1, Nat.le_trans (Nat.le_succ _) hu.before.2.1, hu.before.2.2⟩
  have hstart : w.reads + 1 ≤ u.reads := hu.before.2.1
  unfold timingDecorator
  dsimp only
  rcases ht : inner (w.now clock).2 request with ⟨_ | response, t⟩
  · rw [ht] at hu
    refine ⟨hu.result, hbefore, hu.state, hu.reads, hu.threw, fun response hx => ?_⟩
    rw [← hu.result] at hx
    cases hx
  · rw [ht] at hu
    have hstop : x.2.reads ≤ t.reads := hu.reads
    refine ⟨hu.result, hbefore, hu.state, Nat.le_trans hstop (Nat.le_succ _), fun e hx => ?_,
      fun response' hx => ?_⟩
    · rw [← hu.result] at hx
      cases hx
    · obtain ⟨inside, lines, hcloses, hlog, hbound⟩ := hu.returned response' hx
      rw [← hu.result] at hx
      cases hx
      -- the clock was read before and after everything inside
      have hle : inside ≤ (clock t.reads - clock w.reads).tdiv 1000 :=
        hbound _ _ (Nat.le_succ _) (Nat.le_refl _)
      refine ⟨_, _, hcloses.timing hle, ?_, fun i j hi hj => ?_⟩
      · show t.log ++ _ = _
        rw [hlog, List.append_assoc]
        rfl
      · exact elapsed_le hclock hi (by omega) (Nat.le_trans (Nat.le_succ _) hj)

end

theorem wraps_stack (hclock : Steady clock)
    (hreads : ∀ w request, w.reads ≤ (inner w request).2.reads) (layers : List Layer)
    (w : World σ) (request : Bytes) :
    ∃ u, Wraps clock layers request w u (inner u request) (stack clock inner layers w request) := by
  induction layers generalizing w with
  | nil =>
    refine ⟨w, rfl, ⟨rfl, Nat.le_refl _, (List.append_nil _).symm⟩, rfl, Nat.le_refl _,
      fun _ _ => rfl, fun response _ => ⟨0, [], .nil, (List.append_nil _).symm, ?_⟩⟩
    intro i j hi hj
    have hmono := hclock (Nat.le_trans hi (Nat.le_trans (hreads w request) hj))
    exact Int.tdiv_nonneg (by omega) (by decide)
  | cons layer layers ih =>
    cases layer with
    | logging =>
      obtain ⟨u, hu⟩ := ih (w.logLine (requestLine request))
      exact ⟨u, hu.logging⟩
    | timing =>
      obtain ⟨u, hu⟩ := ih (w.now clock).2
      exact ⟨u, hu.timing hclock (hreads u request)⟩

/-- However many decorators stand around a handler, it is called once, with the state
as it was, and what it returns or throws is what the stack does. Before, each request
line was logged; afterwards, unless it throws, the response lines and the times, where
no decorator has taken less time than those inside. -/
theorem stack_transparent (hclock : Steady clock)
    (hreads : ∀ w request, w.reads ≤ (inner w request).2.reads) (layers : List Layer)
    (w : World σ) (request : Bytes) :
    ∃ u x, inner u request = x ∧ u.state = w.state ∧ u.log = w.log ++ opening request layers ∧
      (stack clock inner layers w request).1 = x.1 ∧
      (stack clock inner layers w request).2.state = x.2.state ∧
      (∀ e, x.1 = .error e → (stack clock inner layers w request).2.log = x.2.log) ∧
      ∀ response, x.1 = .ok response → ∃ elapsedUs lines, Closes response layers elapsedUs lines ∧
        (stack clock inner layers w request).2.log = x.2.log ++ lines := by
  obtain ⟨u, hu⟩ := wraps_stack hclock hreads layers w request
  refine ⟨u, _, rfl, hu.before.1, hu.before.2.2, hu.result, hu.state, fun e he => ?_, ?_⟩
  · rw [hu.threw e he]
  · intro response hx
    obtain ⟨elapsedUs, lines, hcloses, hlog, -⟩ := hu.returned response hx
    exact ⟨elapsedUs, lines, hcloses, hlog⟩

/-- The stack of `main`, with a clock that goes 1500 ns from reading to reading. -/
theorem stack_transparent_main : ∃ elapsedUs lines,
    Closes (str "200 OK: GET /users/42") [.timing, .logging] elapsedUs lines ∧
      (stack (E := Unit) (fun k => 1500 * k) echoHandler [.timing, .logging] ⟨(), 0, []⟩
        (str "GET /users/42")).2.log = requestLine (str "GET /users/42") :: lines := by
  have hclock : Steady fun k : Nat => (1500 * k : Int) := fun i j hij => by
    dsimp only
    omega
  obtain ⟨u, _, rfl, -, hlog, -, -, -, hreturned⟩ :=
    @stack_transparent Unit Unit _ echoHandler hclock (fun _ _ => Nat.le_refl _)
      [.timing, .logging] ⟨(), 0, []⟩ (str "GET /users/42")
  obtain ⟨elapsedUs, lines, hcloses, hlines⟩ := hreturned _ rfl
  refine ⟨elapsedUs, lines, hcloses, hlines.trans ?_⟩
  show u.log ++ lines = _
  rw [hlog]
  rfl

end BackendPatterns.Decorator
