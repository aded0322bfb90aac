import Mathlib.Data.List.Induction
import BackendPatterns.Lib.Machine
import BackendPatterns.Lib.Storage
import BackendPatterns.Commands.Client

/-! # The command queue

`execute_all` empties the queue only after its loop. A batch that throws at its
first command has done nothing and may be run again; one that throws later has
completed commands that stay queued. A command may itself call the queue that runs
it, under the loop's iterators. -/

namespace BackendPatterns.Commands
open BackendPatterns.Lib

variable {W E : Type}

/-- What is left of a running command: it returns or throws, with the receiver as it
is then, or it calls the queue and goes on after that. -/
inductive Body (W E : Type)
  | done (result : Except E Unit) (world : W)
  | addCommand (cmd : W → Body W E) (rest : Body W E)
  | executeAll (world : W) (rest : Except E Unit → W → Body W E)

/-- A command that does not call the queue. -/
def Command.body (c : Command W E) (w : W) : Body W E := .done (c.execute w).1 (c.execute w).2

/-- The next thing that the command does is a call of the queue. -/
def Body.Calls : Body W E → Prop
  | .done .. => False
  | .addCommand .. | .executeAll .. => True

/-- The call of `execute_all` that the command is in comes to `r`. -/
def Body.resume (r : Except E Unit) (w : W) : Body W E → Body W E
  | .executeAll _ rest => rest r w
  | body => body

/-- A command object in the queue; `id` tells it from equal ones. -/
structure Queued (W E : Type) where
  id : Nat
  execute : W → Body W E

/-- An active call of `execute_all`: the loop's iterators, and the command that it
runs. -/
structure Loop (W E : Type) where
  it : Iter
  stop : Iter
  id : Nat
  body : Body W E

/-- A queue and its callers; the innermost active call comes first. `added` numbers
the commands, `completed` lists those whose `execute` returned, and `threw` is set
right after an `execute_all` that threw. A fault ends the run. -/
structure State (W E : Type) where
  commands : Storage (Queued W E)
  world : W
  loops : List (Loop W E)
  fault : Bool
  added : Nat
  completed : List Nat
  threw : Bool

def start (w : W) : State W E := ⟨.empty, w, [], false, 0, [], false⟩

namespace State

def addCommand (g : Growth) (s : State W E) (cmd : W → Body W E) : State W E :=
  { s with commands := s.commands.pushBack g ⟨s.added, cmd⟩, added := s.added + 1, threw := false }

/-- A call of `execute_all` comes to `r`, and the command that made it goes on, if it
was a command. -/
def leave (s : State W E) (callers : List (Loop W E)) (r : Except E Unit) : State W E :=
  let threw := match r with
    | .ok () => false
    | .error _ => true
  match callers with
  | [] => { s with loops := [], threw }
  | l :: ls => { s with loops := { l with body := l.body.resume r s.world } :: ls, threw }

/-- The loop at its test, which is undefined for iterators of another generation: the
next command is run, or the queue is cleared. -/
def test (s : State W E) (it stop : Iter) (callers : List (Loop W E)) : State W E :=
  if it.generation ≠ s.commands.generation then { s with fault := true }
  else if it = stop then { s with commands := s.commands.clear }.leave callers (.ok ())
  else
    match s.commands.deref it with
    | some c => { s with loops := ⟨it, stop, c.id, c.execute s.world⟩ :: callers, threw := false }
    | none => { s with fault := true }

def executeAll (s : State W E) (callers : List (Loop W E)) : State W E :=
  s.test s.commands.first s.commands.last callers

/-- The running command gets to its next call of the queue, or to its end. -/
def tick (g : Growth) (s : State W E) : Option (State W E) :=
  match s.loops with
  | [] => none
  | l :: callers =>
    match l.body with
    | .done (.ok ()) world =>
      some ({ s with world, completed := s.completed ++ [l.id] }.test l.it.next l.stop callers)
    | .done (.error e) world => some ({ s with world }.leave callers (.error e))
    | .addCommand cmd rest =>
      some { s.addCommand g cmd with loops := { l with body := rest } :: callers }
    | .executeAll world _ => some ({ s with world }.executeAll (l :: callers))

/-- No command is running. -/
def idle (s : State W E) : Bool := s.loops.isEmpty

end State

/-- `world` is anything the caller does to the receiver between its calls. -/
inductive Action (W E : Type)
  | add (cmd : W → Body W E)
  | executeAll
  | world (f : W → W)
  | tick

def step (g : Growth) (s : State W E) (a : Action W E) : Option (State W E) :=
  if s.fault then none
  else
    match a with
    | .add cmd => if s.idle then some (s.addCommand g cmd) else none
    | .executeAll => if s.idle then some (s.executeAll []) else none
    | .world f => if s.idle then some { s with world := f s.world, threw := false } else none
    | .tick => s.tick g

/-- The commands in the queue, by number. -/
def State.ids (s : State W E) : List Nat := s.commands.items.map Queued.id

/-- The commands added and not completed, in the order they were added. -/
def State.pending (s : State W E) : List Nat :=
  (List.range s.added).filter fun id => id ∉ s.completed

/-- Nothing undefined has happened, commands complete once and in order, and an
`execute_all` that throws leaves exactly what has not completed. -/
structure Exact (s : State W E) : Prop where
  fault : s.fault = false
  completed : s.completed.Pairwise (· < ·)
  remaining : s.threw = true → s.ids = s.pending

/-- The running command is about to call the queue. -/
def State.CallsBack (s : State W E) : Prop := ∃ l ∈ s.loops.head?, l.body.Calls

/-- The running command is about to throw, after others of its batch have completed. -/
def State.ThrowsMidway (s : State W E) : Prop :=
  ∃ l ∈ s.loops.head?, 0 < l.it.pos ∧ ∃ e w, l.body = .done (.error e) w

/-! ## One batch at a time -/

/-- How many commands of the batch have completed. -/
def State.pos (s : State W E) : Nat :=
  match s.loops with
  | [] => 0
  | l :: _ => l.it.pos

/-- The loop is at one of the commands of the queue, which it is running. -/
structure Running (v : Storage (Queued W E)) (l : Loop W E) : Prop where
  generation : l.it.generation = v.generation
  stop : l.stop = v.last
  id : v.items[l.it.pos]?.map Queued.id = some l.id

/-- Before a batch, every command added is completed or still in the queue, in order;
and a batch completes its commands from the first on. -/
structure Tidy (s : State W E) : Prop where
  fault : s.fault = false
  loops : s.loops = [] ∨ ∃ l, s.loops = [l] ∧ Running s.commands l
  threw : s.threw = true → s.loops = []
  numbered : ∃ before, s.completed = before ++ s.ids.take s.pos ∧
    before ++ s.ids = List.range s.added

theorem tidy_start (w : W) : Tidy (start w : State W E) :=
  ⟨rfl, .inl rfl, fun _ => rfl, [], rfl, rfl⟩

variable {g : Growth} {s t : State W E} {a : Action W E}

theorem pos_idle (h : s.loops = []) : s.pos = 0 := by
  rw [State.pos, h]

theorem pos_running {l : Loop W E} (h : s.loops = [l]) : s.pos = l.it.pos := by
  rw [State.pos, h]

theorem Tidy.exact (h : Tidy s) : Exact s := by
  obtain ⟨before, hcompleted, hall⟩ := h.numbered
  have hsorted : (before ++ s.ids).Pairwise (· < ·) := by
    rw [hall]
    exact List.pairwise_lt_range
  refine ⟨h.fault, ?_, fun hthrew => ?_⟩
  · rw [hcompleted]
    exact hsorted.sublist ((List.take_sublist ..).append_left _)
  have hbefore : s.completed = before := by
    rw [hcompleted, pos_idle (h.threw hthrew), List.take_zero, List.append_nil]
  have hdisj := (List.pairwise_append.mp hsorted).2.2
  have hnone : before.filter (fun id => id ∉ before) = [] := by
    simp
  have hself : s.ids.filter (fun id => id ∉ before) = s.ids := by
    refine List.filter_eq_self.mpr fun id hid => ?_
    have hnot : id ∉ before := fun hc => Nat.lt_irrefl id (hdisj id hc id hid)
    simpa using hnot
  rw [State.pending, ← hall, hbefore, List.filter_append, hnone, hself, List.nil_append]

/-- The loop goes to its test with a command completed more, or at its beginning. -/
theorem tidy_test {it : Iter} {before : List Nat} (hfault : s.fault = false)
    (hgen : it.generation = s.commands.generation) (hpos : it.pos ≤ s.commands.items.length)
    (hcompleted : s.completed = before ++ s.ids.take it.pos)
    (hall : before ++ s.ids = List.range s.added) : Tidy (s.test it s.commands.last []) := by
  unfold State.test
  rw [if_neg (not_not_intro hgen)]
  by_cases hlast : it = s.commands.last
  · rw [if_pos hlast]
    have hfull : s.completed = List.range s.added := by
      rw [hcompleted, hlast, ← hall]
      simp [Storage.last, State.ids, ← List.map_take]
    exact ⟨hfault, .inl rfl, fun _ => rfl, s.completed, (List.append_nil _).symm,
      (List.append_nil _).trans hfull⟩
  · rw [if_neg hlast]
    have hlt : it.pos < s.commands.items.length := by
      refine Nat.lt_of_le_of_ne hpos fun heq => hlast ?_
      cases it
      simp_all [Storage.last]
    rw [Storage.deref_eq hgen, List.getElem?_eq_getElem hlt]
    refine ⟨hfault, .inr ⟨_, rfl, hgen, rfl, ?_⟩, nofun, before, hcompleted, hall⟩
    rw [List.getElem?_eq_getElem hlt]
    rfl

/-- A call from outside finds no command running. -/
theorem step_cases (hs : step g s a = some t) : s.fault = false ∧
    (a = .tick ∧ s.tick g = some t ∨
      s.loops = [] ∧ ((∃ cmd, a = .add cmd ∧ t = s.addCommand g cmd) ∨
        (a = .executeAll ∧ t = s.executeAll []) ∨
        ∃ f, a = .world f ∧ t = { s with world := f s.world, threw := false })) := by
  unfold step at hs
  split at hs
  · cases hs
  rename_i hfault
  refine ⟨by simpa using hfault, ?_⟩
  have hidle : s.idle = true → s.loops = [] := List.isEmpty_iff.mp
  cases a with
  | add cmd =>
    obtain ⟨hi, hs⟩ := Option.ite_none_right_eq_some.mp hs
    exact .inr ⟨hidle hi, .inl ⟨cmd, rfl, (Option.some.inj hs).symm⟩⟩
  | executeAll =>
    obtain ⟨hi, hs⟩ := Option.ite_none_right_eq_some.mp hs
    exact .inr ⟨hidle hi, .inr (.inl ⟨rfl, (Option.some.inj hs).symm⟩)⟩
  | world f =>
    obtain ⟨hi, hs⟩ := Option.ite_none_right_eq_some.mp hs
    exact .inr ⟨hidle hi, .inr (.inr ⟨f, rfl, (Option.some.inj hs).symm⟩)⟩
  | tick => exact .inl ⟨rfl, hs⟩

/-- A command returns, or is the first of its batch to be run and throws. -/
theorem Tidy.tick (h : Tidy s) (hs : s.tick g = some t) (hquiet : ¬ s.CallsBack)
    (hmidway : ¬ s.ThrowsMidway) : Tidy t := by
  obtain ⟨before, hcompleted, hall⟩ := h.numbered
  unfold State.tick at hs
  rcases h.loops with hidle | ⟨l, hl, hrun⟩
  · rw [hidle] at hs
    cases hs
  rw [pos_running hl] at hcompleted
  have hhead : l ∈ s.loops.head? := by rw [hl]; rfl
  rw [hl] at hs
  cases hb : l.body with
  | addCommand cmd rest => exact absurd ⟨l, hhead, by rw [hb]; trivial⟩ hquiet
  | executeAll w rest => exact absurd ⟨l, hhead, by rw [hb]; trivial⟩ hquiet
  | done r w =>
    simp only [hb] at hs
    cases r with
    | ok =>
      cases hs
      have hid : s.ids[l.it.pos]? = some l.id := by
        rw [State.ids, List.getElem?_map]
        exact hrun.id
      have hlt : l.it.pos < s.commands.items.length := by
        obtain ⟨hlt, -⟩ := List.getElem?_eq_some_iff.mp hid
        simpa [State.ids] using hlt
      have htake : s.ids.take (l.it.pos + 1) = s.ids.take l.it.pos ++ [l.id] := by
        rw [List.take_add_one, hid]
        rfl
      rw [hrun.stop]
      refine tidy_test h.fault hrun.generation hlt ?_ hall
      show s.completed ++ [l.id] = before ++ s.ids.take (l.it.pos + 1)
      rw [htake, hcompleted, List.append_assoc]
    | error e =>
      cases hs
      have hzero : l.it.pos = 0 :=
        Nat.eq_zero_of_not_pos fun hpos => hmidway ⟨l, hhead, hpos, e, w, hb⟩
      rw [hzero] at hcompleted
      exact ⟨h.fault, .inl rfl, fun _ => rfl, before, hcompleted, hall⟩

/-- A step keeps the queue tidy unless the command that runs calls it, or throws
after others of its batch have completed. -/
theorem Tidy.step (h : Tidy s) (hs : step g s a = some t)
    (hc : a = .tick → ¬ s.CallsBack ∧ ¬ s.ThrowsMidway) : Tidy t := by
  obtain ⟨hfault, ⟨ha, hs⟩ | ⟨hidle, hs⟩⟩ := step_cases hs
  · exact h.tick hs (hc ha).1 (hc ha).2
  obtain ⟨before, hcompleted, hall⟩ := h.numbered
  rw [pos_idle hidle] at hcompleted
  obtain ⟨cmd, rfl, rfl⟩ | ⟨rfl, rfl⟩ | ⟨f, rfl, rfl⟩ := hs
  · refine ⟨hfault, .inl hidle, nofun, before, ?_, ?_⟩
    · rw [pos_idle (s := s.addCommand g cmd) hidle]
      exact hcompleted
    · simp only [State.ids, State.addCommand, Storage.pushBack_items, List.map_append,
        List.map_cons, List.map_nil, List.range_succ, ← hall, List.append_assoc]
  · exact tidy_test hfault rfl (Nat.zero_le _) hcompleted hall
  · refine ⟨hfault, .inl hidle, nofun, before, ?_, hall⟩
    rw [pos_idle (s := { s with world := f s.world, threw := false }) hidle]
    exact hcompleted

/-- A batch that throws midway keeps in the queue what it has completed. -/
theorem Tidy.not_exact (h : Tidy s) (hm : s.ThrowsMidway) :
    ∃ t, Commands.step g s .tick = some t ∧ ¬ Exact t := by
  obtain ⟨before, hcompleted, hall⟩ := h.numbered
  obtain ⟨l, hhead, hpos, e, w, hb⟩ := hm
  obtain hidle | ⟨l', hl, hrun⟩ := h.loops
  · rw [hidle] at hhead
    cases hhead
  obtain rfl : l' = l := by
    rw [hl] at hhead
    cases hhead
    rfl
  refine ⟨{ s with world := w, loops := [], threw := true }, ?_, fun hex => ?_⟩
  · simp only [Commands.step, h.fault, State.tick, hl, hb]
    rfl
  · obtain ⟨d, hd⟩ : ∃ d, d ∈ s.ids.take l'.it.pos := by
      refine List.exists_mem_of_ne_nil _ fun hnil => ?_
      have hnone := hrun.id
      rw [← List.getElem?_map] at hnone
      rcases List.take_eq_nil_iff.mp hnil with hzero | hempty
      · omega
      · rw [State.ids] at hempty
        rw [hempty] at hnone
        cases hnone
    have hdone : d ∈ s.completed := by
      rw [hcompleted, pos_running hl]
      exact List.mem_append_right _ hd
    have hleft : d ∈ s.pending := by
      have hremaining : s.ids = s.pending := hex.remaining rfl
      rw [← hremaining]
      exact List.mem_of_mem_take hd
    simp [State.pending, hdone] at hleft

/-! ## Runs -/

/-- In every run whose commands do not call the queue that runs them, commands
complete once and in order and an `execute_all` that throws leaves exactly what has
not completed, if and only if no command throws after others of its batch have
completed. -/
theorem commandQueue_exact_iff (g : Growth) (w : W) (as : List (Action W E))
    (hquiet : ∀ as' s, as' ++ [.tick] <+: as → Machine.run (step g) (start w) as' = some s →
      ¬ s.CallsBack) :
    (∀ as' s, as' <+: as → Machine.run (step g) (start w) as' = some s → Exact s) ↔
      ∀ as' s, as' ++ [.tick] <+: as → Machine.run (step g) (start w) as' = some s →
        ¬ s.ThrowsMidway := by
  have htidy : (∀ as' s, as' ++ [.tick] <+: as → Machine.run (step g) (start w) as' = some s →
      Tidy s → ¬ s.ThrowsMidway) →
      ∀ as' s, as' <+: as → Machine.run (step g) (start w) as' = some s → Tidy s := by
    intro hmidway as' s hp hr
    induction as' using List.reverseRecOn generalizing s with
    | nil =>
      cases hr
      exact tidy_start w
    | append_singleton as' a ih =>
      rw [Machine.run_append] at hr
      obtain ⟨t, ht, hs⟩ := Option.bind_eq_some_iff.mp hr
      obtain ⟨u, hu, hs⟩ := Option.bind_eq_some_iff.mp hs
      cases hs
      have hbefore := ih t ((List.prefix_append _ _).trans hp) ht
      refine hbefore.step hu fun ha => ?_
      subst ha
      exact ⟨hquiet as' t hp ht, hmidway as' t hp ht hbefore⟩
  constructor
  · intro h
    have hmidway : ∀ as' s, as' ++ [.tick] <+: as →
        Machine.run (step g) (start w) as' = some s → Tidy s → ¬ s.ThrowsMidway := by
      intro as' s hp hr hs hm
      obtain ⟨t, ht, hnot⟩ := hs.not_exact (g := g) hm
      exact hnot (h _ t hp (Machine.run_snoc hr ht))
    intro as' s hp hr
    exact hmidway as' s hp hr (htidy hmidway as' s ((List.prefix_append _ _).trans hp) hr)
  · intro h as' s hp hr
    exact (htidy (fun as' s hp hr _ => h as' s hp hr) as' s hp hr).exact

/-- The client loses its connection while it executes this command. -/
def droppedUpdate (table id data : String) : Command PostgresClient String :=
  ⟨fun pg => pg.disconnect.update table id data⟩

def client : PostgresClient := .make "localhost" 5432 "mydb"

/-- An insert and an update; the update throws, the caller reconnects and
executes the batch again. -/
def retried : List (Action PostgresClient String) :=
  [.add (insertCommand "users" "(1, 'alice')").body,
    .add (droppedUpdate "users" "1" "name='bob'").body,
    .executeAll, .tick, .tick, .world PostgresClient.reconnect, .executeAll, .tick]

/-- The insert completes twice. -/
theorem insert_completes_twice : ∃ s, Machine.run (step .doubling) (start client) retried = some s ∧
    s.completed = [0, 0] ∧ ¬ Exact s :=
  ⟨_, rfl, rfl, fun h => absurd h.completed (by decide)⟩

/-! ## Commands that call the queue -/

/-- A command that queues another. -/
def queues (n : Nat) : Nat → Body Nat String :=
  fun w => .addCommand (fun w => .done (.ok ()) (w + n)) (.done (.ok ()) w)

/-- The queue is full, so its commands move to new storage under the loop. -/
example : (Machine.run (step .doubling) (start 0) [.add (queues 1), .executeAll, .tick, .tick]).map
    State.fault = some true := by
  decide

/-- With room in the queue the loop does not see the new command, and `clear` drops it. -/
example : (Machine.run (step .doubling) (start 0)
      [.add (queues 1), .add (queues 2), .add (queues 3), .executeAll, .tick, .tick]).map
        (fun s => (s.fault, s.ids)) =
    some (false, [0, 1, 2, 3]) := by
  decide

/-- A command that executes its own batch when it finds `0`. -/
def executesBatch : Nat → Body Nat String :=
  fun w => if w = 0 then .executeAll 1 (fun _ w => .done (.ok ()) w) else .done (.ok ()) w

/-- The inner call completes the command and clears the queue under the outer one, which
completes it again. -/
example : (Machine.run (step .doubling) (start 0)
      [.add executesBatch, .executeAll, .tick, .tick, .tick]).map
        (fun s => (s.fault, s.completed)) =
    some (true, [0, 0]) := by
  decide

/-! ## The commands of the client -/

/-- Every queued command is a statement, and after the first of a batch the client is
known to be connected. -/
structure Stated (s : State PostgresClient String) : Prop where
  queued : ∀ q ∈ s.commands.items, ∃ c, IsStatement c ∧ q.execute = c.body
  running : ∀ l ∈ s.loops, ∃ c pg, IsStatement c ∧ l.body = c.body pg ∧
    (0 < l.it.pos → pg.connected = true)

/-- A statement neither calls the queue nor throws while the client is connected. -/
theorem IsStatement.body_cases {c : Command PostgresClient String} (h : IsStatement c)
    (pg : PostgresClient) : (∃ pg', pg'.connected = true ∧ c.body pg = .done (.ok ()) pg') ∨
      (pg.connected = false ∧ c.body pg = .done (.error "postgres connection lost") pg) := by
  rcases he : c.execute pg with ⟨r, pg'⟩
  rw [Command.body, he]
  obtain ⟨-, hpg', rfl⟩ | ⟨hpg, rfl, rfl⟩ := h.cases he
  · exact .inl ⟨pg', hpg', rfl⟩
  · exact .inr ⟨hpg, rfl⟩

section Stated
variable {s t : State PostgresClient String} {a : Action PostgresClient String}

theorem Stated.not_callsBack (h : Stated s) : ¬ s.CallsBack := by
  rintro ⟨l, hl, hcalls⟩
  obtain ⟨c, pg, -, hb, -⟩ := h.running l (List.mem_of_mem_head? hl)
  rw [hb] at hcalls
  exact hcalls

theorem Stated.not_throwsMidway (h : Stated s) : ¬ s.ThrowsMidway := by
  rintro ⟨l, hl, hpos, e, w, hthrows⟩
  obtain ⟨c, pg, hc, hb, hconn⟩ := h.running l (List.mem_of_mem_head? hl)
  rw [hb] at hthrows
  obtain ⟨pg', -, hbody⟩ | ⟨hdown, -⟩ := hc.body_cases pg
  · rw [hbody] at hthrows
    cases hthrows
  · rw [hconn hpos] at hdown
    cases hdown

/-- The loop runs the next statement, if any. -/
theorem stated_test {it stop : Iter}
    (hq : ∀ q ∈ s.commands.items, ∃ c, IsStatement c ∧ q.execute = c.body)
    (hl : ∀ l ∈ s.loops, ∃ c pg, IsStatement c ∧ l.body = c.body pg ∧
      (0 < l.it.pos → pg.connected = true))
    (hconn : 0 < it.pos → s.world.connected = true) : Stated (s.test it stop []) := by
  unfold State.test
  split
  · exact ⟨hq, hl⟩
  split
  · exact ⟨nofun, nofun⟩
  split
  · rename_i q hd
    refine ⟨hq, fun l hl => ?_⟩
    obtain ⟨c, hc, hbody⟩ := hq q (Storage.mem_of_deref hd)
    rw [List.mem_singleton.mp hl]
    exact ⟨c, s.world, hc, congrFun hbody s.world, hconn⟩
  · exact ⟨hq, hl⟩

theorem Stated.step (h : Stated s) (htidy : Tidy s) (hs : step g s a = some t)
    (hadd : ∀ cmd, a = .add cmd → ∃ c, IsStatement c ∧ cmd = c.body) : Stated t := by
  obtain ⟨-, ⟨-, ht⟩ | ⟨-, ht⟩⟩ := step_cases hs
  · unfold State.tick at ht
    obtain hidle | ⟨l, hl, -⟩ := htidy.loops
    · rw [hidle] at ht
      cases ht
    obtain ⟨c, pg, hc, hb, -⟩ := h.running l (by rw [hl]; exact List.mem_singleton_self l)
    rw [hl] at ht
    obtain ⟨pg', hconn, hbody⟩ | ⟨-, hbody⟩ := hc.body_cases pg
    · simp only [hb, hbody] at ht
      cases ht
      exact stated_test h.queued (by rw [← hl]; exact h.running) fun _ => hconn
    · simp only [hb, hbody] at ht
      cases ht
      exact ⟨h.queued, nofun⟩
  · obtain ⟨cmd, ha, rfl⟩ | ⟨-, rfl⟩ | ⟨f, -, rfl⟩ := ht
    · refine ⟨fun q hq => ?_, h.running⟩
      rw [State.addCommand, Storage.pushBack_items] at hq
      obtain hold | hnew := List.mem_append.mp hq
      · exact h.queued q hold
      · rw [List.mem_singleton.mp hnew]
        exact hadd cmd ha
    · exact stated_test h.queued h.running fun hpos => absurd hpos (Nat.lt_irrefl 0)
    · exact ⟨h.queued, h.running⟩

/-- In a run whose commands are all statements, none calls the queue or throws after
others of its batch have completed. -/
theorem statements_quiet (g : Growth) (pg : PostgresClient)
    {as : List (Action PostgresClient String)}
    (hadd : ∀ cmd, .add cmd ∈ as → ∃ c, IsStatement c ∧ cmd = c.body)
    (hr : Machine.run (Commands.step g) (start pg) as = some s) : Stated s ∧ Tidy s := by
  induction as using List.reverseRecOn generalizing s with
  | nil =>
    cases hr
    exact ⟨⟨nofun, nofun⟩, tidy_start pg⟩
  | append_singleton as a ih =>
    rw [Machine.run_append] at hr
    obtain ⟨t, ht, hs⟩ := Option.bind_eq_some_iff.mp hr
    obtain ⟨u, hu, hs⟩ := Option.bind_eq_some_iff.mp hs
    cases hs
    obtain ⟨hstated, htidy⟩ := ih (fun cmd hcmd => hadd cmd (List.mem_append_left _ hcmd)) ht
    refine ⟨hstated.step htidy hu fun cmd ha => hadd cmd ?_, htidy.step hu fun _ => ?_⟩
    · rw [ha]
      exact List.mem_append_right _ (List.mem_singleton_self _)
    · exact ⟨hstated.not_callsBack, hstated.not_throwsMidway⟩

end Stated

/-- The batch of `main`. -/
def batch : List (Action PostgresClient String) :=
  [.add (insertCommand "users" "(1, 'alice')").body, .add (insertCommand "users" "(2, 'bob')").body,
    .add (updateCommand "users" "1" "name='alice_updated'").body,
    .add (deleteCommand "logs" "42").body, .executeAll, .tick, .tick, .tick, .tick]

theorem commandQueue_exact_iff_batch :
    ∃ s, Machine.run (step .doubling) (start client) batch = some s ∧ s.completed = [0, 1, 2, 3] ∧
      s.ids = [] ∧ Exact s := by
  have hadd : ∀ cmd, .add cmd ∈ batch → ∃ c, IsStatement c ∧ cmd = c.body := by
    intro cmd hcmd
    simp only [batch, List.mem_cons, Action.add.injEq, reduceCtorEq, List.not_mem_nil, or_false,
      or_self] at hcmd
    obtain rfl | rfl | rfl | rfl := hcmd
    · exact ⟨_, insertCommand_isStatement .., rfl⟩
    · exact ⟨_, insertCommand_isStatement .., rfl⟩
    · exact ⟨_, updateCommand_isStatement .., rfl⟩
    · exact ⟨_, deleteCommand_isStatement .., rfl⟩
  have hstated : ∀ as' s, as' ++ [.tick] <+: batch →
      Machine.run (step .doubling) (start client) as' = some s → Stated s := by
    intro as' s hp hr
    refine (statements_quiet .doubling client (fun cmd hcmd => hadd cmd ?_) hr).1
    exact hp.subset (List.mem_append_left _ hcmd)
  have hexact := (commandQueue_exact_iff .doubling client batch
    fun as' s hp hr => (hstated as' s hp hr).not_callsBack).mpr
    fun as' s hp hr => (hstated as' s hp hr).not_throwsMidway
  exact ⟨_, rfl, rfl, rfl, hexact batch _ (List.prefix_refl _) rfl⟩

end BackendPatterns.Commands
