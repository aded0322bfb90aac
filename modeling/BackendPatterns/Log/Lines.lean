import Mathlib.Algebra.BigOperators.Ring.Finset
import Mathlib.Algebra.Order.BigOperators.Group.Finset
import BackendPatterns.Lib.Frames
import BackendPatterns.Lib.Machine
import BackendPatterns.Lib.Threads

/-! # Lines that do not mix

`log_line` writes its parts and a newline to one stream while it holds
`log_mutex`. The stream takes one character after the other, and never fails; any
thread may move in between. Still, what it has got are whole lines, each thread's in
the order of its calls. -/

namespace BackendPatterns.Log
open BackendPatterns.Lib BackendPatterns.Lib.Threads BackendPatterns.Lib.Frames

variable {ι : Type}

/-- The parts of one call, each already formatted. -/
def line (parts : List String) : List Char := parts.flatMap String.toList

/-- A thread: before its next call of `log_line`, with the calls `rest` to come,
or inside one, with the characters `pending` to write. -/
inductive Pc
  | next (rest : List (List String))
  | writing (pending : List Char) (rest : List (List String))

/-- `owner` holds `log_mutex`. Kept for the statements only: `order`, the calls
in the order in which they got it. -/
structure State (ι : Type) where
  owner : Option ι
  out : List Char
  pc : ι → Pc
  order : List (ι × List String)

def start (calls : ι → List (List String)) : State ι := ⟨none, [], fun i => .next (calls i), []⟩

variable [DecidableEq ι]

/-- Thread `i` locks, writes a character, or unlocks. -/
def step (s : State ι) (i : ι) : Option (State ι) :=
  match s.pc i with
  | .next [] => none
  | .next (parts :: rest) =>
    match s.owner with
    | none => some
      { s with
        owner := some i
        pc := Function.update s.pc i (.writing (line parts ++ ['\n']) rest)
        order := s.order ++ [(i, parts)] }
    | some _ => none
  | .writing (c :: pending) rest => some
    { s with out := s.out ++ [c], pc := Function.update s.pc i (.writing pending rest) }
  | .writing [] rest => some { s with owner := none, pc := Function.update s.pc i (.next rest) }

/-- What each step does, guards included. -/
inductive Steps (s : State ι) (i : ι) : State ι → Prop
  | lock {parts : List String} {rest : List (List String)} (hi : s.pc i = .next (parts :: rest))
      (ho : s.owner = none) :
      Steps s i
        { s with
          owner := some i
          pc := Function.update s.pc i (.writing (line parts ++ ['\n']) rest)
          order := s.order ++ [(i, parts)] }
  | write {c : Char} {pending : List Char} {rest : List (List String)}
      (hi : s.pc i = .writing (c :: pending) rest) :
      Steps s i
        { s with out := s.out ++ [c], pc := Function.update s.pc i (.writing pending rest) }
  | unlock {rest : List (List String)} (hi : s.pc i = .writing [] rest) :
      Steps s i { s with owner := none, pc := Function.update s.pc i (.next rest) }

variable {s t : State ι} {i : ι} {calls : ι → List (List String)}

theorem step_cases (h : step s i = some t) : Steps s i t := by
  unfold step at h
  split at h
  · cases h
  · rename_i hi
    split at h
    · rename_i ho
      cases h
      exact .lock hi ho
    · cases h
  · rename_i hi
    cases h
    exact .write hi
  · rename_i hi
    cases h
    exact .unlock hi

/-! ## What the stream has got -/

def Pc.pending : Pc → List Char
  | .next _ => []
  | .writing pending _ => pending

def Pc.rest : Pc → List (List String)
  | .next rest | .writing _ rest => rest

def Pc.inside : Pc → Bool
  | .next _ => false
  | .writing _ _ => true

/-- The calls of one thread. -/
def mine (i : ι) (order : List (ι × List String)) : List (List String) :=
  order.filterMap fun c => if c.1 = i then some c.2 else none

omit [DecidableEq ι] in
/-- The lines of some calls, each with its newline. -/
def text (order : List (ι × List String)) : List Char :=
  unframe '\n' (order.map fun c => line c.2)

@[simp] theorem mine_append (i : ι) (order order' : List (ι × List String)) :
    mine i (order ++ order') = mine i order ++ mine i order' := List.filterMap_append

omit [DecidableEq ι] in
@[simp] theorem text_append (order order' : List (ι × List String)) :
    text (order ++ order') = text order ++ text order' := by
  simp [text]

/-- The holder of the mutex is inside `log_line`, alone, and what it has still to
write completes the lines. -/
structure Ordered (calls : ι → List (List String)) (s : State ι) : Prop where
  owner : ∀ i, s.owner = some i ↔ (s.pc i).inside = true
  free : s.owner = none → s.out = text s.order
  held : ∀ i, s.owner = some i → s.out ++ (s.pc i).pending = text s.order ∧
    ∃ before parts, s.order = before ++ [(i, parts)] ∧
      (s.pc i).pending <:+ line parts ++ ['\n']
  program : ∀ i, mine i s.order ++ (s.pc i).rest = calls i

/-- Thread `i` moves on with its own calls, none of them new. -/
theorem Ordered.advance (h : Ordered calls s) {p : Pc} (hp : p.rest = (s.pc i).rest) (j : ι) :
    mine j s.order ++ (Function.update s.pc i p j).rest = calls j := by
  by_cases hj : j = i
  · subst hj
    rw [Function.update_self, hp]
    exact h.program j
  · rw [Function.update_of_ne hj]
    exact h.program j

theorem Ordered.lock (h : Ordered calls s) {parts : List String} {rest : List (List String)}
    (hi : s.pc i = .next (parts :: rest)) (ho : s.owner = none) :
    Ordered calls { s with
      owner := some i
      pc := Function.update s.pc i (.writing (line parts ++ ['\n']) rest)
      order := s.order ++ [(i, parts)] } := by
  refine ⟨?_, nofun, ?_, ?_⟩
  · intro j
    by_cases hj : j = i
    · subst hj
      simp [Pc.inside]
    · have hout : (s.pc j).inside ≠ true := fun hin => by
        rw [(h.owner j).mpr hin] at ho
        cases ho
      simp [Function.update_of_ne hj, Ne.symm hj, hout]
  · intro j hj
    cases hj
    dsimp only
    rw [Function.update_self]
    refine ⟨?_, s.order, parts, rfl, List.suffix_refl _⟩
    rw [text_append, ← h.free ho]
    simp [text, Pc.pending]
  · intro j
    have hprog := h.program j
    dsimp only
    rw [mine_append]
    by_cases hj : j = i
    · subst hj
      rw [hi] at hprog
      rw [Function.update_self, List.append_assoc]
      simpa [mine, Pc.rest] using hprog
    · rw [Function.update_of_ne hj]
      simpa [mine, Ne.symm hj] using hprog

theorem Ordered.write (h : Ordered calls s) {c : Char} {pending : List Char}
    {rest : List (List String)} (hi : s.pc i = .writing (c :: pending) rest) :
    Ordered calls
      { s with out := s.out ++ [c], pc := Function.update s.pc i (.writing pending rest) } := by
  have ho : s.owner = some i := (h.owner i).mpr (by rw [hi]; rfl)
  obtain ⟨hout, before, parts, horder, hsuffix⟩ := h.held i ho
  rw [hi] at hout hsuffix
  refine ⟨?_, ?_, ?_, h.advance (by rw [hi]; rfl)⟩
  · intro j
    dsimp only
    by_cases hj : j = i
    · subst hj
      rw [Function.update_self]
      exact ⟨fun _ => rfl, fun _ => ho⟩
    · rw [Function.update_of_ne hj]
      exact h.owner j
  · intro hnone
    rw [show s.owner = none from hnone] at ho
    cases ho
  · intro j hj
    cases ho.symm.trans hj
    dsimp only
    rw [Function.update_self, List.append_assoc]
    exact ⟨hout, before, parts, horder, (List.suffix_cons c pending).trans hsuffix⟩

theorem Ordered.unlock (h : Ordered calls s) {rest : List (List String)}
    (hi : s.pc i = .writing [] rest) :
    Ordered calls { s with owner := none, pc := Function.update s.pc i (.next rest) } := by
  have ho : s.owner = some i := (h.owner i).mpr (by rw [hi]; rfl)
  obtain ⟨hout, -⟩ := h.held i ho
  rw [hi] at hout
  refine ⟨?_, ?_, nofun, h.advance (by rw [hi]; rfl)⟩
  · intro j
    dsimp only
    by_cases hj : j = i
    · subst hj
      simp [Pc.inside]
    · rw [Function.update_of_ne hj]
      refine ⟨nofun, fun hin => ?_⟩
      cases ho.symm.trans ((h.owner j).mpr hin)
      exact absurd rfl hj
  · intro _
    show s.out = text s.order
    rw [← hout]
    exact (List.append_nil _).symm

theorem Ordered.step (h : Ordered calls s) (hs : step s i = some t) : Ordered calls t := by
  cases step_cases hs with
  | lock hi ho => exact h.lock hi ho
  | write hi => exact h.write hi
  | unlock hi => exact h.unlock hi

theorem ordered_start (calls : ι → List (List String)) : Ordered calls (start calls) :=
  ⟨fun _ => ⟨nofun, nofun⟩, fun _ => rfl, nofun, fun _ => rfl⟩

theorem reachable_ordered (h : Machine.Reachable step (start calls) s) : Ordered calls s :=
  h.invariant (ordered_start calls) fun _ ih hs => ih.step hs

/-! ## Every run -/

variable [Fintype ι]

/-- Each call locks, writes its line and a newline, and unlocks. -/
def callsRank (calls : List (List String)) : Nat :=
  (calls.map fun parts => (line parts).length + 3).sum

def Pc.rank : Pc → Nat
  | .next rest => callsRank rest
  | .writing pending rest => pending.length + 1 + callsRank rest

def State.rank (s : State ι) : Nat := ∑ i, (s.pc i).rank

theorem rank_step (hs : step s i = some t) : t.rank + 1 = s.rank := by
  have hmove : ∀ p : Pc, p.rank + 1 = (s.pc i).rank →
      ∑ j, (Function.update s.pc i p j).rank + 1 = s.rank := by
    intro p hp
    have hsum := sum_update Pc.rank s.pc i p
    rw [State.rank]
    omega
  cases step_cases hs with
  | lock hi =>
    refine hmove _ ?_
    simp only [hi, Pc.rank, callsRank, List.length_append, List.length_singleton, List.map_cons,
      List.sum_cons]
    omega
  | write hi =>
    refine hmove _ ?_
    simp only [hi, Pc.rank, List.length_cons]
    omega
  | unlock hi =>
    refine hmove _ ?_
    simp only [hi, Pc.rank, List.length_nil]
    omega

theorem rank_run {is : List ι} (hr : Machine.run step s is = some t) :
    is.length + t.rank = s.rank := by
  induction is generalizing s with
  | nil => cases hr; simp
  | cons i is ih =>
    obtain ⟨u, hu, hr⟩ := Option.bind_eq_some_iff.mp hr
    have hstep := rank_step hu
    have hrest := ih hr
    rw [List.length_cons]
    omega

omit [Fintype ι] in
/-- Where no thread can go on, all calls have returned. -/
theorem Ordered.stuck (h : Ordered calls s) (hstuck : ∀ i, Log.step s i = none) :
    s.owner = none ∧ ∀ i, s.pc i = .next [] := by
  have hout : ∀ i, (s.pc i).inside = false := by
    intro i
    have hi := hstuck i
    cases hp : s.pc i with
    | next rest => rfl
    | writing pending rest =>
      unfold Log.step at hi
      cases pending <;> simp [hp] at hi
  have ho : s.owner = none := by
    cases hs : s.owner with
    | none => rfl
    | some i =>
      have hin := (h.owner i).mp hs
      rw [hout i] at hin
      cases hin
  refine ⟨ho, fun i => ?_⟩
  have hi := hstuck i
  have hnot := hout i
  cases hp : s.pc i with
  | next rest =>
    cases rest with
    | nil => rfl
    | cons parts rest =>
      unfold Log.step at hi
      simp [hp, ho] at hi
  | writing pending rest =>
    rw [hp] at hnot
    cases hnot

/-- The runs of some threads that log. -/
structure Intact (calls : ι → List (List String)) : Prop where
  /-- At any time the stream has whole lines, but for the last one. -/
  always : ∀ s, Machine.Reachable step (start calls) s → ∃ order pending,
    s.out ++ pending = text order ∧ (∀ i, mine i order <+: calls i) ∧
      (pending = [] ∨ ∃ before i parts, order = before ++ [(i, parts)] ∧
        pending <:+ line parts ++ ['\n'])
  /-- No thread waits for ever. -/
  bounded : ∀ is s, Machine.run step (start calls) is = some s →
    is.length ≤ ∑ i, callsRank (calls i)
  /-- At the end the lines of the threads have been merged. -/
  merged : ∀ s, Machine.Reachable step (start calls) s → (∀ i, step s i = none) → ∃ order,
    s.out = text order ∧ (∀ i, mine i order = calls i) ∧
      ((∀ i, ∀ parts ∈ calls i, '\n' ∉ line parts) →
        frames '\n' s.out = order.map fun c => line c.2)

theorem log_line_intact (calls : ι → List (List String)) : Intact calls := by
  refine ⟨?_, ?_, ?_⟩
  · intro s h
    have hord := reachable_ordered h
    have hmine : ∀ i, mine i s.order <+: calls i := fun i => ⟨_, hord.program i⟩
    cases ho : s.owner with
    | none =>
      exact ⟨s.order, [], by rw [List.append_nil]; exact hord.free ho, hmine, .inl rfl⟩
    | some i =>
      obtain ⟨hout, before, parts, horder, hsuffix⟩ := hord.held i ho
      exact ⟨s.order, (s.pc i).pending, hout, hmine, .inr ⟨before, i, parts, horder, hsuffix⟩⟩
  · intro is s hr
    have hrank := rank_run hr
    have hstart : (start calls).rank = ∑ i, callsRank (calls i) := rfl
    omega
  · intro s h hstuck
    have hord := reachable_ordered h
    obtain ⟨ho, hpc⟩ := hord.stuck hstuck
    have hmine : ∀ i, mine i s.order = calls i := by
      intro i
      have hprog := hord.program i
      rw [hpc i] at hprog
      simpa [Pc.rest] using hprog
    refine ⟨s.order, hord.free ho, hmine, fun hplain => ?_⟩
    rw [hord.free ho]
    refine frames_unframe ?_
    intro l hl
    obtain ⟨⟨i, parts⟩, hmem, rfl⟩ := List.mem_map.mp hl
    refine hplain i parts ?_
    rw [← hmine i]
    exact List.mem_filterMap.mpr ⟨(i, parts), hmem, by simp⟩

end BackendPatterns.Log
