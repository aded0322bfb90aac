import BackendPatterns.Pointers.Context

/-! # Who keeps what alive

Without counts: the pool lives until `main` and every context have given it up, and
the tracer until `main` has. The control blocks implement this. -/

namespace BackendPatterns.Pointers
open BackendPatterns.Lib BackendPatterns.Lib.Counted

/-- What `main` still owns, and the contexts that are open. -/
structure Owned (κ : Type) where
  dbPool : Bool
  tracer : Bool
  contexts : κ → Option Request
  out : Bytes

def Owned.start {κ : Type} : Owned κ := ⟨true, true, fun _ => none, []⟩

/-- What is printed for a request. -/
def answer (tracing : Bool) (request : Request) : Bytes :=
  if request.path = str "/health" then responseLine request ⟨200, str "ok"⟩
  else if request.path = str "/user/42" then
    (if tracing then str "[trace] handle_user\n" else []) ++
      responseLine request ⟨200, str "user=42 name=Ada"⟩
  else responseLine request ⟨404, str "not found"⟩

variable {κ : Type} [DecidableEq κ]

/-- A context is made of pointers that `main` still has, and used while it is open. -/
def Owned.step (o : Owned κ) : Action κ → Option (Owned κ)
  | .construct k request =>
    if o.dbPool ∧ o.contexts k = none then
      some { o with contexts := Function.update o.contexts k (some request) }
    else none
  | .dispatch k => (o.contexts k).map fun request =>
    { o with out := o.out ++ answer o.tracer request }
  | .destroy k => (o.contexts k).map fun _ =>
    { o with contexts := Function.update o.contexts k none }
  | .resetTracer => some { o with tracer := false, out := o.out ++ expiredLine }
  | .leave => some { o with dbPool := false, tracer := false }

/-- The pointers that stand for what is owned. -/
structure Points (o : Owned κ) (vars : Var κ → Ptr) : Prop where
  dbPool : vars .dbPool = if o.dbPool then .strong 0 else .null
  tracer : vars .tracer = if o.tracer then .strong 1 else .null
  tracerWeak : vars .tracerWeak = .null ∨ vars .tracerWeak = .weak 1 ∧ o.dbPool = true
  db : ∀ k, vars (.db k) = if (o.contexts k).isSome then .strong 0 else .null
  ctxTracer : ∀ k, vars (.ctxTracer k) = .null ∨
    vars (.ctxTracer k) = .weak 1 ∧ (o.contexts k).isSome
  traced : ∀ k, o.tracer = true → (o.contexts k).isSome → vars (.ctxTracer k) = .weak 1
  locked : vars .locked = .null
  left : o.dbPool = false → o.tracer = false

section
variable {o : Owned κ} {vars : Var κ → Ptr}

omit [DecidableEq κ] in
theorem Points.owner (h : Points o vars) {i : Var κ} {n : Nat} (hi : vars i = .strong n) :
    n = 0 ∧ (o.dbPool = true ∨ ∃ k, (o.contexts k).isSome) ∨ n = 1 ∧ o.tracer = true := by
  cases i with
  | dbPool =>
    rw [h.dbPool] at hi
    split at hi
    · exact .inl ⟨(Ptr.strong.inj hi).symm, .inl ‹_›⟩
    · cases hi
  | tracer =>
    rw [h.tracer] at hi
    split at hi
    · exact .inr ⟨(Ptr.strong.inj hi).symm, ‹_›⟩
    · cases hi
  | tracerWeak => rcases h.tracerWeak with ht | ⟨ht, -⟩ <;> rw [ht] at hi <;> cases hi
  | db k =>
    rw [h.db] at hi
    split at hi
    · exact .inl ⟨(Ptr.strong.inj hi).symm, .inr ⟨k, ‹_›⟩⟩
    · cases hi
  | ctxTracer k => rcases h.ctxTracer k with ht | ⟨ht, -⟩ <;> rw [ht] at hi <;> cases hi
  | locked =>
    rw [h.locked] at hi
    cases hi

omit [DecidableEq κ] in
theorem Points.pool_owned (h : Points o vars) :
    (∃ i, vars i = .strong 0) ↔ o.dbPool = true ∨ ∃ k, (o.contexts k).isSome := by
  constructor
  · rintro ⟨i, hi⟩
    rcases h.owner hi with ⟨-, hp⟩ | ⟨hn, -⟩
    · exact hp
    · cases hn
  · rintro (hp | ⟨k, hk⟩)
    · exact ⟨.dbPool, by rw [h.dbPool, if_pos hp]⟩
    · exact ⟨.db k, by rw [h.db, if_pos hk]⟩

omit [DecidableEq κ] in
theorem Points.tracer_owned (h : Points o vars) : (∃ i, vars i = .strong 1) ↔ o.tracer = true := by
  constructor
  · rintro ⟨i, hi⟩
    rcases h.owner hi with ⟨hn, -⟩ | ⟨-, ht⟩
    · cases hn
    · exact ht
  · intro ht
    exact ⟨.tracer, by rw [h.tracer, if_pos ht]⟩

omit [DecidableEq κ] in
/-- Once everything is given up, no pointer is left. -/
theorem Points.nothing (h : Points o vars) (hp : o.dbPool = false)
    (hk : ∀ k, o.contexts k = none) (i : Var κ) : vars i = .null := by
  cases i with
  | dbPool => simp [h.dbPool, hp]
  | tracer => simp [h.tracer, h.left hp]
  | tracerWeak => simpa [hp] using h.tracerWeak
  | db k => simp [h.db, hk]
  | ctxTracer k => simpa [hk] using h.ctxTracer k
  | locked => exact h.locked

theorem Points.construct (h : Points o vars) {k : κ} (request : Request) (hp : o.dbPool = true)
    (hk : o.contexts k = none) :
    Points { o with contexts := Function.update o.contexts k (some request) }
      (Function.update (Function.update vars (.db k) (vars .dbPool)) (.ctxTracer k)
        (vars .tracer).watch) := by
  have hwatch : (vars .tracer).watch = if o.tracer then .weak 1 else .null := by
    rw [h.tracer]
    split <;> rfl
  refine ⟨h.dbPool, h.tracer, h.tracerWeak, ?_, ?_, ?_, h.locked, h.left⟩
  · intro j
    by_cases hj : j = k
    · subst hj
      simp [h.dbPool, hp]
    · simpa [Function.update_of_ne, hj] using h.db j
  · intro j
    by_cases hj : j = k
    · subst hj
      rw [Function.update_self, hwatch]
      split <;> simp
    · simpa [Function.update_of_ne, hj] using h.ctxTracer j
  · intro j ht hopen
    by_cases hj : j = k
    · subst hj
      rw [Function.update_self, hwatch, if_pos ht]
    · have hopen' : (o.contexts j).isSome := by simpa [Function.update_of_ne hj] using hopen
      simpa [Function.update_of_ne, hj] using h.traced j ht hopen'

theorem Points.destroy (h : Points o vars) (k : κ) :
    Points { o with contexts := Function.update o.contexts k none }
      (Function.update (Function.update vars (.ctxTracer k) .null) (.db k) .null) := by
  refine ⟨h.dbPool, h.tracer, h.tracerWeak, ?_, ?_, ?_, h.locked, h.left⟩
  · intro j
    by_cases hj : j = k
    · subst hj
      simp
    · simpa [Function.update_of_ne, hj] using h.db j
  · intro j
    by_cases hj : j = k
    · subst hj
      simp
    · simpa [Function.update_of_ne, hj] using h.ctxTracer j
  · intro j ht hopen
    by_cases hj : j = k
    · subst hj
      simp at hopen
    · have hopen' : (o.contexts j).isSome := by simpa [Function.update_of_ne hj] using hopen
      simpa [Function.update_of_ne, hj] using h.traced j ht hopen'

theorem Points.resetTracer (h : Points o vars) :
    Points { o with tracer := false }
      (Function.update (Function.update vars .tracerWeak (vars .tracer).watch) .tracer .null) := by
  refine ⟨h.dbPool, by simp, ?_, h.db, h.ctxTracer, nofun, h.locked, fun _ => rfl⟩
  have htracer := h.tracer
  split at htracer
  · rename_i ht
    right
    have hp : o.dbPool = true := by
      by_contra hp
      simp [h.left (by simpa using hp)] at ht
    simp [htracer, Ptr.watch, hp]
  · left
    simp [htracer, Ptr.watch]

theorem Points.leave (h : Points o vars) :
    Points { o with dbPool := false, tracer := false }
      (Function.update (Function.update (Function.update vars .tracerWeak .null) .tracer .null)
        .dbPool .null) :=
  ⟨by simp, by simp, by simp, h.db, h.ctxTracer, nofun, h.locked, fun _ => rfl⟩

/-- A temporary that is given up leaves no trace. -/
theorem Points.unlock (h : Points o vars) (p : Ptr) :
    Function.update (Function.update vars .locked p) .locked .null = vars := by
  rw [Function.update_idem, ← h.locked, Function.update_eq_self]

end

variable [Fintype κ]

/-- The state stands for what is owned. -/
structure Represents (o : Owned κ) (s : State κ) : Prop where
  good : Good s.store
  made : ∃ pool, s.store.made = [.dbPool pool, .tracer]
  points : Points o s.store.vars
  contexts : s.contexts = o.contexts
  out : s.out = o.out

variable {o : Owned κ} {s : State κ} {k : κ} {p : Ptr}

theorem assign_spec (h : Good s.store) (i : Var κ) (hp : Copyable s.store p) :
    ∃ store, s.assign i p = some { s with store } ∧ Good store ∧
      store.vars = Function.update s.store.vars i p ∧ store.made = s.store.made := by
  obtain ⟨store, hstore, hvars, hmade, hgood⟩ := h.assign i hp
  refine ⟨store, ?_, hgood, hvars, hmade⟩
  rw [State.assign, hstore]
  rfl

omit [DecidableEq κ] in
theorem Represents.lock_ctxTracer (h : Represents o s) (hk : (o.contexts k).isSome) :
    s.store.lock (s.store.vars (.ctxTracer k)) = if o.tracer then .strong 1 else .null := by
  rcases h.points.ctxTracer k with hnull | ⟨hweak, -⟩
  · have ht : ¬ o.tracer = true := fun ht => by
      rw [h.points.traced k ht hk] at hnull
      cases hnull
    rw [hnull, if_neg ht]
    rfl
  · rw [hweak, h.good.lock]
    simp only [h.points.tracer_owned]

omit [DecidableEq κ] in
theorem Represents.pool (h : Represents o s) (hk : (o.contexts k).isSome) :
    ∃ pool, s.pool k = some pool := by
  have hdb := h.points.db k
  rw [if_pos hk] at hdb
  obtain ⟨-, hderef⟩ := h.good.deref hdb
  obtain ⟨pool, hmade⟩ := h.made
  rw [hmade] at hderef
  refine ⟨pool, ?_⟩
  rw [State.pool, hderef]
  rfl

omit [DecidableEq κ] in
/-- The temporary keeps the tracer alive while `record` runs. -/
theorem recordIfLocked_spec (h : Good s.store)
    (hmade : ∃ pool, s.store.made = [.dbPool pool, .tracer]) {traced : Bool}
    (hlocked : s.store.vars .locked = if traced then .strong 1 else .null) :
    s.recordIfLocked (str "handle_user") =
      some (s.print (if traced then str "[trace] handle_user\n" else [])) := by
  unfold State.recordIfLocked
  cases traced with
  | false =>
    have hnull : s.store.vars .locked = .null := hlocked
    rw [if_pos hnull]
    show some s = some { s with out := s.out ++ [] }
    rw [List.append_nil]
  | true =>
    have hstrong : s.store.vars .locked = .strong 1 := hlocked
    rw [if_neg (by rw [hstrong]; nofun), State.record]
    obtain ⟨-, hderef⟩ := h.deref hstrong
    obtain ⟨pool, hmade⟩ := hmade
    rw [hmade] at hderef
    rw [hderef]
    rfl

/-- The handler prints a trace exactly while `main` owns the tracer, and leaves all
pointers as they were. -/
theorem Represents.handleUser (h : Represents o s) (hk : (o.contexts k).isSome) :
    ∃ t, s.handleUser k = some (⟨200, str "user=42 name=Ada"⟩, t) ∧
      Represents { o with
        out := o.out ++ if o.tracer then str "[trace] handle_user\n" else [] } t := by
  have hlock := h.lock_ctxTracer hk
  obtain ⟨locked, hlocked, hgood, hvars, hmade⟩ :=
    assign_spec h.good .locked (h.good.copyable_lock (.ctxTracer k))
  rw [hlock] at hvars
  have hrecord := recordIfLocked_spec (s := { s with store := locked }) hgood
    (by rw [hmade]; exact h.made) (by rw [hvars, Function.update_self])
  obtain ⟨store, hunlock, hgood', hvars', hmade'⟩ := assign_spec hgood .locked copyable_null
    (s := State.print { s with store := locked }
      (if o.tracer then str "[trace] handle_user\n" else []))
  have hrestored : store.vars = s.store.vars := by
    rw [hvars']
    show Function.update locked.vars .locked .null = _
    rw [hvars, h.points.unlock]
  have hafter : Represents
      { o with out := o.out ++ if o.tracer then str "[trace] handle_user\n" else [] }
      { s with
        store := store
        out := s.out ++ if o.tracer then str "[trace] handle_user\n" else [] } := by
    refine ⟨hgood', ?_, ?_, h.contexts, by rw [h.out]⟩
    · show ∃ pool, store.made = _
      rw [hmade'.trans hmade]
      exact h.made
    · show Points _ store.vars
      rw [hrestored]
      exact { h.points with }
  obtain ⟨pool, hpool⟩ := hafter.pool hk
  refine ⟨_, ?_, hafter⟩
  unfold State.handleUser
  simp only [Option.bind_eq_bind, hlocked, Option.bind_some, hrecord, hunlock]
  exact Option.bind_eq_some_iff.mpr ⟨pool, hpool, rfl⟩

theorem Represents.dispatch (h : Represents o s) {request : Request}
    (hk : o.contexts k = some request) : ∃ t, step s (.dispatch k) = some t ∧
      Represents { o with out := o.out ++ answer o.tracer request } t := by
  have hk' : s.contexts k = some request := by rw [h.contexts, hk]
  have hplain : ∀ res : Response, Represents { o with out := o.out ++ responseLine request res }
      (s.print (responseLine request res)) := fun res =>
    ⟨h.good, h.made, { h.points with }, h.contexts, by rw [← h.out]; rfl⟩
  unfold Pointers.step answer
  simp only [Option.bind_eq_bind, hk', Option.bind_some, State.dispatch]
  by_cases hhealth : request.path = str "/health"
  · rw [if_pos hhealth, if_pos hhealth]
    exact ⟨_, rfl, hplain _⟩
  · rw [if_neg hhealth, if_neg hhealth]
    by_cases huser : request.path = str "/user/42"
    · rw [if_pos huser, if_pos huser]
      obtain ⟨t, ht, hr⟩ := h.handleUser (Option.isSome_iff_exists.mpr ⟨_, hk⟩)
      rw [ht]
      refine ⟨_, rfl, hr.good, hr.made, { hr.points with }, hr.contexts, ?_⟩
      show t.out ++ _ = _
      rw [hr.out, List.append_assoc]
    · rw [if_neg huser, if_neg huser]
      exact ⟨_, rfl, hplain _⟩

theorem Represents.construct (h : Represents o s) (request : Request) (hp : o.dbPool = true)
    (hk : o.contexts k = none) : ∃ t, s.construct k request = some t ∧
      Represents { o with contexts := Function.update o.contexts k (some request) } t := by
  obtain ⟨owned, howned, hgood, hvars, hmade⟩ :=
    assign_spec h.good (.db k) (copyable_var .dbPool)
  obtain ⟨store, hstore, hgood', hvars', hmade'⟩ := assign_spec hgood (.ctxTracer k)
    (copyable_watch .tracer) (s := { s with store := owned })
  have htracer : owned.vars .tracer = s.store.vars .tracer := by
    rw [hvars]
    exact Function.update_of_ne (by nofun) _ _
  dsimp only at hvars'
  rw [htracer, hvars] at hvars'
  refine ⟨{ s with store, contexts := Function.update s.contexts k (some request) }, ?_, hgood',
    ?_, ?_, ?_, h.out⟩
  · unfold State.construct
    simp only [Option.bind_eq_bind, howned, Option.bind_some, hstore]
    rfl
  · show ∃ pool, store.made = _
    rw [hmade'.trans hmade]
    exact h.made
  · show Points _ store.vars
    rw [hvars']
    exact h.points.construct request hp hk
  · show Function.update s.contexts k _ = _
    rw [h.contexts]

theorem Represents.destroy (h : Represents o s) (k : κ) : ∃ t, s.destroy k = some t ∧
    Represents { o with contexts := Function.update o.contexts k none } t := by
  obtain ⟨left, hleft, hgood, hvars, hmade⟩ := assign_spec h.good (.ctxTracer k) copyable_null
  obtain ⟨store, hstore, hgood', hvars', hmade'⟩ := assign_spec hgood (.db k) copyable_null
    (s := { s with store := left })
  dsimp only at hvars'
  rw [hvars] at hvars'
  refine ⟨{ s with store, contexts := Function.update s.contexts k none }, ?_, hgood', ?_, ?_, ?_,
    h.out⟩
  · unfold State.destroy
    simp only [Option.bind_eq_bind, hleft, Option.bind_some, hstore]
    rfl
  · show ∃ pool, store.made = _
    rw [hmade'.trans hmade]
    exact h.made
  · show Points _ store.vars
    rw [hvars']
    exact h.points.destroy k
  · show Function.update s.contexts k _ = _
    rw [h.contexts]

omit [DecidableEq κ] in
/-- A weak pointer of `main` does not keep the tracer alive, nor do those of contexts. -/
theorem Represents.lock_expired (h : Represents o s) (ht : o.tracer = false) :
    s.store.lock (s.store.vars .tracerWeak) = .null := by
  rcases h.points.tracerWeak with hnull | ⟨hweak, -⟩
  · rw [hnull]
    rfl
  · rw [hweak, h.good.lock, if_neg]
    rw [h.points.tracer_owned, ht]
    nofun

theorem Represents.resetTracer (h : Represents o s) : ∃ t, step s .resetTracer = some t ∧
    Represents { o with tracer := false, out := o.out ++ expiredLine } t := by
  obtain ⟨watched, hwatched, hgood₁, hvars₁, hmade₁⟩ :=
    assign_spec h.good .tracerWeak (copyable_watch .tracer)
  obtain ⟨reset, hreset, hgood₂, hvars₂, hmade₂⟩ := assign_spec hgood₁ .tracer copyable_null
    (s := { s with store := watched })
  dsimp only at hvars₂
  rw [hvars₁] at hvars₂
  have hmade : ∃ pool, reset.made = [.dbPool pool, .tracer] := by
    rw [hmade₂.trans hmade₁]
    exact h.made
  have hexpired : Represents { o with tracer := false } { s with store := reset } :=
    ⟨hgood₂, hmade, hvars₂ ▸ h.points.resetTracer, h.contexts, h.out⟩
  obtain ⟨locked, hlocked, hgood₃, hvars₃, hmade₃⟩ :=
    assign_spec hgood₂ .locked (hgood₂.copyable_lock .tracerWeak) (s := { s with store := reset })
  rw [hexpired.lock_expired rfl] at hvars₃
  obtain ⟨store, hstore, hgood, hvars, hmade'⟩ := assign_spec hgood₃ .locked copyable_null
    (s := { s with store := locked })
  dsimp only at hvars
  have hnull : locked.vars .locked = .null := by rw [hvars₃, Function.update_self]
  rw [hvars₃, hexpired.points.unlock] at hvars
  refine ⟨{ s with store, out := s.out ++ expiredLine }, ?_, hgood, ?_, ?_, h.contexts, ?_⟩
  · unfold Pointers.step
    simp only [Option.bind_eq_bind, hwatched, Option.bind_some, hreset, hlocked, hstore, hnull,
      if_true]
    rfl
  · show ∃ pool, store.made = _
    rw [hmade'.trans hmade₃]
    exact hmade
  · show Points _ store.vars
    rw [hvars]
    exact { hexpired.points with }
  · show s.out ++ _ = _
    rw [h.out]

theorem Represents.leave (h : Represents o s) : ∃ t, step s .leave = some t ∧
    Represents { o with dbPool := false, tracer := false } t := by
  obtain ⟨left₁, h₁, hgood₁, hvars₁, hmade₁⟩ := assign_spec h.good .tracerWeak copyable_null
  obtain ⟨left₂, h₂, hgood₂, hvars₂, hmade₂⟩ := assign_spec hgood₁ .tracer copyable_null
    (s := { s with store := left₁ })
  obtain ⟨store, hstore, hgood, hvars, hmade⟩ := assign_spec hgood₂ .dbPool copyable_null
    (s := { s with store := left₂ })
  dsimp only at hvars₂ hvars
  rw [hvars₂, hvars₁] at hvars
  refine ⟨{ s with store }, ?_, hgood, ?_, ?_, h.contexts, h.out⟩
  · unfold Pointers.step
    simp only [Option.bind_eq_bind, h₁, Option.bind_some, h₂, hstore]
  · show ∃ pool, store.made = _
    rw [(hmade.trans hmade₂).trans hmade₁]
    exact h.made
  · show Points _ store.vars
    rw [hvars]
    exact h.points.leave

theorem Represents.step {a : Action κ} {o' : Owned κ} (h : Represents o s)
    (hstep : o.step a = some o') : ∃ t, Pointers.step s a = some t ∧ Represents o' t := by
  cases a with
  | construct k request =>
    obtain ⟨⟨hp, hk⟩, ho⟩ := Option.ite_none_right_eq_some.mp hstep
    cases ho
    exact h.construct request hp hk
  | dispatch k =>
    obtain ⟨request, hk, rfl⟩ := Option.map_eq_some_iff.mp hstep
    exact h.dispatch hk
  | destroy k =>
    obtain ⟨-, -, rfl⟩ := Option.map_eq_some_iff.mp hstep
    exact h.destroy k
  | resetTracer =>
    cases hstep
    exact h.resetTracer
  | leave =>
    cases hstep
    exact h.leave

theorem start_spec : ∃ s : State κ, start = some s ∧ Represents Owned.start s := by
  obtain ⟨store₁, h₁, hvars₁, hmade₁, hgood₁⟩ :=
    (good_empty (ι := Var κ)).make .dbPool (Object.dbPool ⟨str "postgres://example"⟩)
  obtain ⟨store, h₂, hvars, hmade, hgood⟩ := hgood₁.make .tracer Object.tracer
  rw [hmade₁] at hvars hmade
  rw [hvars₁] at hvars
  refine ⟨⟨store, fun _ => none, []⟩, ?_, hgood, ⟨_, hmade⟩, ?_, rfl, rfl⟩
  · unfold start
    simp only [Option.bind_eq_bind, h₁, Option.bind_some, h₂]
    rfl
  · show Points _ store.vars
    rw [hvars]
    exact ⟨rfl, rfl, .inl rfl, fun _ => rfl, fun _ => .inl rfl, fun _ _ => nofun, rfl, nofun⟩

/-- However contexts are made, used and destroyed, no pointer ever dangles; what is
printed, and when the pool, the tracer and their blocks are destroyed, is as if
there were no counts. -/
theorem contexts_live (actions : List (Action κ)) {o : Owned κ}
    (h : Machine.run Owned.step Owned.start actions = some o) :
    ∃ s, (start.bind fun s => Machine.run step s actions) = some s ∧ s.out = o.out ∧
      (0 ∈ s.store.ended ↔ o.dbPool = false ∧ ∀ k, o.contexts k = none) ∧
      (1 ∈ s.store.ended ↔ o.tracer = false) ∧ s.store.ended.Nodup ∧
      (o.dbPool = false → (∀ k, o.contexts k = none) → ∀ n, s.store.blocks n = none) := by
  obtain ⟨s₀, hstart, hr⟩ := start_spec (κ := κ)
  obtain ⟨s, hrun, hr⟩ : ∃ s, Machine.run step s₀ actions = some s ∧ Represents o s := by
    refine Machine.run_forward ?_ hr h
    exact Represents.step
  obtain ⟨pool, hmade⟩ := hr.made
  refine ⟨s, ?_, hr.out, ?_, ?_, hr.good.once, ?_⟩
  · rw [hstart]
    exact hrun
  · rw [hr.good.ended, ← not_exists, hr.points.pool_owned, hmade]
    simp
  · rw [hr.good.ended, ← not_exists, hr.points.tracer_owned, hmade]
    simp
  · intro hp hk n
    rw [hr.good.freed]
    intro i
    rw [hr.points.nothing hp hk i]
    exact ⟨nofun, nofun⟩

/-- `main` itself: one context after the other, for the two requests. -/
theorem contexts_live_main : ∃ (o : Owned Unit) (s : State Unit),
    Machine.run Owned.step Owned.start
        (mainActions [⟨str "GET", str "/health"⟩, ⟨str "GET", str "/user/42"⟩]) = some o ∧
      s.out = o.out ∧
      o.out = str "GET /health -> 200 ok\n" ++ str "[trace] handle_user\n" ++
        str "GET /user/42 -> 200 user=42 name=Ada\n" ++ expiredLine ∧
      s.store.ended.Nodup ∧ (0 ∈ s.store.ended ↔ o.dbPool = false ∧ ∀ k, o.contexts k = none) ∧
      ∀ n, s.store.blocks n = none := by
  obtain ⟨o, ho⟩ : ∃ o : Owned Unit, Machine.run Owned.step Owned.start
      (mainActions [⟨str "GET", str "/health"⟩, ⟨str "GET", str "/user/42"⟩]) = some o := ⟨_, rfl⟩
  obtain ⟨s, -, hout, hpool, -, honce, hfreed⟩ := contexts_live _ ho
  cases ho
  exact ⟨_, s, rfl, hout, by decide, honce, hpool, hfreed rfl fun _ => rfl⟩

end BackendPatterns.Pointers
