import BackendPatterns.Observer.Reentrancy

/-! # Routing by type

As long as handlers do not call back, the dispatcher is a router: one list of
handlers for each event type, and each event goes to all of its type. -/

namespace BackendPatterns.Observer
open BackendPatterns.Lib

variable {T H V : Type} [DecidableEq T]

inductive Call (T H V : Type)
  | subscribe (tid : T) (handler : H)
  | publish (tid : T) (event : V)

def Call.type : Call T H V → T
  | .subscribe tid _ => tid
  | .publish tid _ => tid

/-- The rest of a `publish` with `n` handlers to go, each of which just returns. -/
def State.finish (g : Growth) (s : State T H V) : Nat → Option (State T H V)
  | 0 => step g s .next
  | n + 1 => (step g s .next).bind fun s => (step g s .ret).bind fun s => s.finish g n

/-- A call from outside, with handlers that do not call back. -/
def perform (g : Growth) (s : State T H V) : Call T H V → Option (State T H V)
  | .subscribe tid handler => step g s (.subscribe tid handler)
  | .publish tid event => (step g s (.publish tid event)).bind fun s =>
    match s.frames with
    | [] => none
    | f :: _ => s.finish g (f.stop.pos - f.it.pos)

/-! ## The router -/

/-- What a dispatcher is for. `delivered` lists the calls of `publish`, each with
the handlers it has invoked and what with. -/
structure Router (T H V : Type) where
  handlers : T → List H
  delivered : List (T × List (H × V))

def Router.empty : Router T H V := ⟨fun _ => [], []⟩

def Router.perform (r : Router T H V) : Call T H V → Router T H V
  | .subscribe tid handler =>
    { r with handlers := Function.update r.handlers tid (r.handlers tid ++ [handler]) }
  | .publish tid event =>
    { r with delivered := r.delivered ++ [(tid, (r.handlers tid).map fun h => (h, event))] }

def Router.run (calls : List (Call T H V)) : Router T H V := calls.foldl Router.perform .empty

/-- Between calls the dispatcher has no fault, each value in its map is a vector of
handlers of the type it is stored under, and these are the handlers of the router. -/
structure Routes (r : Router T H V) (s : State T H V) : Prop where
  fault : s.fault = none
  frames : s.frames = []
  typed : Typed s.dispatcher
  handlers : ∀ tid, (s.dispatcher.vec tid).items = r.handlers tid
  delivered : s.returned.map (fun f => (f.type, f.invoked)) = r.delivered

/-! ## One call -/

variable {g : Growth} {s : State T H V} {f : Frame T H V}

theorem step_returns (hfault : s.fault = none) (hr : f.running = false) (hit : f.it = f.stop) :
    step g { s with frames := [f] } .next =
      some { s with frames := [], returned := s.returned ++ [f] } := by
  simp [step, State.next, hfault, hr, hit]

theorem step_invoke (hfault : s.fault = none) (hr : f.running = false) (hit : f.it ≠ f.stop)
    {handler : H} (hd : (s.dispatcher.vec f.type).deref f.it = some handler) :
    step g { s with frames := [f] } .next = some { s with
      frames := [{ f with running := true, invoked := f.invoked ++ [(handler, f.event)] }] } := by
  simp [step, State.next, hfault, hr, hit, hd]

theorem step_ret (hfault : s.fault = none) (hr : f.running = true)
    (hfresh : f.it.generation = (s.dispatcher.vec f.type).generation) :
    step g { s with frames := [f] } .ret =
      some { s with frames := [{ f with running := false, it := f.it.next }] } := by
  simp [step, State.ret, State.Fresh, hfault, hr, hfresh]

/-- The loop invokes all the handlers that `publish` began with. -/
theorem finish_eq (hfault : s.fault = none) (hr : f.running = false)
    (hok : FrameOk (s.dispatcher.vec f.type) f) (n : Nat) (hn : f.it.pos + n = f.stop.pos) :
    ∃ f', State.finish g { s with frames := [f] } n =
        some { s with frames := [], returned := s.returned ++ [f'] } ∧
      f'.type = f.type ∧ f'.event = f.event ∧ f'.began = f.began ∧
      f'.invoked = f.began.map fun x => (x, f.event) := by
  induction n generalizing f with
  | zero =>
    have hit : f.it = f.stop := by
      have hgen := hok.generation
      cases hi : f.it
      cases hs : f.stop
      simp_all
    exact ⟨f, step_returns hfault hr hit, rfl, rfl, rfl, hok.returns hr hit⟩
  | succ n ih =>
    have hit : f.it ≠ f.stop := fun hit => by rw [hit] at hn; omega
    obtain ⟨handler, hd, -⟩ := hok.deref hr hit
    have hinvoke := hok.invoke hr hit hd
    have hpos : f.it.next.pos + n = f.stop.pos := by
      have hnext : f.it.next.pos = f.it.pos + 1 := rfl
      omega
    obtain ⟨f', hfinish, hf'⟩ := ih (f := { f with
      running := false, it := f.it.next, invoked := f.invoked ++ [(handler, f.event)] })
      rfl (hinvoke.ret rfl) hpos
    refine ⟨f', ?_, hf'⟩
    rw [State.finish, step_invoke hfault hr hit hd, Option.bind_some,
      step_ret hfault rfl hinvoke.fresh, Option.bind_some]
    exact hfinish

theorem getHandlers_of_ne (d : Dispatcher T H) {tid tid' : T} (h : tid' ≠ tid) :
    (d.getHandlers tid).1.handlersMap tid' = d.handlersMap tid' := by
  unfold Dispatcher.getHandlers
  split
  · exact Function.update_of_ne h _ _
  · rfl

theorem subscribe_of_ne (s : State T H V) {tid tid' : T} (handler : H) (h : tid' ≠ tid) :
    (s.subscribe g tid handler).dispatcher.handlersMap tid' = s.dispatcher.handlersMap tid' := by
  rw [← getHandlers_of_ne s.dispatcher h]
  unfold State.subscribe
  split
  · rename_i d vec hd
    rw [hd]
    exact Function.update_of_ne h _ _
  · rename_i d hd
    rw [hd]

theorem publish_of_ne (s : State T H V) {tid tid' : T} (event : V) (h : tid' ≠ tid) :
    (s.publish tid event).dispatcher.handlersMap tid' = s.dispatcher.handlersMap tid' := by
  rw [← getHandlers_of_ne s.dispatcher h]
  unfold State.publish
  split
  · rename_i d vec hd
    rw [hd]
  · rename_i d hd
    rw [hd]

/-- No call changes what is stored for other types. -/
structure Performs (g : Growth) (r : Router T H V) (s : State T H V) (call : Call T H V)
    (s' : State T H V) : Prop where
  perform : perform g s call = some s'
  safe : Safe s'
  routes : Routes (r.perform call) s'
  others : ∀ tid, tid ≠ call.type → s'.dispatcher.handlersMap tid = s.dispatcher.handlersMap tid

theorem performs_subscribe {r : Router T H V} (hs : Safe s) (h : Routes r s) (tid : T)
    (handler : H) : ∃ s', Performs g r s (.subscribe tid handler) s' := by
  have hstep : step g s (.subscribe tid handler) = some (s.subscribe g tid handler) := by
    simp [step, State.user, h.fault, h.frames]
  have hothers : ∀ tid', tid' ≠ tid → (s.subscribe g tid handler).dispatcher.handlersMap tid' =
      s.dispatcher.handlersMap tid' := fun _ hne => subscribe_of_ne s handler hne
  obtain ⟨-, hmoves⟩ := hs.typed.moves hstep
  have hsafe := hs.next hmoves fun tid' _ _ hinvalid => by
    obtain ⟨-, f, hf, -⟩ := hinvalid
    rw [h.frames] at hf
    cases hf
  generalize s.subscribe g tid handler = s' at *
  cases hmoves with
  | @subscribe _ _ d hu hd hself hother =>
    refine ⟨_, hstep, hsafe, ⟨h.fault, h.frames, hd, fun tid' => ?_, h.delivered⟩, hothers⟩
    simp only [Router.perform]
    by_cases heq : tid' = tid
    · subst heq
      rw [hself, Storage.pushBack_items, Function.update_self, h.handlers]
    · rw [hother tid' heq, Function.update_of_ne heq, h.handlers]

theorem performs_publish {r : Router T H V} (hs : Safe s) (h : Routes r s) (tid : T)
    (event : V) : ∃ s', Performs g r s (.publish tid event) s' := by
  have hstep : step g s (.publish tid event) = some (s.publish tid event) := by
    simp [step, State.user, h.fault, h.frames]
  have hothers : ∀ tid', tid' ≠ tid → (s.publish tid event).dispatcher.handlersMap tid' =
      s.dispatcher.handlersMap tid' := fun _ hne => publish_of_ne s event hne
  obtain ⟨-, hmoves⟩ := hs.typed.moves hstep
  generalize s.publish tid event = s' at *
  cases hmoves with
  | @publish _ _ d hu hd hvec =>
    have hok : FrameOk (d.vec tid) ⟨tid, event, (s.dispatcher.vec tid).first,
        (s.dispatcher.vec tid).last, false, s.subscribedTo tid, []⟩ := by
      rw [hvec]
      exact frameOk_publish tid event (hs.stored tid)
    obtain ⟨f', hfinish, htype, hevent, hbegan, hinvoked⟩ :=
      finish_eq (g := g) (s := { s with dispatcher := d })
        (f := ⟨tid, event, (s.dispatcher.vec tid).first, (s.dispatcher.vec tid).last, false,
          s.subscribedTo tid, []⟩)
        hs.fault rfl hok (s.dispatcher.vec tid).last.pos (Nat.zero_add _)
    have hall : f'.invoked = (r.handlers tid).map fun x => (x, event) := by
      rw [hinvoked, ← h.handlers, hs.stored]
    refine ⟨{ s with dispatcher := d, frames := [], returned := s.returned ++ [f'] }, ?_,
      ⟨hs.fault, hd, fun tid' => ?_, nofun, nofun, fun x hx => ?_⟩,
      ⟨h.fault, rfl, hd, fun tid' => ?_, ?_⟩, hothers⟩
    · rw [perform, hstep, Option.bind_some, h.frames]
      exact hfinish
    · exact (congrArg _ (hvec tid')).trans (hs.stored tid')
    · rcases List.mem_append.mp hx with hold | hnew
      · exact hs.returned x hold
      · rw [List.mem_singleton.mp hnew, hinvoked, hbegan, hevent]
    · exact (congrArg _ (hvec tid')).trans (h.handlers tid')
    · rw [List.map_append, h.delivered, List.map_singleton, htype, hall]
      rfl

theorem performs (g : Growth) {r : Router T H V} (hs : Safe s) (h : Routes r s)
    (call : Call T H V) : ∃ s', Performs g r s call s' := by
  cases call with
  | subscribe tid handler => exact performs_subscribe hs h tid handler
  | publish tid event => exact performs_publish hs h tid event

/-! ## Runs -/

theorem run_routes (g : Growth) {r : Router T H V} (hs : Safe s) (h : Routes r s)
    (calls : List (Call T H V)) :
    ∃ s', Machine.run (perform g) s calls = some s' ∧ Safe s' ∧
      Routes (calls.foldl Router.perform r) s' := by
  induction calls generalizing r s with
  | nil => exact ⟨s, rfl, hs, h⟩
  | cons call calls ih =>
    obtain ⟨t, ht⟩ := performs g hs h call
    obtain ⟨s', hrun, hs'⟩ := ih ht.safe ht.routes
    refine ⟨s', ?_, hs'⟩
    rw [Machine.run, ht.perform]
    exact hrun

/-- Any sequence of calls runs without a fault, and routes like the router of the
same calls; and no call changes what the map has under other types. -/
theorem dispatcher_routes (g : Growth) (calls : List (Call T H V)) :
    ∃ s, Machine.run (perform g) start calls = some s ∧ Routes (Router.run calls) s ∧
      ∀ call, ∃ s', perform g s call = some s' ∧ Routes (Router.run (calls ++ [call])) s' ∧
        ∀ tid, tid ≠ call.type → s'.dispatcher.handlersMap tid = s.dispatcher.handlersMap tid := by
  have hstart : Routes (Router.empty : Router T H V) start :=
    ⟨rfl, rfl, safe_start.typed, fun _ => rfl, rfl⟩
  obtain ⟨s, hrun, hs, hroutes⟩ := run_routes g safe_start hstart calls
  refine ⟨s, hrun, hroutes, fun call => ?_⟩
  obtain ⟨s', hs'⟩ := performs g hs hroutes call
  refine ⟨s', hs'.perform, ?_, hs'.others⟩
  rw [Router.run, List.foldl_append]
  exact hs'.routes

/-- Two types of events; the second handler of type 0 is subscribed between two
events. -/
example : ((Machine.run (perform .doubling) start
    [.subscribe 0 7, .publish 0 100, .subscribe 1 8, .subscribe 0 9, .publish 0 101]).map
      fun s => s.returned.map fun f => (f.type, f.invoked)) =
    some [(0, [(7, 100)]), (0, [(7, 101), (9, 101)])] := by
  decide

end BackendPatterns.Observer
