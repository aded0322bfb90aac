import Mathlib.Data.List.Induction
import BackendPatterns.Observer.Dispatcher

/-! # Handlers that call back

`publish` reads its iterators again after every handler, and the handlers run where
they are stored. A handler that subscribes for the event being published needs room in
the vector: otherwise the loop, and the handlers it is calling, are left with storage
that has been freed. -/

namespace BackendPatterns.Observer
open BackendPatterns.Lib

variable {T H V : Type}

/-- How many handlers the loop has read. -/
def Frame.taken (f : Frame T H V) : Nat := if f.running then f.it.pos + 1 else f.it.pos

/-- A call of `subscribe` for `tid` would move the handlers of an active `publish`. -/
def Invalidates (s : State T H V) (tid : T) : Prop :=
  (s.dispatcher.vec tid).Full ∧ ∃ f ∈ s.frames, f.type = tid

/-- No read was undefined, and each `publish` invokes the handlers subscribed
when it began, once each and in order. -/
structure Exact (s : State T H V) : Prop where
  fault : s.fault = none
  frames : ∀ f ∈ s.frames, f.invoked = (f.began.take f.taken).map fun h => (h, f.event)
  returned : ∀ f ∈ s.returned, f.invoked = f.began.map fun h => (h, f.event)

/-! ## One call of `publish` -/

structure FrameOk (v : Storage H) (f : Frame T H V) : Prop where
  generation : f.it.generation = f.stop.generation
  taken : f.taken ≤ f.stop.pos
  began : f.began <+: v.items
  length : f.began.length = f.stop.pos
  invoked : f.invoked = (f.began.take f.taken).map fun h => (h, f.event)
  fresh : f.it.generation = v.generation

section Frame

variable {v : Storage H} {f : Frame T H V}

/-- A new call of `publish` is at the first of the handlers subscribed. -/
theorem frameOk_publish (tid : T) (event : V) {began : List H} (h : v.items = began) :
    FrameOk v ⟨tid, event, v.first, v.last, false, began, []⟩ := by
  subst h
  exact ⟨rfl, Nat.zero_le _, List.prefix_refl _, rfl, rfl, rfl⟩

theorem taken_idle (hr : f.running = false) : f.taken = f.it.pos := by
  simp [Frame.taken, hr]

theorem taken_running (hr : f.running = true) : f.taken = f.it.pos + 1 := by
  simp [Frame.taken, hr]

/-- The vector grows within its capacity. -/
theorem FrameOk.pushBack (h : FrameOk v f) {x : H} (hfull : ¬ v.Full) :
    FrameOk (v.pushBack g x) f := by
  refine { h with began := ?_, fresh := ?_ }
  · rw [Storage.pushBack_items]
    exact h.began.trans (List.prefix_append _ _)
  · rw [Storage.pushBack_not_full hfull]
    exact h.fresh

/-- At its test, the loop has handlers to read or is at its end. -/
theorem FrameOk.unread (h : FrameOk v f) (hr : f.running = false) (hit : f.it ≠ f.stop) :
    f.it.pos < f.stop.pos := by
  have htaken := h.taken
  rw [taken_idle hr] at htaken
  refine Nat.lt_of_le_of_ne htaken fun hpos => hit ?_
  have hgen := h.generation
  cases hi : f.it
  cases hs : f.stop
  simp_all

/-- The read of the loop gives the next of the handlers it began with. -/
theorem FrameOk.deref (h : FrameOk v f) (hr : f.running = false) (hit : f.it ≠ f.stop) :
    ∃ handler, v.deref f.it = some handler ∧
      f.began.take (f.it.pos + 1) = f.began.take f.it.pos ++ [handler] := by
  have hlt : f.it.pos < f.began.length := by
    rw [h.length]
    exact h.unread hr hit
  obtain ⟨rest, hrest⟩ := h.began
  refine ⟨f.began[f.it.pos], ?_, List.take_succ_eq_append_getElem hlt⟩
  rw [Storage.deref_eq h.fresh, ← hrest, List.getElem?_append_left hlt,
    List.getElem?_eq_getElem hlt]

theorem FrameOk.invoke (h : FrameOk v f) (hr : f.running = false) (hit : f.it ≠ f.stop)
    {handler : H} (hd : v.deref f.it = some handler) :
    FrameOk v { f with running := true, invoked := f.invoked ++ [(handler, f.event)] } := by
  obtain ⟨handler', hd', htake⟩ := h.deref hr hit
  cases hd.symm.trans hd'
  refine ⟨h.generation, ?_, h.began, h.length, ?_, h.fresh⟩
  · rw [taken_running rfl]
    exact h.unread hr hit
  · rw [taken_running rfl]
    dsimp only
    rw [htake, List.map_append, h.invoked, taken_idle hr]
    rfl

theorem FrameOk.ret (h : FrameOk v f) (hr : f.running = true) :
    FrameOk v { f with running := false, it := f.it.next } := by
  have htaken : Frame.taken { f with running := false, it := f.it.next } = f.taken := by
    rw [taken_running hr, taken_idle rfl]
    rfl
  refine ⟨h.generation, ?_, h.began, h.length, ?_, h.fresh⟩
  · rw [htaken]
    exact h.taken
  · rw [htaken]
    exact h.invoked

/-- A call of `publish` that returns has invoked all it began with. -/
theorem FrameOk.returns (h : FrameOk v f) (hr : f.running = false) (hit : f.it = f.stop) :
    f.invoked = f.began.map fun h => (h, f.event) := by
  rw [h.invoked, taken_idle hr, hit, ← h.length, List.take_length]

end Frame

/-! ## What a step does -/

/-- Each vector is stored under its own type. -/
def Typed (d : Dispatcher T H) : Prop := ∀ tid a, d.handlersMap tid = some a → a.type = tid

theorem vec_eq {d : Dispatcher T H} {tid : T} {a : AnyHandlers T H}
    (h : d.handlersMap tid = some a) : d.vec tid = a.vec := by
  simp only [Dispatcher.vec, h]

theorem vec_empty {d : Dispatcher T H} {tid : T} (h : d.handlersMap tid = none) :
    d.vec tid = .empty := by
  simp only [Dispatcher.vec, h]

variable [DecidableEq T]

/-- `get_handlers` changes no vector, and its cast does not fail. -/
theorem Typed.getHandlers {d : Dispatcher T H} (h : Typed d) (tid : T) :
    ∃ d', d.getHandlers tid = (d', some (d.vec tid)) ∧ Typed d' ∧
      (∀ tid', d'.vec tid' = d.vec tid') ∧ ∃ a, d'.handlersMap tid = some a := by
  unfold Dispatcher.getHandlers
  cases hm : d.handlersMap tid with
  | none =>
    rw [vec_empty hm]
    refine ⟨⟨Function.update d.handlersMap tid (some ⟨tid, .empty⟩)⟩, by simp [AnyHandlers.cast],
      ?_, ?_, _, Function.update_self ..⟩
    · intro tid' a ha
      dsimp only at ha
      by_cases heq : tid' = tid
      · subst heq
        rw [Function.update_self] at ha
        cases ha
        rfl
      · rw [Function.update_of_ne heq] at ha
        exact h tid' a ha
    · intro tid'
      by_cases heq : tid' = tid
      · subst heq
        rw [vec_empty hm, vec_eq (Function.update_self ..)]
      · simp only [Dispatcher.vec, Function.update_of_ne heq]
  | some a =>
    rw [vec_eq hm]
    exact ⟨d, by simp [AnyHandlers.cast, h tid a hm], h, fun _ => rfl, a, hm⟩

/-- An assignment changes one vector. -/
theorem Typed.assign {d : Dispatcher T H} (h : Typed d) {tid : T} {a : AnyHandlers T H}
    (ha : d.handlersMap tid = some a) (vec : Storage H) : Typed (d.assign tid vec) ∧
      (d.assign tid vec).vec tid = vec ∧
      ∀ tid', tid' ≠ tid → (d.assign tid vec).vec tid' = d.vec tid' := by
  have hself : (d.assign tid vec).handlersMap tid = some { a with vec := vec } := by
    simp only [Dispatcher.assign, ha, Function.update_self, Option.map_some]
  have hother : ∀ tid', tid' ≠ tid → (d.assign tid vec).handlersMap tid' = d.handlersMap tid' :=
    fun tid' hne => Function.update_of_ne hne _ _
  refine ⟨?_, vec_eq hself, ?_⟩
  · intro tid' b hb
    by_cases heq : tid' = tid
    · subst heq
      rw [hself] at hb
      cases hb
      exact h tid' a ha
    · rw [hother tid' heq] at hb
      exact h tid' b hb
  · intro tid' hne
    simp only [Dispatcher.vec, hother tid' hne]

/-- What the steps do, once the casts are known to succeed. -/
inductive Moves (g : Growth) (s : State T H V) : Action T H V → State T H V → Prop
  | subscribe {tid : T} {handler : H} {d : Dispatcher T H} (hu : s.user = true) (hd : Typed d)
      (hself : d.vec tid = (s.dispatcher.vec tid).pushBack g handler)
      (hother : ∀ tid', tid' ≠ tid → d.vec tid' = s.dispatcher.vec tid') :
      Moves g s (.subscribe tid handler)
        { s with dispatcher := d, subscribed := s.subscribed ++ [(tid, handler)] }
  | publish {tid : T} {event : V} {d : Dispatcher T H} (hu : s.user = true) (hd : Typed d)
      (hvec : ∀ tid', d.vec tid' = s.dispatcher.vec tid') :
      Moves g s (.publish tid event)
        { s with
          dispatcher := d
          frames := ⟨tid, event, (s.dispatcher.vec tid).first, (s.dispatcher.vec tid).last, false,
            s.subscribedTo tid, []⟩ :: s.frames }
  | returns {f : Frame T H V} {fs : List (Frame T H V)} (hf : s.frames = f :: fs)
      (hr : f.running = false) (hit : f.it = f.stop) :
      Moves g s .next { s with frames := fs, returned := s.returned ++ [f] }
  | invoke {f : Frame T H V} {fs : List (Frame T H V)} {handler : H} (hf : s.frames = f :: fs)
      (hr : f.running = false) (hit : f.it ≠ f.stop)
      (hd : (s.dispatcher.vec f.type).deref f.it = some handler) :
      Moves g s .next
        { s with
          frames := { f with running := true, invoked := f.invoked ++ [(handler, f.event)] } :: fs }
  | stale {f : Frame T H V} {fs : List (Frame T H V)} (hf : s.frames = f :: fs)
      (hr : f.running = false) (hit : f.it ≠ f.stop)
      (hd : (s.dispatcher.vec f.type).deref f.it = none) :
      Moves g s .next { s with fault := some .staleRead }
  | captures {f : Frame T H V} {fs : List (Frame T H V)} (hf : s.frames = f :: fs)
      (hfresh : s.Fresh f) : Moves g s .captures s
  | freed {f : Frame T H V} {fs : List (Frame T H V)} (hf : s.frames = f :: fs)
      (hfreed : ¬ s.Fresh f) : Moves g s .captures { s with fault := some .staleRead }
  | ret {f : Frame T H V} {fs : List (Frame T H V)} (hf : s.frames = f :: fs)
      (hr : f.running = true) (hfresh : s.Fresh f) :
      Moves g s .ret { s with frames := { f with running := false, it := f.it.next } :: fs }
  | lost {f : Frame T H V} {fs : List (Frame T H V)} (hf : s.frames = f :: fs)
      (hfreed : ¬ s.Fresh f) : Moves g s .ret { s with fault := some .staleRead }

variable {g : Growth} {s t : State T H V} {a : Action T H V}

theorem Typed.moves (h : Typed s.dispatcher) (hs : step g s a = some t) :
    s.fault = none ∧ Moves g s a t := by
  unfold step at hs
  split at hs
  · cases hs
  rename_i hfault
  refine ⟨by simpa using hfault, ?_⟩
  cases a with
  | subscribe tid handler =>
    dsimp only at hs
    split at hs
    · rename_i hu
      cases hs
      obtain ⟨d, hget, hd, hvec, a, ha⟩ := h.getHandlers tid
      obtain ⟨htyped, hself, hother⟩ := hd.assign ha ((s.dispatcher.vec tid).pushBack g handler)
      simp only [State.subscribe, hget]
      exact .subscribe hu htyped hself fun tid' hne => (hother tid' hne).trans (hvec tid')
    · cases hs
  | publish tid event =>
    dsimp only at hs
    split at hs
    · rename_i hu
      cases hs
      obtain ⟨d, hget, hd, hvec, -⟩ := h.getHandlers tid
      simp only [State.publish, hget]
      exact .publish hu hd hvec
    · cases hs
  | next =>
    dsimp only [State.next] at hs
    split at hs
    · cases hs
    · rename_i f fs hf
      split at hs
      · cases hs
      rename_i hr
      split at hs
      · rename_i hit
        cases hs
        exact .returns hf (by simpa using hr) hit
      · rename_i hit
        split at hs
        · rename_i handler hd
          cases hs
          exact .invoke hf (by simpa using hr) hit hd
        · rename_i hd
          cases hs
          exact .stale hf (by simpa using hr) hit hd
  | captures =>
    dsimp only [State.captures] at hs
    split at hs
    · cases hs
    rename_i f fs hf
    split at hs
    · cases hs
    split at hs
    · rename_i hfresh
      cases hs
      exact .captures hf hfresh
    · rename_i hstale
      cases hs
      exact .freed hf hstale
  | ret =>
    dsimp only [State.ret] at hs
    split at hs
    · cases hs
    rename_i f fs hf
    split at hs
    · cases hs
    rename_i hr
    split at hs
    · rename_i hfresh
      cases hs
      exact .ret hf (not_not.mp hr) hfresh
    · rename_i hstale
      cases hs
      exact .lost hf hstale

/-! ## Runs -/

structure Safe (s : State T H V) : Prop where
  fault : s.fault = none
  typed : Typed s.dispatcher
  stored : ∀ tid, (s.dispatcher.vec tid).items = s.subscribedTo tid
  frames : ∀ f ∈ s.frames, FrameOk (s.dispatcher.vec f.type) f
  nested : ∀ f ∈ s.frames.tail, f.running = true
  returned : ∀ f ∈ s.returned, f.invoked = f.began.map fun h => (h, f.event)

/-- While user code runs, every active `publish` is calling a handler. -/
theorem Safe.running (h : Safe s) (hu : s.user = true) : ∀ f ∈ s.frames, f.running = true := by
  have hnested := h.nested
  unfold State.user at hu
  cases hf : s.frames with
  | nil => exact nofun
  | cons f fs =>
    rw [hf] at hu hnested
    exact List.forall_mem_cons.mpr ⟨hu, hnested⟩

theorem Safe.exact (h : Safe s) : Exact s :=
  ⟨h.fault, fun f hf => (h.frames f hf).invoked, h.returned⟩

theorem Safe.top (h : Safe s) {f : Frame T H V} {fs : List (Frame T H V)}
    (hf : s.frames = f :: fs) : FrameOk (s.dispatcher.vec f.type) f :=
  h.frames f (by rw [hf]; exact List.mem_cons_self ..)

/-- The innermost `publish` goes on, and the others wait. -/
theorem Safe.goesOn (h : Safe s) {f f' : Frame T H V} {fs : List (Frame T H V)}
    (hf : s.frames = f :: fs) (hok : FrameOk (s.dispatcher.vec f'.type) f') :
    Safe { s with frames := f' :: fs } := by
  have hnested := h.nested
  rw [hf] at hnested
  refine ⟨h.fault, h.typed, h.stored, fun f'' hf'' => ?_, hnested, h.returned⟩
  obtain hnew | hold := List.mem_cons.mp hf''
  · subst hnew
    exact hok
  · exact h.frames f'' (by rw [hf]; exact List.mem_cons_of_mem _ hold)

/-- The innermost `publish` has called all its handlers. -/
theorem Safe.returns (h : Safe s) {f : Frame T H V} {fs : List (Frame T H V)}
    (hf : s.frames = f :: fs) (hr : f.running = false) (hit : f.it = f.stop) :
    Safe { s with frames := fs, returned := s.returned ++ [f] } := by
  have hframes := h.frames
  have hnested := h.nested
  rw [hf] at hframes hnested
  refine ⟨h.fault, h.typed, h.stored, fun f' hf' => hframes f' (List.mem_cons_of_mem _ hf'),
    fun f' hf' => hnested f' (List.mem_of_mem_tail hf'), fun f' hf' => ?_⟩
  obtain hold | hnew := List.mem_append.mp hf'
  · exact h.returned f' hold
  · rw [List.mem_singleton.mp hnew]
    exact (h.top hf).returns hr hit

/-- A step keeps the state safe unless it moves handlers that are being published to. -/
theorem Safe.next (h : Safe s) (hm : Moves g s a t)
    (hc : ∀ tid handler, a = .subscribe tid handler → ¬ Invalidates s tid) : Safe t := by
  cases hm with
  | @subscribe tid handler d hu hd hself hother =>
    refine ⟨h.fault, hd, ?_, ?_, h.nested, h.returned⟩
    · intro tid'
      by_cases heq : tid' = tid
      · subst heq
        rw [hself, Storage.pushBack_items, h.stored tid']
        simp [State.subscribedTo]
      · rw [hother tid' heq, h.stored tid']
        simp [State.subscribedTo, Ne.symm heq]
    · intro f hf
      have hok := h.frames f hf
      dsimp only
      by_cases heq : f.type = tid
      · subst heq
        rw [hself]
        exact hok.pushBack fun hfull => hc _ _ rfl ⟨hfull, f, hf, rfl⟩
      · rw [hother f.type heq]
        exact hok
  | @publish tid event d hu hd hvec =>
    refine ⟨h.fault, hd, fun tid' => (congrArg _ (hvec tid')).trans (h.stored tid'), fun f hf => ?_,
      h.running hu, h.returned⟩
    dsimp only at hf ⊢
    rw [hvec]
    obtain hnew | hold := List.mem_cons.mp hf
    · subst hnew
      exact frameOk_publish tid event (h.stored tid)
    · exact h.frames f hold
  | returns hf hr hit => exact h.returns hf hr hit
  | invoke hf hr hit hd => exact h.goesOn hf ((h.top hf).invoke hr hit hd)
  | stale hf hr hit hd =>
    obtain ⟨handler, hd', -⟩ := (h.top hf).deref hr hit
    rw [hd] at hd'
    cases hd'
  | captures => exact h
  | freed hf hfreed | lost hf hfreed => exact absurd (h.top hf).fresh hfreed
  | ret hf hr => exact h.goesOn hf ((h.top hf).ret hr)

/-- The handler that an active `publish` is calling, and its iterators, are in storage
that has been freed. -/
structure Doomed (s : State T H V) : Prop where
  typed : Typed s.dispatcher
  stale : s.fault = some .staleRead ∨ ∃ f ∈ s.frames, f.running = true ∧
    f.it.generation < (s.dispatcher.vec f.type).generation

theorem Doomed.next (h : Doomed s) (hs : step g s a = some t) : Doomed t := by
  obtain ⟨hfault, hm⟩ := h.typed.moves hs
  obtain hstale | ⟨f, hf, hrun, hlt⟩ := h.stale
  · rw [hfault] at hstale
    cases hstale
  -- the frame stays: it is not the top one, or that does not return
  have hbelow : ∀ {f' fs}, s.frames = f' :: fs → f'.running = false → f ∈ fs := by
    intro f' fs hf' hr
    rw [hf'] at hf
    obtain heq | hold := List.mem_cons.mp hf
    · rw [heq, hr] at hrun
      cases hrun
    · exact hold
  cases hm with
  | @subscribe tid handler d hu hd hself hother =>
    refine ⟨hd, .inr ⟨f, hf, hrun, Nat.lt_of_lt_of_le hlt ?_⟩⟩
    dsimp only
    by_cases heq : f.type = tid
    · rw [heq, hself]
      exact Storage.generation_le_pushBack
    · rw [hother f.type heq]
  | @publish tid event d hu hd hvec =>
    refine ⟨hd, .inr ⟨f, List.mem_cons_of_mem _ hf, hrun, ?_⟩⟩
    dsimp only
    rw [hvec]
    exact hlt
  | returns hf' hr hit => exact ⟨h.typed, .inr ⟨f, hbelow hf' hr, hrun, hlt⟩⟩
  | invoke hf' hr hit hd =>
    exact ⟨h.typed, .inr ⟨f, List.mem_cons_of_mem _ (hbelow hf' hr), hrun, hlt⟩⟩
  | stale => exact ⟨h.typed, .inl rfl⟩
  | captures => exact h
  | freed | lost => exact ⟨h.typed, .inl rfl⟩
  | @ret f' fs hf' hr hfresh =>
    rw [hf'] at hf
    obtain heq | hold := List.mem_cons.mp hf
    · rw [heq] at hlt
      exact absurd hfresh (Nat.ne_of_lt hlt)
    · exact ⟨h.typed, .inr ⟨f, List.mem_cons_of_mem _ hold, hrun, hlt⟩⟩

theorem safe_start : Safe (start : State T H V) := by
  refine ⟨rfl, ?_, fun tid => rfl, nofun, nofun, nofun⟩
  intro tid a ha
  cases ha

/-- No call of `subscribe` in the run moves the handlers of an active `publish`. -/
def Tame (g : Growth) (as : List (Action T H V)) : Prop :=
  ∀ as' tid handler s, as' ++ [.subscribe tid handler] <+: as →
    Machine.run (step g) start as' = some s → ¬ Invalidates s tid

theorem Tame.mono {as as' : List (Action T H V)} (h : Tame g as) (hp : as' <+: as) : Tame g as' :=
  fun bs tid handler s hb => h bs tid handler s (hb.trans hp)

theorem Tame.safe {as : List (Action T H V)} (h : Tame g as)
    (hr : Machine.run (step g) start as = some s) : Safe s := by
  induction as using List.reverseRecOn generalizing s with
  | nil =>
    cases hr
    exact safe_start
  | append_singleton as a ih =>
    rw [Machine.run_append] at hr
    obtain ⟨u, hu, hr⟩ := Option.bind_eq_some_iff.mp hr
    obtain ⟨t, ht, hr⟩ := Option.bind_eq_some_iff.mp hr
    cases hr
    have hsafe := ih (h.mono (List.prefix_append _ _)) hu
    refine hsafe.next (hsafe.typed.moves ht).2 fun tid handler ha => ?_
    subst ha
    exact h as tid handler u (List.prefix_refl _) hu

/-- Two handlers for one event; the first subscribes a third when it is called,
and the vector is full. -/
def nested : List (Action Unit Nat Nat) :=
  [.subscribe () 1, .subscribe () 2, .publish () 1001, .next, .subscribe () 3, .ret]

/-- The first handler, which is the only one, subscribes another and then reads what it
has captured. -/
example : (Machine.run (step .doubling) (start : State Unit Nat Nat)
    [.subscribe () 1, .publish () 1001, .next, .subscribe () 2, .captures]).map State.fault =
      some (some .staleRead) := rfl

end BackendPatterns.Observer
