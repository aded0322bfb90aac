import BackendPatterns.BoundedQueue.Completion

/-! # The queue keeps each producer's order, and holds producers back

Items of one producer enter the queue in the order of its loop, leave it in the
order they entered, and a consumer handles what it took before it takes more. So
whoever handles two items of one producer handles them in order, whatever the
threads in between. What was accepted and not handled is in the queue or in the
hands of a consumer, so producers are never far ahead. -/

namespace BackendPatterns.BoundedQueue
open BackendPatterns.Lib BackendPatterns.Lib.CondVar BackendPatterns.Lib.Fifo
open BackendPatterns.Lib.History BackendPatterns.Lib.Threads

variable {P C : Nat} {cfg : Config P} {m : Program P C}

/-- Items of one producer, in the order of its loop. -/
def InOrder (l : List (Item P)) : Prop :=
  l.Pairwise fun x y => x.producer = y.producer → x.index < y.index

/-! ## Entering the queue -/

/-- A move accepts nothing, or the item its producer is pushing. -/
theorem accepted_next {m' : Program P C} {a : Move P C} (hk : Control cfg m)
    (hn : next cfg m a = some m') :
    accepted (effects m'.sys.log) = accepted (effects m.sys.log) ∨
      ∃ p i w, m.prod p = .pushing i ∧
        m.sys.pc (.producer p) = .calling (.push (cfg.item p i)) w ∧
        accepted (effects m'.sys.log) = accepted (effects m.sys.log) ++ [cfg.item p i] := by
  cases next_cases hn with
  | @queue a s ha hs =>
    cases inCall_cases hs (by rintro i op rfl; cases ha) (by rintro i rfl; cases ha) with
    | quiet _ hl _ => exact .inl (by rw [hl])
    | @effect i op w c hpc henter _ hl _ _ =>
      have heff : accepted (effects s.log) =
          accepted (effects m.sys.log) ++ accepted [(op, c.res)] := by
        rw [hl, effects_append, accepted_append, effects_effect]
      rcases enter_cases henter with ⟨v, rfl, _, _, rfl⟩ | ⟨v, rfl, _, rfl⟩ |
        ⟨v, rest, rfl, _, rfl⟩ | ⟨rfl, _, _, rfl⟩ | ⟨rfl, rfl⟩
      · cases i with
        | producer p =>
          obtain ⟨i, hprod, -, ho, -⟩ := hk.pushing hpc
          cases ho
          exact .inr ⟨p, i, w, hprod, hpc, heff⟩
        | consumer c => cases (hk.popping hpc).2
        | main => cases (hk.closing hpc).2.1
      · exact .inl (by simpa [Fifo.accepted] using heff)
      · exact .inl (by simpa [Fifo.accepted] using heff)
      · exact .inl (by simpa [Fifo.accepted] using heff)
      · exact .inl (by simpa [Fifo.accepted] using heff)
  | push _ _ hs => obtain ⟨_, rfl⟩ := call_eq hs; exact .inl (by simp)
  | pushed _ _ hs => obtain ⟨_, _, _, rfl⟩ := ret_eq hs; exact .inl (by simp)
  | pop _ hs => obtain ⟨_, rfl⟩ := call_eq hs; exact .inl (by simp)
  | popped _ _ hs => obtain ⟨_, _, _, rfl⟩ := ret_eq hs; exact .inl (by simp)
  | close _ hs => obtain ⟨_, rfl⟩ := call_eq hs; exact .inl (by simp)
  | closed _ hs => obtain ⟨_, _, _, rfl⟩ := ret_eq hs; exact .inl (by simp)
  | _ => exact .inl rfl

/-- What a producer has in the queue or beyond comes before its current item. -/
theorem Data.index_lt (h : Data cfg m) {x : Item P}
    (hx : x ∈ Fifo.accepted (effects m.sys.log)) :
    x.index < inserted cfg x.producer (m.prod x.producer) (m.sys.pc (.producer x.producer)) := by
  rw [← Multiset.mem_coe, h.accepted] at hx
  obtain ⟨p, -, hp⟩ := Multiset.mem_sum.mp hx
  obtain ⟨i, hi, rfl⟩ := mem_made.mp hp
  exact hi

theorem reachable_accepted (h : Machine.Reachable (BoundedQueue.next cfg) (cfg.start C) m) :
    InOrder (accepted (effects m.sys.log)) := by
  have hstart : InOrder (accepted (effects (cfg.start C).sys.log)) := List.Pairwise.nil
  refine h.invariant (P := fun m => InOrder (accepted (effects m.sys.log))) hstart
    fun hr ih hn => ?_
  rcases accepted_next (reachable_control hr) hn with hl | ⟨p, i, w, hprod, hpc, hl⟩
  · rwa [hl]
  · rw [hl]
    refine List.pairwise_append.mpr ⟨ih, List.pairwise_singleton _ _, ?_⟩
    intro x hx y hy hp
    rw [List.mem_singleton] at hy
    subst hy
    have hlt := (reachable_data hr).index_lt hx
    rw [hp, show (cfg.item p i).producer = p from rfl, hprod, hpc] at hlt
    exact hlt

/-! ## Leaving it -/

/-- The items that consumer `c` took from the queue. -/
def takenBy (c : Fin C) (l : List (Event (Tid P C) (Op (Item P)) (Res (Item P)))) :
    List (Item P) :=
  l.filterMap fun e => match e with
    | .effect (.consumer c') .pop (.popped v) => if c' = c then v else none
    | _ => none

@[simp] theorem takenBy_append (c : Fin C)
    (l l' : List (Event (Tid P C) (Op (Item P)) (Res (Item P)))) :
    takenBy c (l ++ l') = takenBy c l ++ takenBy c l' := List.filterMap_append

theorem takenBy_sublist (c : Fin C) (l : List (Event (Tid P C) (Op (Item P)) (Res (Item P)))) :
    (takenBy c l).Sublist (taken (effects l)) := by
  induction l with
  | nil => exact .slnil
  | cons e l ih =>
    have hcons : takenBy c (e :: l) = takenBy c [e] ++ takenBy c l := takenBy_append c [e] l
    have htaken : taken (effects (e :: l)) = taken (effects [e]) ++ taken (effects l) := by
      rw [← taken_append, ← effects_append, List.singleton_append]
    rw [hcons, htaken]
    refine List.Sublist.append ?_ ih
    cases e with
    | effect i op r =>
      cases op with
      | pop =>
        cases r with
        | popped v =>
          cases i with
          | consumer c' =>
            by_cases hc : c' = c
            · cases v <;> simp [takenBy, Fifo.taken, hc]
            · simp [takenBy, hc]
          | producer p => simp [takenBy]
          | main => simp [takenBy]
        | pushed ok => simp [takenBy]
        | closed => simp [takenBy]
      | push v => simp [takenBy]
      | close => simp [takenBy]
    | call i op => simp [takenBy]
    | ret i op r => simp [takenBy]

/-- The items that consumer `c` handled. -/
def handledBy (c : Fin C) (l : List (Fin C × Item P)) : List (Item P) :=
  (l.filter fun e => e.1 = c).map Prod.snd

/-- `hand`, as a list. -/
def holding : ConsumerPc P → Pc (Item P) → List (Item P)
  | .handling item, _ => [item]
  | .popping, .done _ (.popped (some item)) => [item]
  | _, _ => []

theorem card_hand (co : ConsumerPc P) (pc : Pc (Item P)) : (hand co pc).card ≤ 1 := by
  unfold hand
  split <;> simp

theorem holding_moved (co : ConsumerPc P) {pc pc' : Pc (Item P)} (hm : Moved pc pc') :
    holding co pc' = holding co pc := by
  cases hm with
  | refl => rfl
  | wait | notified | closed => cases co <;> rfl

/-- A consumer has handled what it took, but for what it holds. -/
def Handles (m : Program P C) : Prop := ∀ c,
  takenBy c m.sys.log = handledBy c m.handled ++ holding (m.cons c) (m.sys.pc (.consumer c))

theorem Handles.frame {m' : Program P C} (h : Handles m)
    (hl : ∀ c, takenBy c m'.sys.log = takenBy c m.sys.log) (hh : m'.handled = m.handled)
    (hc : ∀ c, holding (m'.cons c) (m'.sys.pc (.consumer c)) =
      holding (m.cons c) (m.sys.pc (.consumer c))) : Handles m' := by
  intro c
  rw [hl, hh, hc]
  exact h c

theorem Handles.inCall {s : System (Tid P C) (Item P)} (h : Handles m) (hk : Control cfg m)
    (hc : InCall m.sys s) : Handles { m with sys := s } := by
  cases hc with
  | quiet _ hl hm => exact h.frame (fun c => by rw [hl]) rfl fun c => holding_moved _ (hm _)
  | @effect i op w c hpc henter _ hl hi hm =>
    cases i with
    | producer p =>
      exact h.frame (fun c => by simp [hl, takenBy]) rfl fun c => holding_moved _ (hm _ (by simp))
    | main =>
      exact h.frame (fun c => by simp [hl, takenBy]) rfl fun c => holding_moved _ (hm _ (by simp))
    | consumer c' =>
      obtain ⟨hcons, rfl⟩ := hk.popping hpc
      intro c₁
      by_cases hc : c₁ = c'
      · subst hc
        have hold := h c₁
        rw [hcons, hpc] at hold
        simp only [hl, hi, hcons, takenBy_append, hold]
        rcases enter_cases henter with ⟨_, ho, _⟩ | ⟨_, ho, _⟩ | ⟨v, rest, _, _, rfl⟩ |
          ⟨_, _, _, rfl⟩ | ⟨ho, _⟩
        · cases ho
        · cases ho
        · simp [takenBy, holding, after]
        · simp [takenBy, holding, after]
        · cases ho
      · have hne : c' ≠ c₁ := Ne.symm hc
        have hmoved := holding_moved (m.cons c₁) (hm (.consumer c₁) (by simpa using hc))
        simp only [hl, takenBy_append, hmoved]
        rw [h c₁]
        cases hr : c.res <;> simp [takenBy, hne]

theorem Handles.next {m' : Program P C} {a : Move P C} (h : Handles m) (hk : Control cfg m)
    (hn : next cfg m a = some m') : Handles m' := by
  cases next_cases hn with
  | @queue a s ha hs =>
    exact h.inCall hk
      (inCall_cases hs (by rintro i op rfl; cases ha) (by rintro i rfl; cases ha))
  | push _ _ hs =>
    obtain ⟨_, rfl⟩ := call_eq hs
    exact h.frame (by simp [takenBy]) rfl (by simp)
  | produced => exact h.frame (fun _ => rfl) rfl fun _ => rfl
  | pushed _ _ hs =>
    obtain ⟨_, _, _, rfl⟩ := ret_eq hs
    exact h.frame (by simp [takenBy]) rfl (by simp)
  | @pop c s hc hs =>
    obtain ⟨_, rfl⟩ := call_eq hs
    refine h.frame (by simp [takenBy]) rfl fun c' => ?_
    by_cases hcc : c' = c
    · subst hcc
      simp only [Function.update_self, hc]
      rfl
    · simp [hcc]
  | @popped c op item s hc hpc hs =>
    obtain ⟨_, _, _, rfl⟩ := ret_eq hs
    refine h.frame (by simp [takenBy]) rfl fun c' => ?_
    by_cases hcc : c' = c
    · subst hcc
      simp only [Function.update_self, hc, hpc]
      cases item <;> rfl
    · simp [hcc]
  | @handle c item hc =>
    intro c'
    rw [h c']
    by_cases hcc : c' = c
    · subst hcc
      simp [handledBy, holding, hc]
    · have hne : c ≠ c' := Ne.symm hcc
      simp [handledBy, hcc, hne]
  | joinProducer => exact h.frame (fun _ => rfl) rfl fun _ => rfl
  | producersJoined => exact h.frame (fun _ => rfl) rfl fun _ => rfl
  | close _ hs =>
    obtain ⟨_, rfl⟩ := call_eq hs
    exact h.frame (by simp [takenBy]) rfl (by simp)
  | closed _ hs =>
    obtain ⟨_, _, _, rfl⟩ := ret_eq hs
    exact h.frame (by simp [takenBy]) rfl (by simp)
  | joinConsumer => exact h.frame (fun _ => rfl) rfl fun _ => rfl
  | consumersJoined => exact h.frame (fun _ => rfl) rfl fun _ => rfl

theorem reachable_handles (h : Machine.Reachable (BoundedQueue.next cfg) (cfg.start C) m) :
    Handles m := by
  refine h.invariant (fun c => ?_) fun hr ih hn => ih.next (reachable_control hr) hn
  rfl

/-- What the queue does for its threads. -/
structure Stages (cfg : Config P) (m : Program P C) : Prop where
  /-- A consumer handles the items of one producer in the order they were made. -/
  order : ∀ c, InOrder (handledBy c m.handled)
  /-- Producers are ahead of the consumers by what fits between them. -/
  backpressure : (accepted (effects m.sys.log)).length ≤ m.handled.length + cfg.capacity + C

/-- For any capacity, any producers whose request ids fit an `int`, any consumers and any
interleaving, no consumer handles two items of a producer out of order, and at most a full
queue and one item for each consumer are accepted and not handled. -/
theorem program_stages (h : Machine.Reachable (BoundedQueue.next cfg) (cfg.start C) m) :
    Stages cfg m := by
  obtain ⟨f, hf, hcap, hitems, -⟩ := reachable_simulates (make_capacity cfg) (reachable_sys h)
  have hfifo := fifo hf
  simp only [Fifo.empty, List.nil_append] at hfifo
  constructor
  · intro c
    have hacc := reachable_accepted h
    rw [hfifo] at hacc
    have hby := hacc.sublist ((takenBy_sublist c m.sys.log).trans (List.sublist_append_left _ _))
    rw [reachable_handles h c] at hby
    exact hby.sublist (List.sublist_append_left _ _)
  · have htaken := congrArg Multiset.card (reachable_data h).taken
    have hhands : (∑ c, hand (m.cons c) (m.sys.pc (.consumer c))).card ≤ C := by
      rw [Multiset.card_sum]
      calc ∑ c, (hand (m.cons c) (m.sys.pc (.consumer c))).card ≤ ∑ _c : Fin C, 1 :=
            Finset.sum_le_sum fun c _ => card_hand _ _
        _ = C := by simp
    simp only [Multiset.coe_card, Multiset.card_add, List.length_map] at htaken
    have hlen := f.bounded
    rw [hfifo, List.length_append]
    omega

theorem program_stages_exampleMain :
    ∃ m, Machine.Reachable (next exampleMain) (exampleMain.start 2) m ∧ m.finished ∧
      (∀ c, InOrder (handledBy c m.handled)) ∧
      (accepted (effects m.sys.log)).length ≤ m.handled.length + 4 + 2 := by
  have hfin : ∃ m, Machine.Reachable (next exampleMain) (exampleMain.start 2) m ∧ m.finished :=
    program_finishes (by decide) .start
  obtain ⟨m, hm, hf⟩ := hfin
  exact ⟨m, hm, hf, (program_stages hm).order, (program_stages hm).backpressure⟩

end BackendPatterns.BoundedQueue
