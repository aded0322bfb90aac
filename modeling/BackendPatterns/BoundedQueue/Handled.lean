import BackendPatterns.BoundedQueue.Control
import BackendPatterns.BoundedQueue.Linear

/-! # What the consumers handle

Every item is accepted once, in its producer's order, and every item taken from
the queue is either handled or in the hands of exactly one consumer. Both are
equations between multisets that each step keeps. -/

namespace BackendPatterns.BoundedQueue
open BackendPatterns.Lib BackendPatterns.Lib.CondVar BackendPatterns.Lib.Fifo
open BackendPatterns.Lib.History BackendPatterns.Lib.Threads

variable {P C : Nat}

/-- How many of its items a producer has put into the queue. -/
def inserted (cfg : Config P) (p : Fin P) : ProducerPc → Pc (Item P) → Nat
  | .loop i, _ => i
  | .pushing i, .done _ _ => i + 1
  | .pushing i, _ => i
  | .done, _ => cfg.count p
  | .stopped, _ => 0

/-- The first `n` items of a producer. -/
def made (cfg : Config P) (p : Fin P) (n : Nat) : Multiset (Item P) :=
  ((List.range n).map (cfg.item p) : List (Item P))

/-- What a consumer has taken and not handled yet. -/
def hand : ConsumerPc P → Pc (Item P) → Multiset (Item P)
  | .handling item, _ => {item}
  | .popping, .done _ (.popped (some item)) => {item}
  | _, _ => 0

theorem made_succ (cfg : Config P) (p : Fin P) (n : Nat) :
    made cfg p (n + 1) = made cfg p n + {cfg.item p n} := by
  simp [made, List.range_succ, ← Multiset.coe_add]

theorem inserted_moved {cfg : Config P} {p : Fin P} {pr : ProducerPc} {pc pc' : Pc (Item P)}
    (h : ProducerOk cfg p pr pc) (hm : Moved pc pc') :
    inserted cfg p pr pc' = inserted cfg p pr pc := by
  cases hm with
  | refl => rfl
  | wait => cases pr <;> rfl
  | notified => cases pr <;> rfl
  | closed => cases pr <;> simp_all [ProducerOk]

theorem hand_moved {co : ConsumerPc P} {pc pc' : Pc (Item P)} (hm : Moved pc pc') :
    hand co pc' = hand co pc := by
  cases hm with
  | refl => rfl
  | wait | notified | closed => cases co <;> rfl

/-- A producer has put at most all its items into the queue. -/
theorem inserted_le {cfg : Config P} {p : Fin P} {pr : ProducerPc} {pc : Pc (Item P)}
    (h : ProducerOk cfg p pr pc) : inserted cfg p pr pc ≤ cfg.count p := by
  cases pr with
  | loop i => exact h.2
  | pushing i =>
    have hi : i < cfg.count p := h.1
    cases pc <;> simp only [inserted] <;> omega
  | done => exact Nat.le_refl _
  | stopped => exact h.elim

structure Data (cfg : Config P) (m : Program P C) : Prop where
  accepted : ((accepted (effects m.sys.log) : List (Item P)) : Multiset (Item P)) =
    ∑ p, made cfg p (inserted cfg p (m.prod p) (m.sys.pc (.producer p)))
  taken : ((taken (effects m.sys.log) : List (Item P)) : Multiset (Item P)) =
    ((m.handled.map Prod.snd : List (Item P)) : Multiset (Item P)) +
      ∑ c, hand (m.cons c) (m.sys.pc (.consumer c))
  processed : m.processed = Int.bmod m.handled.length (2 ^ 32)
  unrefused : ∀ v, (.push v, .pushed false) ∉ effects m.sys.log

theorem data_start (cfg : Config P) : Data cfg (cfg.start C) := by
  refine ⟨?_, ?_, Int.zero_bmod.symm, ?_⟩
  · simp [Config.start, start, effects, Fifo.accepted, inserted, made]
  · simp [Config.start, start, effects, Fifo.taken, hand]
  · simp [Config.start, start, effects]

variable {cfg : Config P} {m : Program P C}

/-- Steps that neither accept nor take: the sums keep their summands. -/
theorem Data.frame {m' : Program P C} (h : Data cfg m)
    (hl : effects m'.sys.log = effects m.sys.log)
    (hp : ∀ p, inserted cfg p (m'.prod p) (m'.sys.pc (.producer p)) =
      inserted cfg p (m.prod p) (m.sys.pc (.producer p)))
    (hc : ∀ c, hand (m'.cons c) (m'.sys.pc (.consumer c)) =
      hand (m.cons c) (m.sys.pc (.consumer c)))
    (hh : m'.handled = m.handled) (hpr : m'.processed = m.processed) : Data cfg m' := by
  refine ⟨?_, ?_, by rw [hpr, hh]; exact h.processed, by rw [hl]; exact h.unrefused⟩
  · rw [hl, h.accepted]
    exact Finset.sum_congr rfl fun p _ => by rw [hp]
  · rw [hl, hh, h.taken]
    congr 1
    exact Finset.sum_congr rfl fun c _ => by rw [hc]

/-- The critical section of one call: the log grows by its effect, the sums by
what it accepted and took. -/
theorem Data.effect {s : System (Tid P C) (Item P)} {op : Op (Item P)} {r : Res (Item P)}
    (h : Data cfg m) (heff : effects s.log = effects m.sys.log ++ [(op, r)])
    (hunref : ∀ v, (op, r) ≠ (.push v, .pushed false))
    (hmade : ∑ p, made cfg p (inserted cfg p (m.prod p) (s.pc (.producer p))) =
      ∑ p, made cfg p (inserted cfg p (m.prod p) (m.sys.pc (.producer p))) +
        (Fifo.accepted [(op, r)] : List (Item P)))
    (hhand : ∑ c, hand (m.cons c) (s.pc (.consumer c)) =
      ∑ c, hand (m.cons c) (m.sys.pc (.consumer c)) + (Fifo.taken [(op, r)] : List (Item P))) :
    Data cfg { m with sys := s } := by
  refine ⟨?_, ?_, h.processed, ?_⟩
  · rw [hmade, ← h.accepted, heff, accepted_append, Multiset.coe_add]
  · rw [hhand, ← add_assoc, ← h.taken, heff, taken_append, Multiset.coe_add]
  · intro v hv
    rw [heff] at hv
    rcases List.mem_append.mp hv with hv | hv
    · exact h.unrefused v hv
    · exact hunref v (List.mem_singleton.mp hv).symm

theorem Data.inCall {s : System (Tid P C) (Item P)} (h : Data cfg m) (hk : Control cfg m)
    (hc : InCall m.sys s) : Data cfg { m with sys := s } := by
  cases hc with
  | quiet hq hl hm =>
    exact h.frame (by rw [hl]) (fun p => inserted_moved (hk.producer p) (hm _))
      (fun c => hand_moved (hm _)) rfl rfl
  | @effect i op w c hpc henter hq hl hi hm =>
    have heff : effects s.log = effects m.sys.log ++ [(op, c.res)] := by simp [hl]
    have hmade : (∀ p, i ≠ .producer p) →
        ∑ p, made cfg p (inserted cfg p (m.prod p) (s.pc (.producer p))) =
          ∑ p, made cfg p (inserted cfg p (m.prod p) (m.sys.pc (.producer p))) := fun hne =>
      Finset.sum_congr rfl fun p _ => by
        rw [inserted_moved (hk.producer p) (hm _ (Ne.symm (hne p)))]
    have hhand : (∀ c, i ≠ .consumer c) →
        ∑ c, hand (m.cons c) (s.pc (.consumer c)) =
          ∑ c, hand (m.cons c) (m.sys.pc (.consumer c)) := fun hne =>
      Finset.sum_congr rfl fun c _ => hand_moved (hm _ (Ne.symm (hne c)))
    cases i with
    | producer p =>
      obtain ⟨i, hprod, hlt, rfl, hopen⟩ := hk.pushing hpc
      rcases enter_cases henter with ⟨v, _, _, _, rfl⟩ | ⟨_, _, hcl, _⟩ | ⟨_, _, ho, _⟩ |
        ⟨ho, _⟩ | ⟨ho, _⟩
      · refine h.effect heff (by simp) ?_ (by simpa [Fifo.taken] using hhand (by simp))
        refine sum_add_of_ne (i := p) (fun p' hp' => ?_) ?_
        · rw [inserted_moved (hk.producer p') (hm _ (by simpa using hp'))]
        · rw [hi, hpc, hprod]
          exact made_succ cfg p i
      · rw [hcl] at hopen; cases hopen
      · cases ho
      · cases ho
      · cases ho
    | consumer c' =>
      obtain ⟨hcons, rfl⟩ := hk.popping hpc
      rcases enter_cases henter with ⟨_, ho, _⟩ | ⟨_, ho, _⟩ | ⟨v, rest, _, _, rfl⟩ |
        ⟨_, _, _, rfl⟩ | ⟨ho, _⟩
      · cases ho
      · cases ho
      · refine h.effect heff (by simp) (by simpa [Fifo.accepted] using hmade (by simp)) ?_
        refine sum_add_of_ne (i := c') (fun c hc => hand_moved (hm _ (by simpa using hc))) ?_
        rw [hi, hpc, hcons]
        simp [hand, after, Fifo.taken]
      · refine h.effect heff (by simp) (by simpa [Fifo.accepted] using hmade (by simp)) ?_
        refine sum_add_of_ne (i := c') (fun c hc => hand_moved (hm _ (by simpa using hc))) ?_
        rw [hi, hpc, hcons]
        simp [hand, after, Fifo.taken]
      · cases ho
    | main =>
      obtain ⟨_, rfl, _⟩ := hk.closing hpc
      exact h.effect heff (by simp) (by simpa [Fifo.accepted] using hmade (by simp))
        (by simpa [Fifo.taken] using hhand (by simp))

theorem Data.next {m' : Program P C} {a : Move P C} (h : Data cfg m) (hk : Control cfg m)
    (hn : next cfg m a = some m') : Data cfg m' := by
  cases next_cases hn with
  | @queue a s ha hs =>
    refine h.inCall hk (inCall_cases hs ?_ ?_)
    · rintro i op rfl; cases ha
    · rintro i rfl; cases ha
  | @push p i s hp hi hs =>
    obtain ⟨_, rfl⟩ := call_eq hs
    refine h.frame (by simp) (fun p' => ?_) (fun c => by simp) rfl rfl
    by_cases hpp : p' = p
    · subst hpp
      simp only [Function.update_self, hp]
      rfl
    · simp [hpp]
  | @produced p i hp hi =>
    have hok := hk.producer p
    rw [hp] at hok
    refine h.frame rfl (fun p' => ?_) (fun _ => rfl) rfl rfl
    by_cases hpp : p' = p
    · subst hpp
      simp only [Function.update_self, hp]
      exact Nat.le_antisymm hi hok.2
    · simp only [Function.update_of_ne hpp]
  | @pushed p i op ok s hp hpc hs =>
    obtain ⟨_, _, _, rfl⟩ := ret_eq hs
    have hok := hk.producer p
    rw [hp, hpc] at hok
    obtain ⟨_, ⟨w, hw⟩ | hd⟩ := hok
    · cases hw
    · cases hd
      refine h.frame (by simp) (fun p' => ?_) (fun c => by simp) rfl rfl
      by_cases hpp : p' = p
      · subst hpp
        simp only [Function.update_self, hp, hpc, if_true]
        rfl
      · simp [hpp]
  | @pop c s hc hs =>
    obtain ⟨_, rfl⟩ := call_eq hs
    refine h.frame (by simp) (fun p => by simp) (fun c' => ?_) rfl rfl
    by_cases hcc : c' = c
    · subst hcc
      simp only [Function.update_self, hc]
      rfl
    · simp [hcc]
  | @popped c op item s hc hpc hs =>
    obtain ⟨_, _, _, rfl⟩ := ret_eq hs
    refine h.frame (by simp) (fun p => by simp) (fun c' => ?_) rfl rfl
    by_cases hcc : c' = c
    · subst hcc
      simp only [Function.update_self, hc, hpc]
      cases item <;> rfl
    · simp [hcc]
  | @handle c item hc =>
    refine ⟨h.accepted, ?_, ?_, h.unrefused⟩
    · have hsum := sum_add_of_ne (i := c) (x := {item})
        (f := fun c' => hand (Function.update m.cons c .loop c') (m.sys.pc (.consumer c')))
        (g := fun c' => hand (m.cons c') (m.sys.pc (.consumer c')))
        (fun c' hc' => by rw [Function.update_of_ne hc'])
        (by simp [hc, hand])
      rw [h.taken, hsum]
      simp only [List.map_append, List.map_cons, List.map_nil, ← Multiset.coe_add,
        Multiset.coe_singleton]
      rw [add_assoc, add_comm ({item} : Multiset (Item P))]
    · simp only [increment, h.processed, List.length_append, List.length_cons, List.length_nil]
      rw [Int.bmod_add_bmod]
      rfl
  | joinProducer => exact h.frame rfl (fun _ => rfl) (fun _ => rfl) rfl rfl
  | producersJoined => exact h.frame rfl (fun _ => rfl) (fun _ => rfl) rfl rfl
  | close _ hs =>
    obtain ⟨_, rfl⟩ := call_eq hs
    exact h.frame (by simp) (fun p => by simp)
      (fun c => by simp) rfl rfl
  | closed _ hs =>
    obtain ⟨_, _, _, rfl⟩ := ret_eq hs
    exact h.frame (by simp) (fun p => by simp)
      (fun c => by simp) rfl rfl
  | joinConsumer => exact h.frame rfl (fun _ => rfl) (fun _ => rfl) rfl rfl
  | consumersJoined => exact h.frame rfl (fun _ => rfl) (fun _ => rfl) rfl rfl

theorem reachable_data (h : Machine.Reachable (BoundedQueue.next cfg) (cfg.start C) m) :
    Data cfg m :=
  h.invariant (data_start cfg) fun hr ih hn => ih.next (reachable_control hr) hn

end BackendPatterns.BoundedQueue
