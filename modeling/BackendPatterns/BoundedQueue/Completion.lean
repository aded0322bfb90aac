import BackendPatterns.BoundedQueue.Progress

/-! # The producer/consumer program handles everything

When every thread has returned, the items handled are the items produced, each
once, and the queue is empty. The counter of handled items is an `int`: it holds
their number only as far as an `int` can. -/

namespace BackendPatterns.BoundedQueue
open BackendPatterns.Lib BackendPatterns.Lib.CondVar BackendPatterns.Lib.Fifo
open BackendPatterns.Lib.History BackendPatterns.Lib.Threads

variable {P C : Nat} {cfg : Config P} {m : Program P C}

theorem item_inj {p p' : Fin P} {i i' : Nat} :
    cfg.item p i = cfg.item p' i' ↔ p = p' ∧ i = i' := by
  constructor
  · intro h
    exact ⟨congrArg Item.producer h, congrArg Item.index h⟩
  · intro hex
    obtain ⟨rfl, rfl⟩ := hex
    rfl

theorem mem_made {p : Fin P} {n : Nat} {x : Item P} :
    x ∈ made cfg p n ↔ ∃ i < n, cfg.item p i = x := by
  simp [made]

theorem made_nodup (p : Fin P) (n : Nat) : (made cfg p n).Nodup := by
  refine Multiset.coe_nodup.mpr (List.Nodup.map ?_ List.nodup_range)
  intro i i' h
  exact (item_inj.mp h).2

/-- Item `i` of producer `p` is made once, and by `p`. -/
theorem count_made (p p' : Fin P) {i : Nat} (hi : i < cfg.count p) :
    (made cfg p' (cfg.count p')).count (cfg.item p i) = if p' = p then 1 else 0 := by
  split
  · rename_i hp
    subst hp
    exact Multiset.count_eq_one_of_mem (made_nodup _ _) (mem_made.mpr ⟨i, hi, rfl⟩)
  · rename_i hp
    refine Multiset.count_eq_zero_of_notMem fun hmem => ?_
    obtain ⟨j, _, hj⟩ := mem_made.mp hmem
    exact hp (item_inj.mp hj).1

/-- Every producer's items, as a multiset. -/
def allMade (cfg : Config P) : Multiset (Item P) := ∑ p, made cfg p (cfg.count p)

theorem count_allMade (p : Fin P) {i : Nat} (hi : i < cfg.count p) :
    (allMade cfg).count (cfg.item p i) = 1 := by
  rw [allMade, Multiset.count_sum']
  simp [count_made p _ hi]

theorem card_allMade : (allMade cfg).card = cfg.total := by
  simp [allMade, Multiset.card_sum, card_made, Config.total]

section Finished

variable (h : Machine.Reachable (BoundedQueue.next cfg) (cfg.start C) m) (hf : m.finished)

include h hf

theorem finished_prod (p : Fin P) : m.prod p = .done :=
  finished_producer ((reachable_control h).producer p) (hf.1 p)

/-- The consumers only leave a queue that is closed and drained. -/
theorem finished_empty (hC : 0 < C) : m.sys.queue.q = [] := by
  have hc := (reachable_control h).consumer ⟨0, hC⟩
  rw [finished_consumer (hf.2.1 ⟨0, hC⟩)] at hc
  exact hc.2.2

theorem finished_handled (hC : 0 < C) :
    ((m.handled.map Prod.snd : List (Item P)) : Multiset (Item P)) = allMade cfg := by
  have hd := reachable_data h
  obtain ⟨f, hf', -, hitems, -⟩ := reachable_simulates (make_capacity cfg) (reachable_sys h)
  have hfifo := fifo hf'
  rw [hitems, finished_empty h hf hC] at hfifo
  simp only [Fifo.empty, List.nil_append, List.append_nil] at hfifo
  have hhand : ∀ c, hand (m.cons c) (m.sys.pc (.consumer c)) = 0 := fun c => by
    rw [finished_consumer (hf.2.1 c)]
    rfl
  have hmade : ∀ p, inserted cfg p (m.prod p) (m.sys.pc (.producer p)) = cfg.count p := fun p => by
    rw [finished_prod h hf p]
    rfl
  have htaken := hd.taken
  have hacc := hd.accepted
  simp only [hhand, Finset.sum_const_zero, add_zero] at htaken
  simp only [hmade] at hacc
  rw [← htaken, ← hfifo, hacc]
  rfl

end Finished

/-- A push that returned false had that effect, and there was none. -/
theorem never_refused (h : Machine.Reachable (BoundedQueue.next cfg) (cfg.start C) m)
    (i : Tid P C) (v : Item P) : .ret i (.push v) (.pushed false) ∉ m.sys.log := by
  intro hmem
  have hproj : .ret i (.push v) (.pushed false) ∈ project i m.sys.log :=
    List.mem_filter.mpr ⟨hmem, by simp [Event.thread]⟩
  obtain ⟨l₁, l₂, hl⟩ := List.append_of_mem hproj
  obtain ⟨l₀, rfl⟩ := (reachable_threadsOk (reachable_sys h) i).ret_effect hl
  have heff : .effect i (.push v) (.pushed false) ∈ project i m.sys.log := by
    rw [hl]
    simp
  refine (reachable_data h).unrefused v ?_
  exact List.mem_filterMap.mpr ⟨_, (List.mem_filter.mp heff).1, rfl⟩

/-- What the program has done when it ends. -/
structure AllHandled (cfg : Config P) (m : Program P C) : Prop where
  unrefused : ∀ i v, .ret i (.push v) (.pushed false) ∉ m.sys.log
  /-- Each produced item was handled by one consumer, once. -/
  once : ∀ p i, i < cfg.count p → ∃ c,
    m.handled.filter (fun e => e.2 = cfg.item p i) = [(c, cfg.item p i)]
  produced : ∀ e ∈ m.handled, ∃ p i, i < cfg.count p ∧ e.2 = cfg.item p i
  processed : m.processed = Int.bmod cfg.total (2 ^ 32)
  /-- The counter is exact while the sum fits an `int`. -/
  exact : cfg.total < 2 ^ 31 → m.processed = cfg.total
  empty : m.sys.queue.q = []

theorem allHandled_of_finished (hC : 0 < C)
    (h : Machine.Reachable (BoundedQueue.next cfg) (cfg.start C) m) (hf : m.finished) :
    AllHandled cfg m := by
  have hall := finished_handled h hf hC
  have hlen : m.handled.length = cfg.total := by
    have hcard := congrArg Multiset.card hall
    rwa [card_allMade, Multiset.coe_card, List.length_map] at hcard
  have hprocessed : m.processed = Int.bmod cfg.total (2 ^ 32) := by
    rw [(reachable_data h).processed, hlen]
  refine ⟨never_refused h, ?_, ?_, hprocessed, ?_, finished_empty h hf hC⟩
  · intro p i hi
    have hone : (m.handled.filter fun e => e.2 = cfg.item p i).length = 1 := by
      have hcount := count_allMade p hi
      rw [← hall, Multiset.coe_count, List.count_eq_countP, List.countP_map,
        List.countP_eq_length_filter] at hcount
      rw [← hcount]
      congr 2
    obtain ⟨e, he⟩ := List.length_eq_one_iff.mp hone
    have hmem : e ∈ m.handled.filter fun e => e.2 = cfg.item p i := by rw [he]; simp
    have hitem : e.2 = cfg.item p i := by simpa using (List.mem_filter.mp hmem).2
    exact ⟨e.1, by rw [he, ← hitem]⟩
  · intro e he
    have hmem : e.2 ∈ allMade cfg := by
      rw [← hall]
      exact Multiset.mem_coe.mpr (List.mem_map_of_mem he)
    obtain ⟨p, -, hp⟩ := Multiset.mem_sum.mp hmem
    obtain ⟨i, hi, hx⟩ := mem_made.mp hp
    exact ⟨p, i, hi, hx.symm⟩
  · intro hlt
    rw [hprocessed]
    refine Int.bmod_eq_of_le ?_ ?_ <;> omega

/-- The run of the whole program, seen from one of its states. -/
structure Completes (cfg : Config P) (m : Program P C) : Prop where
  /-- No deadlock: before the end some thread can go on by itself. -/
  live : ¬ m.finished → ∃ a t, fair a ∧ next cfg m a = some t
  finishes : ∃ t, Machine.Reachable (next cfg) m t ∧ t.finished
  handled : m.finished → AllHandled cfg m

/-- For any capacity, any producers whose request ids fit an `int` and at least one
consumer, every reachable state of the program can go on until it is finished,
and a finished state has handled everything. -/
theorem program_completes (hC : 0 < C)
    (h : Machine.Reachable (BoundedQueue.next cfg) (cfg.start C) m) : Completes cfg m :=
  ⟨program_live hC h, program_finishes hC h, allHandled_of_finished hC h⟩

/-- The arguments in `main`. -/
def exampleMain : Config 2 where
  capacity := 4
  capacity_pos := by decide
  producerId p := p + 1
  items _ := 6
  items_int _ := by decide
  request_id_int p i hi := by
    unfold IsInt
    omega

theorem program_completes_exampleMain :
    ∃ m, Machine.Reachable (next exampleMain) (exampleMain.start 2) m ∧ m.finished ∧
      m.processed = 12 ∧ m.sys.queue.q = [] ∧
      ∃ c, m.handled.filter (fun e => e.2 = exampleMain.item 1 3) =
        [(c, exampleMain.item 1 3)] := by
  have h0 : Machine.Reachable (next exampleMain) (exampleMain.start 2) (exampleMain.start 2) :=
    .start
  obtain ⟨m, hm, hf⟩ := (program_completes (by decide) h0).finishes
  have hall := (program_completes (by decide) hm).handled hf
  exact ⟨m, hm, hf, hall.exact (by decide), hall.empty, hall.once 1 3 (by decide)⟩

/-- Two producers of 2^30 items each, one slot. -/
def wrapping : Config 2 where
  capacity := 1
  capacity_pos := by decide
  producerId p := p + 1
  items _ := 2 ^ 30
  items_int _ := by decide
  request_id_int p i hi := by
    unfold IsInt
    omega

/-- The counter wraps: 2^31 items are handled and `processed` is -2^31. -/
theorem processed_wraps :
    ∃ m, Machine.Reachable (next wrapping) (wrapping.start 1) m ∧ m.finished ∧
      wrapping.total = 2 ^ 31 ∧ m.processed = - 2 ^ 31 := by
  have h0 : Machine.Reachable (next wrapping) (wrapping.start 1) (wrapping.start 1) := .start
  obtain ⟨m, hm, hf⟩ := program_finishes (by decide) h0
  have htotal : wrapping.total = 2 ^ 31 := by
    simp [Config.total, Config.count, wrapping]
  refine ⟨m, hm, hf, htotal, ?_⟩
  rw [(allHandled_of_finished (by decide) hm hf).processed, htotal]
  rfl

end BackendPatterns.BoundedQueue
