import BackendPatterns.ThreadPool.FanOut

/-! # The fan-out program ends with its checksum

`main` only waits for futures of accepted jobs and for the destructor, and the
pool is stuck in neither. Each future carries the hash of its own request, so the
sum does not depend on which worker parses what, nor in which order. -/

namespace BackendPatterns.ThreadPool
open BackendPatterns.Lib BackendPatterns.Lib.CondVar BackendPatterns.Lib.Threads

variable {n : Nat} {requests : List Int}

/-! ## Where `main` stands -/

/-- The hashes of the first `k` requests, added up. -/
def checksum (requests : List Int) (k : Nat) : Int :=
  ((requests.take k).map fun requestId => hash requestId 100000).sum

/-- How many tasks `main` has made, and how many futures it has. -/
def MainPc.made (requests : List Int) : MainPc → Nat
  | .submit k => k
  | .submitting k => k + 1
  | _ => requests.length

def MainPc.returned (requests : List Int) : MainPc → Nat
  | .submit k | .submitting k => k
  | _ => requests.length

/-- The call of `submit` that `main` is in, and the sum it has. -/
def MainOk (requests : List Int) (s : FanOut n) : MainPc → Prop
  | .submit k => k ≤ requests.length ∧ s.pool.submits (.submitter ()) = .idle ∧
      s.pool.dtor = .alive ∧ s.total = 0
  | .submitting k => k < requests.length ∧
      (s.pool.submits (.submitter ()) = .entry k ∨ s.pool.submits (.submitter ()) = .notify k ∨
        s.pool.submits (.submitter ()) = .done (.ok k)) ∧
      s.pool.dtor = .alive ∧ s.total = 0
  | .get k => k ≤ requests.length ∧ s.pool.dtor = .alive ∧ s.total = checksum requests k
  | .destroy => s.pool.dtor ≠ .done ∧ s.total = checksum requests requests.length ∧
      s.logged = some s.total
  | .done => s.pool.dtor = .done ∧ s.total = checksum requests requests.length ∧
      s.logged = some s.total
  | .threw => False

structure Control (requests : List Int) (s : FanOut n) : Prop where
  main : MainOk requests s s.main
  tasks : s.pool.tasks = (requests.take (s.main.made requests)).map fun r => ⟨(), r⟩
  results : s.results = List.range (s.main.returned requests)
  accepted : ∀ id ∈ s.results, id ∈ accepted s.pool.log
  flat : ∀ w id resume, s.pool.workers w ≠ .submitting id resume

/-- The requests `main` may be started with. -/
def InRange (requests : List Int) : Prop :=
  ∀ requestId ∈ requests, 0 ≤ requestId ∧ requestId ≤ 2016383386

theorem checksum_succ {k : Nat} (hk : k < requests.length) :
    checksum requests (k + 1) = checksum requests k + hash requests[k] 100000 := by
  rw [checksum, List.take_succ_eq_append_getElem hk, List.map_append, List.sum_append,
    List.map_singleton, List.sum_singleton, checksum]

/-- Every result is less than `1'000'003`. -/
theorem checksum_range (requests : List Int) (k : Nat) :
    0 ≤ checksum requests k ∧ checksum requests k ≤ 1000002 * requests.length := by
  have hall : ∀ rs : List Int,
      0 ≤ (rs.map fun r => hash r 100000).sum ∧
        (rs.map fun r => hash r 100000).sum ≤ 1000002 * rs.length := by
    intro rs
    induction rs with
    | nil => exact ⟨le_rfl, le_rfl⟩
    | cons r rs ih =>
      have hr := hash_range r 100000
      rw [List.map_cons, List.sum_cons, List.length_cons]
      omega
  have hlen := List.length_take_le' k requests
  have hsum := hall (requests.take k)
  unfold checksum
  omega

theorem Control.total {s : FanOut n} (h : Control requests s) :
    ∃ k, s.total = checksum requests k := by
  have hmain := h.main
  cases hm : s.main with
  | submit k => rw [hm] at hmain; exact ⟨0, hmain.2.2.2⟩
  | submitting k => rw [hm] at hmain; exact ⟨0, hmain.2.2.2⟩
  | get k => rw [hm] at hmain; exact ⟨k, hmain.2.2⟩
  | destroy => rw [hm] at hmain; exact ⟨_, hmain.2.1⟩
  | done => rw [hm] at hmain; exact ⟨_, hmain.2.1⟩
  | threw => rw [hm] at hmain; exact hmain.elim

/-- A future that is ready holds the hash of its request. -/
theorem Control.shared {s : FanOut n} (h : Control requests s) (hrange : InRange requests)
    (hout : Outcomes s.pool) {k : Nat} (hk : k < requests.length)
    {outcome : Except Overflow Int} (ho : s.pool.shared k = some outcome) :
    outcome = .ok (hash requests[k] 100000) := by
  obtain ⟨task, htask, hends⟩ := hout.ends k outcome ho
  rw [h.tasks, List.getElem?_map, Option.map_eq_some_iff] at htask
  obtain ⟨requestId, hget, rfl⟩ := htask
  rw [List.getElem?_take, List.getElem?_eq_getElem hk, Option.ite_none_right_eq_some,
    Option.some.injEq] at hget
  obtain ⟨-, rfl⟩ := hget
  exact parse_ends (hrange _ (List.getElem_mem hk)) hends

/-- The pool moves by itself: a call of `main` may go on. -/
theorem MainOk.inner {s : FanOut n} {pool : Pool n Unit parseJobs} (h : MainOk requests s s.main)
    (hi : Inner s.pool pool) (hopen : s.pool.dtor = .alive → s.pool.stopping = false) :
    MainOk requests { s with pool } s.main := by
  cases hm : s.main with
  | submit k =>
    rw [hm] at h
    obtain ⟨hk, hidle, hd, ht⟩ := h
    obtain hsame | ⟨id, ⟨he, -⟩ | ⟨hn, -⟩⟩ := hi.submits (.submitter ())
    · exact ⟨hk, hsame.trans hidle, hi.dtor.trans hd, ht⟩
    · rw [hidle] at he
      cases he
    · rw [hidle] at hn
      cases hn
  | submitting k =>
    rw [hm] at h
    obtain ⟨hk, hcall, hd, ht⟩ := h
    refine ⟨hk, ?_, hi.dtor.trans hd, ht⟩
    obtain hsame | ⟨id, ⟨he, hto⟩ | ⟨hn, hto⟩⟩ := hi.submits (.submitter ())
    · show pool.submits _ = _ ∨ pool.submits _ = _ ∨ pool.submits _ = _
      rw [hsame]
      exact hcall
    · rw [he] at hcall
      obtain heq | heq | heq := hcall
      · cases heq
        obtain hto | hstop := hto
        · exact .inr (.inl hto)
        · rw [hopen hd] at hstop
          cases hstop
      · cases heq
      · cases heq
    · rw [hn] at hcall
      obtain heq | heq | heq := hcall
      · cases heq
      · cases heq
        exact .inr (.inr hto)
      · cases heq
  | get k =>
    rw [hm] at h
    exact ⟨h.1, hi.dtor.trans h.2.1, h.2.2⟩
  | destroy =>
    rw [hm] at h
    exact ⟨by rw [hi.dtor]; exact h.1, h.2⟩
  | done =>
    rw [hm] at h
    exact ⟨hi.dtor.trans h.1, h.2⟩
  | threw =>
    rw [hm] at h
    exact h

/-- The future that `main` waits for is that of request `k`. -/
theorem Control.get_lt {s : FanOut n} (h : Control requests s) {k id : Nat}
    (hm : s.main = .get k) (hk : s.results[k]? = some id) : k < requests.length ∧ id = k := by
  have hresults := h.results
  rw [hm] at hresults
  rw [hresults] at hk
  obtain ⟨hlt, hget⟩ := List.getElem?_eq_some_iff.mp hk
  rw [List.getElem_range] at hget
  exact ⟨by simpa [MainPc.returned] using hlt, hget.symm⟩

/-- The destructor leaves the tasks alone. -/
theorem destroy_keeps {s t : Pool n Unit parseJobs}
    (hw : ∀ w id resume, s.workers w ≠ .submitting id resume) (hs : s.destroy = some t) :
    t.tasks = s.tasks ∧ accepted t.log = accepted s.log ∧
      ∀ w id resume, t.workers w ≠ .submitting id resume := by
  cases destroy_steps hs with
  | notifyAll =>
    refine ⟨rfl, rfl, ?_⟩
    intro w id resume hg
    exact hw w id resume (submitting_notifyAll hg)
  | _ => exact ⟨rfl, rfl, hw⟩

theorem Control.step {s t : FanOut n} {a : Step n} (h : Control requests s)
    (hrange : InRange requests) (he : Engaged s.pool) (hout : Outcomes s.pool)
    (hsub : Submits s.pool) (hs : fanStep requests s a = some t) : Control requests t := by
  have hopen : s.pool.dtor = .alive → s.pool.stopping = false := by
    intro hd
    rw [← Bool.not_eq_true, he.stopping]
    exact fun hne => hne hd
  have hmain := h.main
  have htasks := h.tasks
  have hresults := h.results
  cases fanStep_cases hs with
  | @pool a pool ha hp =>
    obtain ⟨hi, hflat⟩ := inner_cases parse_flat h.flat ha hp
    exact ⟨h.main.inner hi hopen, hi.tasks.trans h.tasks, h.results,
      fun id hid => hi.accepted id (h.accepted id hid), hflat⟩
  | @submit k requestId pool hm hk hp =>
    rw [hm] at hmain htasks hresults
    obtain ⟨hlt, hget⟩ := List.getElem?_eq_some_iff.mp hk
    cases step_cases hp with
    | call hi =>
      have hlen : s.pool.tasks.length = k := by
        rw [htasks, List.length_map, List.length_take, MainPc.made]
        omega
      refine ⟨⟨hlt, .inl ?_, hmain.2.2.1, hmain.2.2.2⟩, ?_, hresults, h.accepted, h.flat⟩
      · simp [Pool.makeTask, hlen]
      · simp only [Pool.makeTask, htasks, MainPc.made]
        rw [List.take_succ_eq_append_getElem hlt, hget, List.map_append, List.map_singleton]
  | @submitted k hm hk =>
    rw [hm] at hmain htasks hresults
    have hlen : k = requests.length :=
      Nat.le_antisymm hmain.1 (List.getElem?_eq_none_iff.mp hk)
    subst hlen
    exact ⟨⟨Nat.zero_le _, hmain.2.2.1, hmain.2.2.2⟩, htasks, hresults, h.accepted, h.flat⟩
  | @returned k id pool hm hd hp =>
    rw [hm] at hmain htasks hresults
    obtain ⟨hlt, hcall, halive, htotal⟩ := hmain
    have hid : id = k := by
      rw [hd] at hcall
      simpa using hcall
    subst hid
    have hacc := hsub.promised hd
    cases step_cases hp with
    | ret =>
      refine ⟨⟨hlt, by simp [Pool.answer], halive, htotal⟩, htasks, ?_, ?_, h.flat⟩
      · show s.results ++ [id] = List.range (id + 1)
        rw [hresults, MainPc.returned, List.range_succ]
      · intro id' hmem
        rcases List.mem_append.mp hmem with hmem | hmem
        · exact h.accepted id' hmem
        · rw [List.mem_singleton.mp hmem]
          exact hacc
  | @refused k what hm hd =>
    rw [hm] at hmain
    obtain ⟨-, hcall, -⟩ := hmain
    rw [hd] at hcall
    simp at hcall
  | @add k id result hm hk hr =>
    rw [hm] at hmain htasks hresults
    obtain ⟨hlt, rfl⟩ := h.get_lt hm hk
    have hval := h.shared hrange hout hlt hr
    refine ⟨⟨hlt, hmain.2.1, ?_⟩, htasks, hresults, h.accepted, h.flat⟩
    rw [checksum_succ hlt, ← hmain.2.2, Except.ok.inj hval]
  | @failed k id e hm hk hr =>
    obtain ⟨hlt, rfl⟩ := h.get_lt hm hk
    cases h.shared hrange hout hlt hr
  | @log k hm hk =>
    rw [hm] at hmain htasks hresults
    have hresults' : s.results = List.range requests.length := hresults
    have hlen : k = requests.length := by
      refine Nat.le_antisymm hmain.1 ?_
      rw [hresults'] at hk
      simpa using List.getElem?_eq_none_iff.mp hk
    subst hlen
    exact ⟨⟨by rw [hmain.2.1]; simp, hmain.2.2, rfl⟩, htasks, hresults, h.accepted, h.flat⟩
  | @destroy pool hm hp =>
    rw [hm] at hmain htasks hresults
    obtain ⟨hnd, hlogged⟩ := hmain
    obtain ⟨hkeep, hacc, hflat⟩ := destroy_keeps h.flat hp
    refine ⟨?_, ?_, ?_, fun id hid => ?_, hflat⟩
    · split
      · rename_i hdone
        exact ⟨hdone, hlogged⟩
      · rename_i hdone
        exact ⟨hdone, hlogged⟩
    · dsimp only
      rw [hkeep]
      split
      · exact htasks
      · exact htasks
    · dsimp only
      split
      · exact hresults
      · exact hresults
    · dsimp only
      rw [hacc]
      exact h.accepted id hid

theorem reachable_control {s₀ s : FanOut n} (hrange : InRange requests)
    (h0 : FanOut.make n = .ok s₀) (h : Machine.Reachable (fanStep requests) s₀ s) :
    Control requests s := by
  obtain ⟨hmake, hstart⟩ := fanOut_make_eq_ok h0
  refine h.invariant ?_ fun {u a v} hr ih hs => ?_
  · obtain ⟨-, hpool⟩ := make_eq_ok hmake
    rw [hpool] at hstart
    subst hstart
    exact ⟨⟨Nat.zero_le _, rfl, rfl, rfl⟩, rfl, rfl, nofun, nofun⟩
  · have hu := reachable_pool hr
    exact ih.step hrange (reachable_engaged hmake hu) (reachable_outcomes hmake hu)
      (reachable_submits hmake hu) hs

/-! ## The program ends -/

/-- Every step but a spurious wake-up. -/
def Step.fair : Step n → Bool
  | .pool a => a.own
  | .main => true

/-- What `main` still has to do. A call of `submit` pays for its job. -/
def mainRank (len : Nat) : MainPc → Nat
  | .submit k => (len - k) * 400008 + len + 2
  | .submitting k => (len - k - 1) * 400008 + len + 3
  | .get k => (len - k) + 1
  | .destroy | .done | .threw => 0

def FanOut.rank (requests : List Int) (s : FanOut n) : Nat :=
  s.pool.rank parseCost 400006 + mainRank requests.length s.main

theorem fanOut_rank_start {s : FanOut n} (h : FanOut.make n = .ok s) :
    s.rank requests = 400009 * requests.length + 4 * n + 6 := by
  obtain ⟨hmake, hstart⟩ := fanOut_make_eq_ok h
  obtain ⟨-, hpool⟩ := make_eq_ok hmake
  rw [hpool] at hstart
  subst hstart
  simp only [FanOut.rank, Pool.rank, queueRank, workersRank, workerRank, callsRank, callRank,
    dtorRank, mainRank, List.map_nil, List.sum_nil, Finset.sum_const, Finset.card_univ,
    Fintype.card_fin, nsmul_eq_mul, Nat.cast_id]
  omega

theorem parse_jobRank (task : Task parseJobs) : jobRank parseCost task = 400003 := by
  show 4 * (100000 - 0) + 3 = 400003
  omega

theorem Control.enough {s : FanOut n} (h : Control requests s) :
    Enough parseCost 400006 s.pool :=
  .inr ⟨parse_flat, h.flat, fun task _ => by rw [parse_jobRank]⟩

theorem rank_fair {s₀ s t : FanOut n} {a : Step n} (hrange : InRange requests)
    (h0 : FanOut.make n = .ok s₀) (h : Machine.Reachable (fanStep requests) s₀ s)
    (ha : a.fair = true) (hs : fanStep requests s a = some t) :
    t.rank requests < s.rank requests := by
  obtain ⟨hmake, -⟩ := fanOut_make_eq_ok h0
  have hpool := reachable_pool h
  have hcontrol := reachable_control hrange h0 h
  have hmain := hcontrol.main
  have hmade := (reachable_accounts hmake hpool).made (reachable_ids hmake hpool)
  cases fanStep_cases hs with
  | pool _ hp =>
    have hlt := rank_own parse_terminates (reachable_placed hmake hpool)
      (reachable_ids hmake hpool) (reachable_accounts hmake hpool) hcontrol.enough ha hp
    simp only [FanOut.rank]
    omega
  | submit hm hk hp =>
    have hle : _ ≤ s.pool.rank parseCost 400006 + max 400006 1 := rank_outside hmade rfl hp
    have hlt := (List.getElem?_eq_some_iff.mp hk).1
    simp only [FanOut.rank, hm, mainRank]
    omega
  | submitted hm hk =>
    rw [hm] at hmain
    simp only [FanOut.rank, hm, mainRank]
    omega
  | returned hm _ hp =>
    have heq : _ = s.pool.rank parseCost 400006 := rank_ret hp
    simp only [FanOut.rank, hm, mainRank]
    omega
  | refused hm hd =>
    rw [hm] at hmain
    rcases hmain.2.1 with hcall | hcall | hcall
    · rw [hcall] at hd
      cases hd
    · rw [hcall] at hd
      cases hd
    · rw [hcall] at hd
      cases hd
  | add hm hk =>
    have hlt := (hcontrol.get_lt hm hk).1
    simp only [FanOut.rank, hm, mainRank]
    omega
  | failed hm =>
    simp only [FanOut.rank, hm, mainRank]
    omega
  | log hm =>
    simp only [FanOut.rank, hm, mainRank]
    omega
  | destroy hm hp =>
    have hlt : _ < s.pool.rank parseCost 400006 := rank_destroy hp
    simp only [FanOut.rank, hm]
    split <;> simp only [mainRank] <;> omega

theorem rank_unfair {s t : FanOut n} {a : Step n} (ha : a.fair = false)
    (hs : fanStep requests s a = some t) : t.rank requests ≤ s.rank requests + 1 := by
  cases fanStep_cases hs with
  | @pool a pool hinner hp =>
    cases a with
    | spurious w =>
      have hle : _ ≤ s.pool.rank parseCost 400006 + 1 := rank_spurious hp
      simp only [FanOut.rank]
      omega
    | call => cases hinner
    | ret => cases hinner
    | destroy => cases hinner
    | _ => cases ha
  | _ => cases ha

/-- A program in which no thread can go on has come to the end of `main`. -/
theorem main_done {s₀ s : FanOut n} (hrange : InRange requests) (h0 : FanOut.make n = .ok s₀)
    (h : Machine.Reachable (fanStep requests) s₀ s)
    (hstuck : ∀ a : Step n, a.fair = true → fanStep requests s a = none) : s.main = .done := by
  obtain ⟨hmake, -⟩ := fanOut_make_eq_ok h0
  have hpool := reachable_pool h
  have hcontrol := reachable_control hrange h0 h
  have hmain := hcontrol.main
  have hnone := hstuck .main rfl
  have hown : Stuck s.pool := by
    intro a ha
    have hinner : a.inner = true := by
      cases a <;> first | exact ha | rfl
    simpa [fanStep, hinner] using hstuck (.pool a) ha
  cases hm : s.main with
  | submit k =>
    rw [hm] at hmain
    simp only [fanStep, mainStep, hm] at hnone
    split at hnone
    · simp [ThreadPool.step, hmain.2.1] at hnone
    · cases hnone
  | submitting k =>
    rw [hm] at hmain
    obtain ⟨-, hcall, -⟩ := hmain
    obtain hi | ⟨future, hd⟩ := hown.submits (.submitter ())
    · rw [hi] at hcall
      simp at hcall
    · cases future <;> simp [fanStep, mainStep, hm, hd, ThreadPool.step] at hnone
  | get k =>
    rw [hm] at hmain
    simp only [fanStep, mainStep, hm] at hnone
    split at hnone
    · rename_i id hk
      split at hnone
      · cases hnone
      · cases hnone
      · rename_i hshared
        have hacc := hcontrol.accepted id (List.mem_of_getElem? hk)
        exact absurd hshared (hown.ready hmake hpool hmain.2.1 hacc)
    · cases hnone
  | destroy =>
    rw [hm] at hmain
    simp only [fanStep, mainStep, hm, Option.map_eq_none_iff] at hnone
    by_cases halive : s.pool.dtor = .alive
    · simp [Pool.destroy, halive] at hnone
    · exact absurd (hown.returned hmake hpool halive hnone) hmain.1
  | done => rfl
  | threw =>
    rw [hm] at hmain
    exact hmain.elim

/-- From every state some run of the other steps comes to its end. -/
theorem exists_stuck {s₀ s : FanOut n} (hrange : InRange requests)
    (h0 : FanOut.make n = .ok s₀) (h : Machine.Reachable (fanStep requests) s₀ s) :
    ∃ t, Machine.Reachable (fanStep requests) s t ∧
      ∀ a : Step n, a.fair → fanStep requests t a = none := by
  have live {u : FanOut n} (_ : Machine.Reachable (fanStep requests) s₀ u)
      (hu : ¬ ∀ a : Step n, a.fair → fanStep requests u a = none) :
      ∃ a t, a.fair = true ∧ fanStep requests u a = some t := by
    simp only [not_forall] at hu
    obtain ⟨a, ha, hsome⟩ := hu
    obtain ⟨t, ht⟩ := Option.ne_none_iff_exists'.mp hsome
    exact ⟨a, t, ha, ht⟩
  exact h.exists_final (FanOut.rank requests) live
    fun hu ha ht => rank_fair hrange h0 hu ha ht

/-- The runs of the program from its start on: it takes a bounded number of steps, and
one more for each spurious wake-up, no exception leaves `main`, and at the end every
worker is gone and the sum of the hashes has been logged. -/
structure Completes (requests : List Int) (s₀ : FanOut n) : Prop where
  bounded : ∀ (as : List (Step n)) (s : FanOut n), Machine.run (fanStep requests) s₀ as = some s →
    as.countP (fun a => a.fair) ≤
      400009 * requests.length + 4 * n + 6 + as.countP (fun a => ¬ a.fair)
  safe : ∀ s, Machine.Reachable (fanStep requests) s₀ s →
    s.main ≠ .threw ∧ 0 ≤ s.total ∧ s.total ≤ 1000002 * requests.length
  ends : ∀ s, Machine.Reachable (fanStep requests) s₀ s →
    (∀ a : Step n, a.fair → fanStep requests s a = none) →
      s.main = .done ∧ s.logged = some (checksum requests requests.length) ∧
        ∀ w, s.pool.workers w = .exited

theorem fanOut_completes {s₀ : FanOut n} (hrange : InRange requests)
    (h0 : FanOut.make n = .ok s₀) : Completes requests s₀ := by
  obtain ⟨hmake, -⟩ := fanOut_make_eq_ok h0
  refine ⟨?_, ?_, ?_⟩
  · intro as s hr
    have hstart : Machine.Reachable (fanStep requests) s₀ s₀ := .start
    have hle := hstart.fair_le (fun a => a.fair = true) (FanOut.rank requests) 1
      (fun hu ha hs => rank_fair hrange h0 hu ha hs)
      (fun _ ha hs => rank_unfair (by simpa using ha) hs) hr
    rw [fanOut_rank_start h0, Nat.one_mul] at hle
    simp only [Bool.decide_eq_true] at hle
    exact Nat.le_of_add_right_le hle
  · intro s h
    have hcontrol := reachable_control hrange h0 h
    obtain ⟨k, hk⟩ := hcontrol.total
    refine ⟨fun hm => ?_, by rw [hk]; exact checksum_range requests k⟩
    have hmain := hcontrol.main
    rw [hm] at hmain
    exact hmain
  · intro s h hstuck
    have hm := main_done hrange h0 h hstuck
    have hmain := (reachable_control hrange h0 h).main
    rw [hm] at hmain
    refine ⟨hm, by rw [hmain.2.2, hmain.2.1], fun w => ?_⟩
    exact (reachable_exits hmake (reachable_pool h)).joined w (by rw [hmain.1]; exact w.isLt)

/-- The requests of `main`. -/
def exampleRequests : List Int := [1, 2, 3, 4, 5, 6, 7, 8, 9, 10]

/-- Some run comes to its end. -/
theorem fanOut_completes_example :
    ∃ s₀ s : FanOut 4, FanOut.make 4 = .ok s₀ ∧
      Machine.Reachable (fanStep exampleRequests) s₀ s ∧ s.main = .done ∧
      s.logged = some (checksum exampleRequests 10) ∧ ∀ w, s.pool.workers w = .exited := by
  have h0 : ∃ s₀ : FanOut 4, FanOut.make 4 = .ok s₀ := ⟨_, rfl⟩
  obtain ⟨s₀, h0⟩ := h0
  have hrange : InRange exampleRequests := by
    intro requestId hmem
    simp only [exampleRequests, List.mem_cons, List.not_mem_nil, or_false] at hmem
    omega
  obtain ⟨s, hs, hstuck⟩ := exists_stuck hrange h0 .start
  exact ⟨s₀, s, h0, hs, (fanOut_completes hrange h0).ends s hs hstuck⟩

end BackendPatterns.ThreadPool
