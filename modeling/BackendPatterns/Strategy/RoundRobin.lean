import BackendPatterns.Lib.Turns
import BackendPatterns.Strategy.LeastLoaded

/-! # Routing in turns

The counter of the strategy is 64 bits wide. Until it has gone round, request `k`
goes to backend `k % n`. -/

namespace BackendPatterns.Strategy
open BackendPatterns.Lib BackendPatterns.Lib.Turns

/-- Where the strategy sends each request of a run. -/
def choices {S : Type} (strategy : RoutingStrategy S) : RequestRouter S → List Request → List Nat
  | _, [] => []
  | s, request :: requests =>
    match strategy.chooseBackend s.strategy s.backends, handleRequest strategy s request with
    | some (i, _), some t => i :: choices strategy t requests
    | _, _ => []

variable {s t : RequestRouter UInt64} {request : Request} {requests : List Request} {c : Nat}

/-- Backend `i` has the work of a request more, and the others stay. -/
structure TakesTurn (work : Int) (backends backends' : List Backend) (i : Nat) : Prop where
  length : backends'.length = backends.length
  own : ∀ backend, backends[i]? = some backend →
    backends'[i]? = some ⟨backend.name, backend.inFlight + work⟩
  others : ∀ j, j ≠ i → backends'[j]? = backends[j]?

theorem chooseBackend_turn (hne : s.backends ≠ []) (hs : s.strategy = UInt64.ofNat c)
    (hc : c < 18446744073709551616) :
    roundRobinStrategy.chooseBackend s.strategy s.backends =
      some (c % s.backends.length, UInt64.ofNat (c + 1)) := by
  have hlen : s.backends.length ≠ 0 := mt List.length_eq_zero_iff.mp hne
  have hnat : (UInt64.ofNat c).toNat = c := UInt64.toNat_ofNat_of_lt' hc
  show (if s.backends.length = 0 then none
    else some (s.strategy.toNat % s.backends.length, s.strategy + 1)) = _
  rw [if_neg hlen, hs, hnat, UInt64.ofNat_add]
  rfl

theorem takesTurn_of_handleRequest (hne : s.backends ≠ []) (hs : s.strategy = UInt64.ofNat c)
    (hc : c < 18446744073709551616) (h : handleRequest roundRobinStrategy s request = some t) :
    t.strategy = UInt64.ofNat (c + 1) ∧
      TakesTurn request.simulatedWork s.backends t.backends (c % s.backends.length) := by
  obtain ⟨hchoose, hget⟩ := handles_of_handleRequest h
  rw [chooseBackend_turn hne hs hc] at hchoose
  cases hchoose
  refine ⟨rfl, List.length_set, ?_, ?_⟩
  · intro backend hb
    cases hget.symm.trans hb
    exact List.getElem?_set_self (List.getElem?_eq_some_iff.mp hget).1
  · intro j hj
    exact List.getElem?_set_ne hj.symm

/-- A request is handled unless its work overflows the load of the backend. -/
theorem turn_isSome {backend : Backend}
    (hget : s.backends[s.strategy.toNat % s.backends.length]? = some backend) :
    (handleRequest roundRobinStrategy s request).isSome =
      (plusInt backend.inFlight request.simulatedWork).isSome := by
  have hne : s.backends ≠ [] :=
    List.ne_nil_of_length_pos (Nat.zero_lt_of_lt (List.getElem?_eq_some_iff.mp hget).1)
  simp [handleRequest, roundRobinStrategy, hne, hget]

/-- The run lemma: from a counter of `c` on, the requests are turns `c`, `c + 1`, …,
as long as the counter does not go round. -/
theorem run_turns (hne : s.backends ≠ []) (hs : s.strategy = UInt64.ofNat c)
    (hc : c + requests.length ≤ 18446744073709551616)
    (hrun : Machine.run (handleRequest roundRobinStrategy) s requests = some t) :
    choices roundRobinStrategy s requests = turns s.backends.length c requests.length ∧
      ∀ (j : Nat) (backend : Backend), s.backends[j]? = some backend →
        t.backends[j]? = some ⟨backend.name, backend.inFlight +
          share s.backends.length c j (requests.map Request.simulatedWork)⟩ := by
  induction requests generalizing s c with
  | nil =>
    cases hrun
    refine ⟨rfl, fun j backend hget => ?_⟩
    rw [hget, List.map_nil, share_nil, Int.add_zero]
  | cons request requests ih =>
    obtain ⟨u, hu, hrun⟩ := Option.bind_eq_some_iff.mp hrun
    rw [List.length_cons] at hc
    have hlt : c < 18446744073709551616 := by omega
    obtain ⟨hnext, hturn⟩ := takesTurn_of_handleRequest hne hs hlt hu
    have hne' : u.backends ≠ [] := by
      refine List.ne_nil_of_length_pos ?_
      rw [hturn.length]
      exact List.length_pos_iff.mpr hne
    obtain ⟨hchoices, hloads⟩ := ih hne' hnext (by omega) hrun
    rw [hturn.length] at hchoices hloads
    refine ⟨?_, ?_⟩
    · simp only [choices, chooseBackend_turn hne hs hlt, hu, hchoices, List.length_cons]
      exact turns_succ.symm
    · intro j backend hget
      rw [List.map_cons]
      by_cases hj : c % s.backends.length = j
      · subst hj
        rw [share_own rfl, ← Int.add_assoc]
        exact hloads _ _ (hturn.own backend hget)
      · rw [share_other hj]
        exact hloads j backend ((hturn.others j (Ne.symm hj)).trans hget)

/-- In every run of at most `2^64` requests without overflow, any `n` requests in
a row go to each of the `n` backends once; after any number of requests no backend
was chosen more than once more than another; and in the end each has the work of
every `n`-th request more. -/
theorem roundRobin_fair (hne : s.backends ≠ []) (hs : s.strategy = 0)
    (hlen : requests.length ≤ 18446744073709551616)
    (hrun : Machine.run (handleRequest roundRobinStrategy) s requests = some t) :
    (choices roundRobinStrategy s requests).length = requests.length ∧
    (∀ k, k + s.backends.length ≤ requests.length → ∀ j < s.backends.length,
      (((choices roundRobinStrategy s requests).drop k).take s.backends.length).count j = 1) ∧
    (∀ m ≤ requests.length, ∀ i < s.backends.length, ∀ j < s.backends.length,
      ((choices roundRobinStrategy s requests).take m).count i ≤
        ((choices roundRobinStrategy s requests).take m).count j + 1) ∧
    ∀ (j : Nat) (backend : Backend), s.backends[j]? = some backend →
      t.backends[j]? = some ⟨backend.name, backend.inFlight +
        (((requests.map Request.simulatedWork).zipIdx.filter
          fun w => w.2 % s.backends.length = j).map Prod.fst).sum⟩ := by
  have hzero : s.strategy = UInt64.ofNat 0 := hs
  obtain ⟨hchoices, hloads⟩ := run_turns hne hzero (by omega) hrun
  rw [hchoices]
  refine ⟨length_turns, ?_, ?_, hloads⟩
  · intro k hk j hj
    rw [drop_turns, take_turns (by omega)]
    exact count_round hj _
  · intro m hm i hi j hj
    rw [take_turns hm]
    exact count_le_succ hi hj

/-- Four requests to the three backends of the example program. -/
def fourRequests : List Request := [⟨101, 2⟩, ⟨102, 2⟩, ⟨103, 2⟩, ⟨104, 2⟩]

theorem roundRobin_fair_fourRequests :
    ∃ t, Machine.run (handleRequest roundRobinStrategy) ⟨0, backends, []⟩ fourRequests = some t ∧
      (((choices roundRobinStrategy ⟨0, backends, []⟩ fourRequests).drop 1).take 3).count 0 = 1 ∧
      t.backends[0]? = some ⟨"api-a", 6⟩ := by
  obtain ⟨t, hrun⟩ : ∃ t, Machine.run (handleRequest roundRobinStrategy) ⟨0, backends, []⟩
    fourRequests = some t := ⟨_, rfl⟩
  obtain ⟨-, hround, -, hloads⟩ := roundRobin_fair (by decide) rfl (by decide) hrun
  exact ⟨t, hrun, hround 1 (by decide) 0 (by decide), hloads 0 _ rfl⟩

end BackendPatterns.Strategy
