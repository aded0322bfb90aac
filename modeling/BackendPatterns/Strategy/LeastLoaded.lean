import Mathlib.Algebra.Order.Group.Int
import BackendPatterns.Lib.Balance
import BackendPatterns.Strategy.Router

/-! # Routing to the least loaded backend

Each request goes to the first backend with the smallest load, so the loads stay
as close as they were, or as close as the largest request is big. -/

namespace BackendPatterns.Strategy
open BackendPatterns.Lib BackendPatterns.Lib.Balance

def loads (backends : List Backend) : List Int := backends.map Backend.inFlight

/-- The first backend with the smallest load gets `work` more, the others stay. -/
structure Assigns (work : Int) (backends backends' : List Backend) (i : Nat) (backend : Backend) :
    Prop where
  least : FirstMin Backend.inFlight backends i backend
  eq : backends' = backends.set i ⟨backend.name, backend.inFlight + work⟩

variable {s t : RequestRouter Unit} {request : Request} {requests : List Request}

theorem chooseBackend_firstMin {i : Nat} {backend : Backend}
    (h : leastLoadedStrategy.chooseBackend () s.backends = some (i, ()))
    (hget : s.backends[i]? = some backend) : FirstMin Backend.inFlight s.backends i backend := by
  have hne : s.backends ≠ [] := by
    rintro hnil
    rw [hnil] at hget
    cases hget
  obtain ⟨j, x, hmin, hfirst⟩ := minElement_firstMin Backend.inFlight hne
  simp only [leastLoadedStrategy, hmin, Option.map_some, Option.some.injEq, Prod.mk.injEq,
    and_true] at h
  subst h
  cases hfirst.get.symm.trans hget
  exact hfirst

theorem assigns_of_handleRequest (h : handleRequest leastLoadedStrategy s request = some t) :
    ∃ i backend, Assigns request.simulatedWork s.backends t.backends i backend := by
  obtain ⟨hchoose, hget⟩ := handles_of_handleRequest h
  exact ⟨_, _, chooseBackend_firstMin hchoose hget, rfl⟩

theorem Assigns.adds {work : Int} {backends backends' : List Backend} {i : Nat} {backend : Backend}
    (h : Assigns work backends backends' i backend) :
    Adds work (loads backends) (loads backends') := by
  have hget : (loads backends)[i]? = some backend.inFlight := by
    rw [loads, List.getElem?_map, h.least.get, Option.map_some]
  have hmin : ∀ load ∈ loads backends, backend.inFlight ≤ load := by
    intro load hload
    obtain ⟨b, hb, rfl⟩ := List.mem_map.mp hload
    exact h.least.le b hb
  have hset : loads backends' = (loads backends).set i (backend.inFlight + work) := by
    rw [h.eq, loads, List.map_set]
    rfl
  rw [hset]
  exact .mk hget hmin

theorem runs_of_run (h : Machine.run (handleRequest leastLoadedStrategy) s requests = some t) :
    Runs (requests.map Request.simulatedWork) (loads s.backends) (loads t.backends) := by
  induction requests generalizing s with
  | nil =>
    cases h
    exact .nil
  | cons request requests ih =>
    obtain ⟨u, hu, h⟩ := Option.bind_eq_some_iff.mp h
    obtain ⟨i, backend, hassigns⟩ := assigns_of_handleRequest hu
    exact .cons hassigns.adds (ih h)

/-- A request is handled unless its work overflows the load of the backend. -/
theorem handleRequest_isSome {i : Nat} {backend : Backend}
    (h : FirstMin Backend.inFlight s.backends i backend) :
    (handleRequest leastLoadedStrategy s request).isSome =
      (plusInt backend.inFlight request.simulatedWork).isSome := by
  have hne : s.backends ≠ [] := List.ne_nil_of_length_pos (Nat.zero_lt_of_lt h.lt_length)
  obtain ⟨j, x, hmin, hfirst⟩ := minElement_firstMin Backend.inFlight hne
  obtain ⟨rfl, rfl⟩ := h.unique hfirst
  simp [handleRequest, leastLoadedStrategy, hmin, h.get]

/-- In every run without overflow, each request goes to the first backend that is
least loaded at that moment, which changes nothing else; and after it the loads
are no further apart than at the start, or than the largest work so far. -/
theorem leastLoaded_balanced (hne : s.backends ≠ [])
    (hw : ∀ request ∈ requests, 0 ≤ request.simulatedWork)
    (hrun : Machine.run (handleRequest leastLoadedStrategy) s requests = some t)
    (before after : List Request) (request : Request)
    (hsplit : requests = before ++ request :: after) :
    ∃ u u', Machine.run (handleRequest leastLoadedStrategy) s before = some u ∧
      Machine.run (handleRequest leastLoadedStrategy) s (before ++ [request]) = some u' ∧
      (∃ i backend, Assigns request.simulatedWork u.backends u'.backends i backend) ∧
      spread (loads u'.backends) ≤
        ((before ++ [request]).map Request.simulatedWork).foldl max
          (spread (loads s.backends)) := by
  rw [hsplit, Machine.run_append] at hrun
  obtain ⟨u, hu, hrun⟩ := Option.bind_eq_some_iff.mp hrun
  obtain ⟨u', hu', -⟩ := Option.bind_eq_some_iff.mp hrun
  have hruns := runs_of_run (Machine.run_snoc hu hu')
  refine ⟨u, u', hu, Machine.run_snoc hu hu', assigns_of_handleRequest hu', ?_⟩
  have hloads : loads s.backends ≠ [] := mt List.map_eq_nil_iff.mp hne
  have hnonneg : ∀ w ∈ (before ++ [request]).map Request.simulatedWork, 0 ≤ w := by
    intro w hmem
    obtain ⟨r, hr, rfl⟩ := List.mem_map.mp hmem
    refine hw r ?_
    rw [hsplit, List.append_cons]
    exact List.mem_append_left _ hr
  exact (spread_le_iff (hruns.ne_nil hloads)).mpr
    (((spread_le_iff hloads).mp le_rfl).runs hnonneg hruns)

/-- The backends of the example program. -/
def backends : List Backend := [⟨"api-a", 2⟩, ⟨"api-b", 5⟩, ⟨"api-c", 1⟩]

theorem leastLoaded_balanced_backends : ∃ u u',
    Machine.run (handleRequest leastLoadedStrategy) ⟨(), backends, []⟩
        [⟨101, 2⟩, ⟨102, 2⟩] = some u ∧
      Machine.run (handleRequest leastLoadedStrategy) ⟨(), backends, []⟩
        ([⟨101, 2⟩, ⟨102, 2⟩] ++ [⟨103, 2⟩]) = some u' ∧
      (∃ i backend, Assigns 2 u.backends u'.backends i backend) ∧
      spread (loads u'.backends) ≤ ([2, 2, 2] : List Int).foldl max (spread (loads backends)) := by
  have hrun : ∃ t, Machine.run (handleRequest leastLoadedStrategy) ⟨(), backends, []⟩
      [⟨101, 2⟩, ⟨102, 2⟩, ⟨103, 2⟩] = some t := ⟨_, rfl⟩
  obtain ⟨t, hrun⟩ := hrun
  exact leastLoaded_balanced (by decide) (by decide) hrun [⟨101, 2⟩, ⟨102, 2⟩] [] ⟨103, 2⟩ rfl

end BackendPatterns.Strategy
