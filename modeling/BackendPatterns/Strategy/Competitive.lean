import Mathlib.Algebra.Order.Ring.Int
import BackendPatterns.Lib.Makespan
import BackendPatterns.Strategy.LeastLoaded

/-! # Least loaded against every other strategy

A router with a strategy that only chooses one of the backends adds the work of a
request to it, and does nothing else to them. So the bound for greedy balancing
compares the least loaded strategy with all of them, also with one that knows the
requests to come. -/

namespace BackendPatterns.Strategy
open BackendPatterns.Lib BackendPatterns.Lib.Balance

variable {S : Type} {strategy : RoutingStrategy S} {s t : RequestRouter S} {requests : List Request}

theorem places_of_handleRequest {request : Request}
    (h : handleRequest strategy s request = some t) :
    Places request.simulatedWork (loads s.backends) (loads t.backends) := by
  obtain ⟨-, hget⟩ := handles_of_handleRequest h
  simp only [loads, List.map_set]
  exact .mk (by rw [List.getElem?_map, hget, Option.map_some])

theorem schedule_of_run (h : Machine.run (handleRequest strategy) s requests = some t) :
    Schedule (requests.map Request.simulatedWork) (loads s.backends) (loads t.backends) := by
  induction requests generalizing s with
  | nil =>
    cases h
    exact .nil
  | cons request requests ih =>
    obtain ⟨u, hu, h⟩ := Option.bind_eq_some_iff.mp h
    exact .cons (places_of_handleRequest hu) (ih h)

/-- When two routers handle the same requests from the same loads, the first one
by the least loaded strategy and the second by any, then no backend of the first
ends with more than `(2n - 1) / n` times the load of some backend of the second. -/
theorem leastLoaded_competitive {s' t' : RequestRouter Unit}
    (hsame : s'.backends = s.backends) (h0 : ∀ backend ∈ s.backends, 0 ≤ backend.inFlight)
    (hw : ∀ request ∈ requests, 0 ≤ request.simulatedWork)
    (hleast : Machine.run (handleRequest leastLoadedStrategy) s' requests = some t')
    (hany : Machine.run (handleRequest strategy) s requests = some t) :
    ∀ backend ∈ t'.backends, ∃ other ∈ t.backends,
      s.backends.length * backend.inFlight ≤ (2 * s.backends.length - 1) * other.inFlight := by
  intro backend hmem
  have hruns := runs_of_run hleast
  have hschedule := schedule_of_run hany
  rw [hsame] at hruns
  have hne : loads t.backends ≠ [] := by
    refine List.ne_nil_of_length_pos ?_
    rw [hschedule.length, ← hruns.schedule.length, loads, List.length_map]
    exact List.length_pos_of_mem hmem
  -- the backend of the other router with the largest load
  obtain ⟨other, hother, hlargest⟩ : ∃ other ∈ t.backends, ∀ b ∈ t.backends,
      b.inFlight ≤ other.inFlight := by
    obtain ⟨largest, hlargest⟩ : ∃ largest, (loads t.backends).max? = some largest :=
      Option.ne_none_iff_exists'.mp (mt List.max?_eq_none_iff.mp hne)
    obtain ⟨hmax, hle⟩ := List.max?_eq_some_iff.mp hlargest
    obtain ⟨other, hother, rfl⟩ := List.mem_map.mp hmax
    exact ⟨other, hother, fun b hb => hle _ (List.mem_map_of_mem hb)⟩
  refine ⟨other, hother, ?_⟩
  have hbound := hruns.competitive (b := other.inFlight) (x := backend.inFlight) hschedule ?_ ?_ ?_
    (List.mem_map_of_mem hmem)
  · simp only [loads, List.length_map, nsmul_eq_mul, Nat.cast_mul, Nat.cast_ofNat] at hbound
    rw [Int.sub_mul, Int.one_mul]
    omega
  · intro w hmemw
    obtain ⟨r, hr, rfl⟩ := List.mem_map.mp hmemw
    exact hw r hr
  · intro x hx
    obtain ⟨b, hb, rfl⟩ := List.mem_map.mp hx
    exact h0 b hb
  · intro y hy
    obtain ⟨b, hb, rfl⟩ := List.mem_map.mp hy
    exact hlargest b hb

/-- The bound is met: two idle backends and the works 1, 1 and 2. -/
example : (Machine.run (handleRequest leastLoadedStrategy)
    ⟨(), [⟨"api-a", 0⟩, ⟨"api-b", 0⟩], []⟩ [⟨101, 1⟩, ⟨102, 1⟩, ⟨103, 2⟩]).map
      (fun t => loads t.backends) = some [3, 1] := rfl

/-- The round robin strategy on the backends and requests of the example. -/
theorem leastLoaded_competitive_roundRobin : ∃ (t' : RequestRouter Unit) (t : RequestRouter UInt64),
    Machine.run (handleRequest leastLoadedStrategy) ⟨(), backends, []⟩
        [⟨101, 2⟩, ⟨102, 2⟩, ⟨103, 2⟩] = some t' ∧
      Machine.run (handleRequest roundRobinStrategy) ⟨0, backends, []⟩
        [⟨101, 2⟩, ⟨102, 2⟩, ⟨103, 2⟩] = some t ∧
      ∀ backend ∈ t'.backends, ∃ other ∈ t.backends,
        ((3 : Nat) : Int) * backend.inFlight ≤ (2 * ((3 : Nat) : Int) - 1) * other.inFlight := by
  have hleast : ∃ t', Machine.run (handleRequest leastLoadedStrategy) ⟨(), backends, []⟩
      [⟨101, 2⟩, ⟨102, 2⟩, ⟨103, 2⟩] = some t' := ⟨_, rfl⟩
  have hany : ∃ t, Machine.run (handleRequest roundRobinStrategy) ⟨0, backends, []⟩
      [⟨101, 2⟩, ⟨102, 2⟩, ⟨103, 2⟩] = some t := ⟨_, rfl⟩
  obtain ⟨t', hleast⟩ := hleast
  obtain ⟨t, hany⟩ := hany
  refine ⟨t', t, hleast, hany, ?_⟩
  exact leastLoaded_competitive (s := (⟨0, backends, []⟩ : RequestRouter UInt64)) rfl
    (by simp [backends]) (by simp) hleast hany

end BackendPatterns.Strategy
