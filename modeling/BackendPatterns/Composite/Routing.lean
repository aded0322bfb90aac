import Mathlib.Data.List.Basic
import BackendPatterns.Composite.Handler

/-! # The flattened tree

Depth first, a tree is a list of endpoints, each under the prefixes of the groups
above it. Dispatching is a first match in this list; where no prefix keeps its
endpoints from their own paths, not even the order matters. -/

namespace BackendPatterns.Composite
open BackendPatterns.Lib

theorem startsWith_iff {s prefix_ : Bytes} : startsWith s prefix_ = true ↔ prefix_ <+: s := by
  rw [startsWith, Bytes.substr_zero, List.prefix_iff_eq_take]
  simp only [ge_iff_le, Bool.and_eq_true, decide_eq_true_eq]
  constructor
  · intro h
    exact h.2.symm
  · intro h
    refine ⟨?_, h.symm⟩
    rw [h, List.length_take]
    exact Nat.min_le_right _ _

/-- An endpoint and the prefixes of the groups above it, from the root. -/
structure Route where
  prefixes : List Bytes
  endpoint : Endpoint

def Endpoint.Matches (e : Endpoint) (request : Request) : Prop :=
  e.method = request.method ∧ e.path = request.path

instance (e : Endpoint) (request : Request) : Decidable (e.Matches request) :=
  inferInstanceAs (Decidable (_ ∧ _))

def Route.Matches (r : Route) (request : Request) : Prop :=
  r.endpoint.Matches request ∧ ∀ p ∈ r.prefixes, p <+: request.path

instance (r : Route) (request : Request) : Decidable (r.Matches request) :=
  inferInstanceAs (Decidable (_ ∧ _))

mutual

/-- The endpoints of a tree that stands under some prefixes, in the order in which
children were added. -/
def Handler.flatten : Handler → List Bytes → List Route
  | .endpoint e, prefixes => [⟨prefixes, e⟩]
  | .group prefix_ children, prefixes => flattenAll children (prefixes ++ [prefix_])

def flattenAll : List Handler → List Bytes → List Route
  | [], _ => []
  | child :: children, prefixes => child.flatten prefixes ++ flattenAll children prefixes

end

/-- The first of the routes that takes a request. -/
def firstMatch (routes : List Route) (request : Request) : Option Endpoint :=
  (routes.find? fun r => r.Matches request).map Route.endpoint

/-- What a handler does when `e` is the endpoint that takes the request. -/
def respond (e : Option Endpoint) (response : Response) : Bool × Response :=
  match e with
  | some e => (true, ⟨200, e.body⟩)
  | none => (false, response)

variable {request : Request}

theorem endpoint_tryHandle (e : Endpoint) (response : Response) :
    e.tryHandle request response =
      respond (if e.Matches request then some e else none) response := by
  rw [Endpoint.tryHandle]
  by_cases h : e.Matches request
  · rw [if_pos h, if_neg (by rw [h.1, h.2]; simp)]
    rfl
  · rw [if_neg h, if_pos]
    · rfl
    · by_contra hnot
      push Not at hnot
      exact h ⟨hnot.1.symm, hnot.2.symm⟩

theorem firstMatch_append (routes routes' : List Route) :
    firstMatch (routes ++ routes') request =
      (firstMatch routes request).or (firstMatch routes' request) := by
  rw [firstMatch, List.find?_append, Option.map_or]
  rfl

mutual

/-- A route keeps the prefixes that its tree stands under. -/
theorem mem_flatten : ∀ {root : Handler} {prefixes : List Bytes} {r : Route},
    r ∈ root.flatten prefixes → ∀ p ∈ prefixes, p ∈ r.prefixes
  | .endpoint e, prefixes, r, h, p, hp => by
    rw [List.mem_singleton.mp h]
    exact hp
  | .group _ _, _, _, h, _, hp => mem_flattenAll h _ (List.mem_append_left _ hp)

theorem mem_flattenAll : ∀ {children : List Handler} {prefixes : List Bytes} {r : Route},
    r ∈ flattenAll children prefixes → ∀ p ∈ prefixes, p ∈ r.prefixes
  | [], _, _, h, _, _ => by cases h
  | child :: children, prefixes, r, h, p, hp => by
    obtain hchild | hrest := List.mem_append.mp h
    · exact mem_flatten hchild p hp
    · exact mem_flattenAll hrest p hp

end

/-- No route under a prefix that the path does not have takes the request. -/
theorem firstMatch_none {children : List Handler} {prefixes : List Bytes} {p : Bytes}
    (hp : p ∈ prefixes) (hnot : ¬ p <+: request.path) :
    firstMatch (flattenAll children prefixes) request = none := by
  rw [firstMatch, Option.map_eq_none_iff, List.find?_eq_none]
  intro r hr hmatch
  exact hnot ((of_decide_eq_true hmatch).2 p (mem_flattenAll hr p hp))

mutual

/-- Under prefixes that the path has, a tree takes a request as its routes do. -/
theorem tryHandle_eq : ∀ (root : Handler) {prefixes : List Bytes},
    (∀ p ∈ prefixes, p <+: request.path) → ∀ response : Response,
    root.tryHandle request response =
      respond (firstMatch (root.flatten prefixes) request) response
  | .endpoint e, prefixes, hp, response => by
    have hmatch : (⟨prefixes, e⟩ : Route).Matches request ↔ e.Matches request :=
      ⟨fun h => h.1, fun h => ⟨h, hp⟩⟩
    rw [Handler.tryHandle, endpoint_tryHandle, Handler.flatten, firstMatch]
    by_cases h : e.Matches request
    · simp [hmatch, h]
    · simp [hmatch, h]
  | .group prefix_ children, prefixes, hp, response => by
    rw [Handler.tryHandle, Handler.flatten]
    by_cases h : prefix_ <+: request.path
    · rw [if_pos (startsWith_iff.mpr h)]
      refine tryChildren_eq children (fun p hmem => ?_) response
      obtain hmem | hmem := List.mem_append.mp hmem
      · exact hp p hmem
      · rw [List.mem_singleton.mp hmem]
        exact h
    · rw [if_neg fun hs => h (startsWith_iff.mp hs),
        firstMatch_none (List.mem_append_right _ (List.mem_singleton_self _)) h]
      rfl

theorem tryChildren_eq : ∀ (children : List Handler) {prefixes : List Bytes},
    (∀ p ∈ prefixes, p <+: request.path) → ∀ response : Response,
    tryChildren children request response =
      respond (firstMatch (flattenAll children prefixes) request) response
  | [], _, _, _ => rfl
  | child :: children, prefixes, hp, response => by
    rw [tryChildren, flattenAll, firstMatch_append, tryHandle_eq child hp]
    cases firstMatch (child.flatten prefixes) request with
    | some e => rfl
    | none => exact tryChildren_eq children hp response

end

/-- A tree takes a request exactly when some route of the flattened tree does, and
answers with the first that does; otherwise it leaves the response as it was, and
dispatching answers that there is nothing. -/
theorem tryHandle_firstMatch (root : Handler) (request : Request) (response : Response) :
    ((root.tryHandle request response).1 = true ↔
      ∃ r ∈ root.flatten [], r.Matches request) ∧
    (∀ e, firstMatch (root.flatten []) request = some e →
      root.tryHandle request response = (true, ⟨200, e.body⟩)) ∧
    ((root.tryHandle request response).1 = false →
      (root.tryHandle request response).2 = response ∧
      dispatch root request = ⟨404, str "not found"⟩) := by
  have heq := fun response => @tryHandle_eq request root [] (by simp) response
  refine ⟨?_, ?_, ?_⟩
  · rw [heq]
    cases hm : firstMatch (root.flatten []) request with
    | some e =>
      obtain ⟨r, hr, -⟩ := Option.map_eq_some_iff.mp hm
      have hmatch := List.find?_some hr
      simp only [respond, true_iff]
      exact ⟨r, List.mem_of_find?_eq_some hr, of_decide_eq_true hmatch⟩
    | none =>
      rw [firstMatch, Option.map_eq_none_iff, List.find?_eq_none] at hm
      simp only [respond, Bool.false_eq_true, false_iff]
      intro hex
      obtain ⟨r, hr, hmatch⟩ := hex
      exact hm r hr (decide_eq_true hmatch)
  · intro e he
    rw [heq, he]
    rfl
  · intro hfalse
    rw [heq] at hfalse ⊢
    rw [dispatch, heq]
    cases hm : firstMatch (root.flatten []) request with
    | some e =>
      rw [hm] at hfalse
      cases hfalse
    | none => exact ⟨rfl, rfl⟩

end BackendPatterns.Composite
