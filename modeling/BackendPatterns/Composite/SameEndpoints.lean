import Mathlib.Data.List.Find
import BackendPatterns.Composite.Routing

/-! # The shape of the tree does not show

A tree in which every endpoint is reachable and no two collide is, to its
clients, the set of its endpoints. An endpoint that some group above it hides
never answers. -/

namespace BackendPatterns.Composite
open BackendPatterns.Lib

/-- The endpoints of a tree. -/
def Handler.endpoints (root : Handler) : List Endpoint := (root.flatten []).map Route.endpoint

/-- Two endpoints take different requests. -/
def Endpoint.Apart (e e' : Endpoint) : Prop := ¬ (e.method = e'.method ∧ e.path = e'.path)

instance : DecidableRel Endpoint.Apart := fun _ _ => inferInstanceAs (Decidable (¬ _))

structure WellFormed (root : Handler) : Prop where
  reachable : ∀ r ∈ root.flatten [], ∀ p ∈ r.prefixes, p <+: r.endpoint.path
  distinct : root.endpoints.Pairwise Endpoint.Apart

variable {root : Handler} {request : Request}

theorem dispatch_eq (root : Handler) (request : Request) :
    dispatch root request = match firstMatch (root.flatten []) request with
      | some e => ⟨200, e.body⟩
      | none => ⟨404, str "not found"⟩ := by
  have htry := @tryHandle_eq request root [] (by simp) .init
  rw [dispatch, htry]
  cases firstMatch (root.flatten []) request <;> rfl

/-- Where all endpoints are reachable, the first match looks at no prefix. -/
theorem firstMatch_reachable {routes : List Route}
    (h : ∀ r ∈ routes, ∀ p ∈ r.prefixes, p <+: r.endpoint.path) :
    firstMatch routes request =
      (routes.map Route.endpoint).find? fun e => e.Matches request := by
  have hmatch : ∀ r ∈ routes, (r.Matches request ↔ r.endpoint.Matches request) := by
    intro r hr
    refine ⟨fun hm => hm.1, fun hm => ⟨hm, fun p hp => ?_⟩⟩
    rw [← hm.2]
    exact h r hr p hp
  rw [firstMatch, List.find?_map]
  congr 1
  exact List.find?_congr fun r hr => by simp [hmatch r hr]

/-- Of endpoints that are apart, the one that is found is the one that matches. -/
theorem find_iff {es : List Endpoint} (h : es.Pairwise Endpoint.Apart) (e : Endpoint) :
    es.find? (fun e => e.Matches request) = some e ↔ e ∈ es ∧ e.Matches request := by
  constructor
  · intro hfind
    have hmatch := List.find?_some hfind
    exact ⟨List.mem_of_find?_eq_some hfind, of_decide_eq_true hmatch⟩
  · intro hmem
    obtain ⟨hmem, hmatch⟩ := hmem
    induction es with
    | nil => cases hmem
    | cons a es ih =>
      obtain ⟨hapart, hrest⟩ := List.pairwise_cons.mp h
      obtain heq | hmem := List.mem_cons.mp hmem
      · subst heq
        exact List.find?_cons_of_pos (decide_eq_true hmatch)
      · have hnot : ¬ a.Matches request := by
          intro ha
          exact hapart e hmem ⟨ha.1.trans hmatch.1.symm, ha.2.trans hmatch.2.symm⟩
        rw [List.find?_cons_of_neg (by simpa using hnot)]
        exact ih hrest hmem

theorem WellFormed.firstMatch_iff (h : WellFormed root) (e : Endpoint) :
    firstMatch (root.flatten []) request = some e ↔ e ∈ root.endpoints ∧ e.Matches request := by
  rw [firstMatch_reachable h.reachable]
  exact find_iff h.distinct e

/-! ## Positions in a tree -/

/-- A tree with one place left open. -/
inductive Context
  | hole
  | group (prefix_ : Bytes) (before : List Handler) (inner : Context) (after : List Handler)

/-- Put a handler in the open place. -/
def Context.fill : Context → Handler → Handler
  | .hole, h => h
  | .group prefix_ before inner after, h => .group prefix_ (before ++ inner.fill h :: after)

/-- The prefixes of the groups above the open place, from the root. -/
def Context.prefixes : Context → List Bytes
  | .hole => []
  | .group prefix_ _ inner _ => prefix_ :: inner.prefixes

theorem flattenAll_append (children children' : List Handler) (prefixes : List Bytes) :
    flattenAll (children ++ children') prefixes =
      flattenAll children prefixes ++ flattenAll children' prefixes := by
  induction children with
  | nil => rfl
  | cons child children ih => simp only [List.cons_append, flattenAll, ih, List.append_assoc]

/-- The routes of a filled tree: those of the handler, between those around it. -/
theorem flatten_fill (c : Context) (prefixes : List Bytes) :
    ∃ before after, ∀ h : Handler, (c.fill h).flatten prefixes =
      before ++ h.flatten (prefixes ++ c.prefixes) ++ after := by
  induction c generalizing prefixes with
  | hole => exact ⟨[], [], fun h => by simp [Context.fill, Context.prefixes]⟩
  | group prefix_ before inner after ih =>
    obtain ⟨before', after', hinner⟩ := ih (prefixes ++ [prefix_])
    refine ⟨flattenAll before (prefixes ++ [prefix_]) ++ before',
      after' ++ flattenAll after (prefixes ++ [prefix_]), fun h => ?_⟩
    simp only [Context.fill, Context.prefixes, Handler.flatten, flattenAll_append, flattenAll,
      hinner, List.append_assoc, List.cons_append, List.nil_append]

mutual

/-- Every route of a tree is that of an endpoint in some open place. -/
theorem exists_context : ∀ {root : Handler} {prefixes : List Bytes} {r : Route},
    r ∈ root.flatten prefixes →
    ∃ c : Context, root = c.fill (.endpoint r.endpoint) ∧ r.prefixes = prefixes ++ c.prefixes
  | .endpoint e, prefixes, r, hr => by
    rw [List.mem_singleton.mp hr]
    exact ⟨.hole, rfl, (List.append_nil prefixes).symm⟩
  | .group prefix_ children, prefixes, r, hr => by
    obtain ⟨before, after, c, hchildren, hprefixes⟩ := exists_context_children hr
    refine ⟨.group prefix_ before c after, ?_, ?_⟩
    · rw [hchildren]
      rfl
    · rw [hprefixes, List.append_assoc]
      rfl

theorem exists_context_children : ∀ {children : List Handler} {prefixes : List Bytes} {r : Route},
    r ∈ flattenAll children prefixes →
    ∃ (before after : List Handler) (c : Context),
      children = before ++ c.fill (.endpoint r.endpoint) :: after ∧
        r.prefixes = prefixes ++ c.prefixes
  | [], _, _, hr => by cases hr
  | child :: children, prefixes, r, hr => by
    obtain hchild | hrest := List.mem_append.mp hr
    · obtain ⟨c, hc, hprefixes⟩ := exists_context hchild
      exact ⟨[], children, c, by rw [hc]; rfl, hprefixes⟩
    · obtain ⟨before, after, c, hc, hprefixes⟩ := exists_context_children hrest
      exact ⟨child :: before, after, c, by rw [hc]; rfl, hprefixes⟩

end

/-- A hidden endpoint takes no request. -/
theorem firstMatch_hidden {e : Endpoint} {prefixes : List Bytes} {p : Bytes} (hp : p ∈ prefixes)
    (hnot : ¬ p <+: e.path) : firstMatch [⟨prefixes, e⟩] request = none := by
  have hmatch : ¬ (⟨prefixes, e⟩ : Route).Matches request := by
    intro h
    refine hnot ?_
    rw [h.1.2]
    exact h.2 p hp
  simp [firstMatch, hmatch]

/-- Well-formed trees with the same endpoints answer every request alike; and with
an endpoint under a prefix that its path does not have, any tree answers every
request as it does with nothing in the endpoint's place. Every route of a tree has such
a place. -/
theorem dispatch_depends_on_endpoints :
    (∀ root root', WellFormed root → WellFormed root' →
      (∀ e, e ∈ root.endpoints ↔ e ∈ root'.endpoints) →
      ∀ request, dispatch root request = dispatch root' request) ∧
    (∀ (c : Context) (e : Endpoint), (∃ p ∈ c.prefixes, ¬ p <+: e.path) →
      ∀ request, dispatch (c.fill (.endpoint e)) request =
        dispatch (c.fill (.group [] [])) request) ∧
    ∀ root, ∀ r ∈ Handler.flatten root [], ∃ c : Context,
      root = c.fill (.endpoint r.endpoint) ∧ c.prefixes = r.prefixes := by
  refine ⟨?_, ?_, ?_⟩
  · intro root root' h h' hsame request
    have hfirst : firstMatch (root.flatten []) request = firstMatch (root'.flatten []) request := by
      refine Option.ext fun e => ?_
      rw [h.firstMatch_iff, h'.firstMatch_iff, hsame]
    rw [dispatch_eq, dispatch_eq, hfirst]
  · intro c e hhidden request
    obtain ⟨p, hp, hnot⟩ := hhidden
    obtain ⟨before, after, hfill⟩ := flatten_fill c []
    have hnone := @firstMatch_hidden request e ([] ++ c.prefixes) p hp hnot
    rw [dispatch_eq, dispatch_eq, hfill, hfill]
    simp only [Handler.flatten, flattenAll, firstMatch_append, hnone, Option.or_none,
      List.append_nil]
  · intro root r hr
    obtain ⟨c, hroot, hprefixes⟩ := exists_context hr
    exact ⟨c, hroot, hprefixes.symm⟩

def getUsers : Endpoint := ⟨str "GET", str "/api/users", str "users"⟩

def getHealth : Endpoint := ⟨str "GET", str "/api/health", str "ok"⟩

/-- The same two endpoints under one group, and under groups of their own. -/
def together : Handler :=
  ((Handler.group (str "/api") []).add (.endpoint getUsers)).add (.endpoint getHealth)

def apart : Handler :=
  .group [] [.group (str "/") [.group (str "/api/h") [.endpoint getHealth]], .endpoint getUsers]

theorem dispatch_depends_on_endpoints_nested :
    (∀ request, dispatch together request = dispatch apart request) ∧
    ∀ request, dispatch (.group (str "/v2") [.endpoint getUsers]) request =
      dispatch (.group (str "/v2") [.group [] []]) request := by
  obtain ⟨hsame, hhidden, -⟩ := dispatch_depends_on_endpoints
  refine ⟨hsame together apart ⟨by decide, by decide⟩ ⟨by decide, by decide⟩ fun e => ?_,
    hhidden (.group (str "/v2") [] .hole []) getUsers ⟨str "/v2", by decide, by decide⟩⟩
  have hboth : together.endpoints = [getUsers, getHealth] ∧
      apart.endpoints = [getHealth, getUsers] := by decide
  rw [hboth.1, hboth.2]
  simp only [List.mem_cons, List.not_mem_nil, or_false]
  exact or_comm

end BackendPatterns.Composite
