import Mathlib.Data.List.Induction
import BackendPatterns.Lib.Bytes
import BackendPatterns.Lib.Intern

/-! # Shared roles

The factory keeps a `shared_ptr` to every role it has made, so none of them is ever
destroyed. User contexts refer to the same objects. -/

namespace BackendPatterns.Flyweight
open BackendPatterns.Lib

structure RoleFlyweight where
  name : Bytes
  permissions : List Bytes
  deriving DecidableEq

def RoleFlyweight.hasPermission (role : RoleFlyweight) (perm : Bytes) : Bool :=
  decide (perm ∈ role.permissions)

/-- A `shared_ptr`: the place of the object in the order in which they were made. -/
abbrev RolePtr := Nat

def makeShared (objects : List RoleFlyweight) (role : RoleFlyweight) :
    RolePtr × List RoleFlyweight := (objects.length, objects ++ [role])

structure RoleFactory where
  roles : AList fun _ : Bytes => RolePtr

/-- The factory and all objects. -/
structure State where
  factory : RoleFactory
  objects : List RoleFlyweight

def start : State := ⟨⟨∅⟩, []⟩

namespace State

def createRole (s : State) (roleName : Bytes) : RolePtr × State :=
  let make (role : RoleFlyweight) : RolePtr × State :=
    let (ptr, objects) := makeShared s.objects role
    (ptr, { s with objects })
  if roleName = str "admin" then
    make ⟨str "admin", [str "read", str "write", str "delete", str "admin"]⟩
  else if roleName = str "editor" then make ⟨str "editor", [str "read", str "write"]⟩
  else if roleName = str "viewer" then make ⟨str "viewer", [str "read"]⟩
  else make ⟨roleName, []⟩

def getRole (s : State) (roleName : Bytes) : RolePtr × State :=
  match s.factory.roles.lookup roleName with
  | some ptr => (ptr, s)
  | none =>
    let (role, s) := s.createRole roleName
    (role, { s with factory := ⟨s.factory.roles.insert roleName role⟩ })

def sharedRoleCount (s : State) : Nat := s.factory.roles.keys.length

end State

structure UserContext where
  userId : Bytes
  role : RolePtr

/-- It is `none` where there is no object. -/
def UserContext.can (user : UserContext) (s : State) (permission : Bytes) : Option Bool :=
  s.objects[user.role]?.map fun role => role.hasPermission permission

/-- The state after requests for these roles. -/
def after (roleNames : List Bytes) : State :=
  roleNames.foldl (fun s roleName => (s.getRole roleName).2) start

/-! ## What a role is -/

def permissionsOf (roleName : Bytes) : List Bytes :=
  if roleName = str "admin" then [str "read", str "write", str "delete", str "admin"]
  else if roleName = str "editor" then [str "read", str "write"]
  else if roleName = str "viewer" then [str "read"]
  else []

def roleOf (roleName : Bytes) : RoleFlyweight := ⟨roleName, permissionsOf roleName⟩

/-- The names that have permissions. -/
def knownRoles : List Bytes := [str "admin", str "editor", str "viewer"]

variable {s : State} {roleName : Bytes} {ptr : RolePtr}

theorem permissionsOf_unknown (h : roleName ∉ knownRoles) : permissionsOf roleName = [] := by
  simp only [knownRoles, List.mem_cons, List.not_mem_nil, or_false, not_or] at h
  obtain ⟨hadmin, heditor, hviewer⟩ := h
  rw [permissionsOf, if_neg hadmin, if_neg heditor, if_neg hviewer]

/-- Whatever branch it takes, the new object has the name that was asked for. -/
theorem createRole_eq (s : State) (roleName : Bytes) :
    s.createRole roleName = (s.objects.length, ⟨s.factory, s.objects ++ [roleOf roleName]⟩) := by
  unfold State.createRole roleOf permissionsOf
  by_cases hadmin : roleName = str "admin"
  · rw [if_pos hadmin, if_pos hadmin, hadmin]
    rfl
  · rw [if_neg hadmin, if_neg hadmin]
    by_cases heditor : roleName = str "editor"
    · rw [if_pos heditor, if_pos heditor, heditor]
      rfl
    · rw [if_neg heditor, if_neg heditor]
      by_cases hviewer : roleName = str "viewer"
      · rw [if_pos hviewer, if_pos hviewer, hviewer]
        rfl
      · rw [if_neg hviewer, if_neg hviewer]
        rfl

theorem getRole_hit (h : s.factory.roles.lookup roleName = some ptr) :
    s.getRole roleName = (ptr, s) := by
  rw [State.getRole, h]

theorem getRole_miss (h : s.factory.roles.lookup roleName = none) :
    s.getRole roleName = (s.objects.length,
      ⟨⟨s.factory.roles.insert roleName s.objects.length⟩, s.objects ++ [roleOf roleName]⟩) := by
  rw [State.getRole, h]
  simp only [createRole_eq]

/-! ## Runs -/

/-- What is in the table of a state. -/
abbrev Shares (roleNames : List Bytes) (s : State) : Prop :=
  Interns roleOf roleNames s.factory.roles s.objects

/-- The roles of a state are roles of a later one. -/
abbrev Keeps (s t : State) : Prop := Extends s.factory.roles t.factory.roles s.objects t.objects

/-- A request returns the object that the table has afterwards. -/
structure Gets (roleNames : List Bytes) (s : State) (roleName : Bytes) (r : RolePtr × State) :
    Prop where
  shares : Shares (roleNames ++ [roleName]) r.2
  keeps : Keeps s r.2
  found : r.2.factory.roles.lookup roleName = some r.1

theorem gets_getRole {roleNames : List Bytes} (h : Shares roleNames s) (roleName : Bytes) :
    Gets roleNames s roleName (s.getRole roleName) := by
  cases hk : s.factory.roles.lookup roleName with
  | some ptr =>
    rw [getRole_hit hk]
    exact ⟨h.hit hk, .refl, hk⟩
  | none =>
    rw [getRole_miss hk]
    exact ⟨h.miss roleName, extends_miss hk _, AList.lookup_insert _⟩

theorem after_snoc (roleNames : List Bytes) (roleName : Bytes) :
    after (roleNames ++ [roleName]) = ((after roleNames).getRole roleName).2 := by
  rw [after, List.foldl_append]
  rfl

theorem shares_after (roleNames : List Bytes) : Shares roleNames (after roleNames) := by
  induction roleNames using List.reverseRecOn with
  | nil => exact .empty
  | append_singleton roleNames roleName ih =>
    rw [after_snoc]
    exact (gets_getRole ih roleName).shares

theorem keeps_after (roleNames later : List Bytes) :
    Keeps (after roleNames) (after (roleNames ++ later)) := by
  induction later using List.reverseRecOn with
  | nil =>
    rw [List.append_nil]
    exact .refl
  | append_singleton later roleName ih =>
    rw [← List.append_assoc, after_snoc]
    exact ih.trans (gets_getRole (shares_after _) roleName).keeps

/-- What a request has returned is in the table from then on. -/
theorem lookup_after (before later : List Bytes) (roleName : Bytes) :
    (after (before ++ roleName :: later)).factory.roles.lookup roleName =
      some ((after before).getRole roleName).1 := by
  rw [List.append_cons]
  refine (keeps_after (before ++ [roleName]) later).table _ _ ?_
  rw [after_snoc]
  exact (gets_getRole (shares_after before) roleName).found

/-- The object a request has returned is the role of that name from then on. -/
theorem object_after (before later : List Bytes) (roleName : Bytes) :
    (after (before ++ roleName :: later)).objects[((after before).getRole roleName).1]? =
      some (roleOf roleName) :=
  (shares_after _).made _ _ (lookup_after before later roleName)

theorem can_after (before later : List Bytes) (roleName userId permission : Bytes) :
    UserContext.can ⟨userId, ((after before).getRole roleName).1⟩
        (after (before ++ roleName :: later)) permission =
      some (decide (permission ∈ permissionsOf roleName)) := by
  rw [UserContext.can, object_after]
  rfl

/-- Any requests for roles: two return the same object if and only if they were for
the same name; an object has the name it was requested by and keeps it; there are as
many shared roles as names were requested; and a role permits what its name stands for,
whatever the other requests are, which is nothing for an unknown name. -/
theorem roles_interned :
    (∀ (before between : List Bytes) (roleName roleName' : Bytes),
      ((after before).getRole roleName).1 =
          ((after (before ++ roleName :: between)).getRole roleName').1 ↔
        roleName = roleName') ∧
    (∀ (before later : List Bytes) (roleName : Bytes), ∃ role,
      (after (before ++ roleName :: later)).objects[((after before).getRole roleName).1]? =
        some role ∧ role.name = roleName) ∧
    (∀ roleNames, (after roleNames).sharedRoleCount = roleNames.dedup.length) ∧
    (∀ (roleName permission : Bytes), ∃ allowed : Bool,
      (allowed = true ↔ permission ∈ permissionsOf roleName) ∧
      (roleName ∉ knownRoles → allowed = false) ∧
      ∀ (before later : List Bytes) (userId : Bytes),
        UserContext.can ⟨userId, ((after before).getRole roleName).1⟩
          (after (before ++ roleName :: later)) permission = some allowed) := by
  refine ⟨?_, ?_, fun roleNames => (shares_after roleNames).length_keys, ?_⟩
  · intro before between roleName roleName'
    have hfirst := lookup_after before (between ++ [roleName']) roleName
    have hsecond := lookup_after (before ++ roleName :: between) [] roleName'
    have hcons : before ++ roleName :: (between ++ [roleName']) =
        before ++ roleName :: between ++ [roleName'] := by
      rw [List.append_assoc, List.cons_append]
    rw [hcons] at hfirst
    constructor
    · intro heq
      rw [heq] at hfirst
      exact (shares_after _).unique _ _ _ hfirst hsecond
    · rintro rfl
      exact Option.some.inj (hfirst.symm.trans hsecond)
  · intro before later roleName
    exact ⟨_, object_after before later roleName, rfl⟩
  · intro roleName permission
    refine ⟨decide (permission ∈ permissionsOf roleName), decide_eq_true_iff, fun hunknown => ?_,
      fun before later userId => can_after before later roleName userId permission⟩
    rw [permissionsOf_unknown hunknown]
    exact decide_eq_false List.not_mem_nil

end BackendPatterns.Flyweight
