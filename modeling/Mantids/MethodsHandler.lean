/-
# Monolith methods and who may call them

`MethodsHandler` (`API_Monolith/methodshandler.cpp`) keeps the callable methods of
a monolith application.  A method is added once, with the roles and permissions it
requires; before each call `validateMethodRequirements` decides whether the caller's
session may run it, and reports what is missing.

* `MethodsRequirementsMap` is the pair of multimaps behind the decision, with
  `validateMethod` translated line by line (`methodsrequirements_map.cpp`);
* `Represents` is the invariant that ties a handler to the table of definitions it
  was built from, and `represents_build` shows that every run of `addMethod` keeps it;
* `Authorized` and `AuthorizationExact` state what the decision is for, and
  `authorizationExact_iff` says for which calls the code meets it.

The required roles are compared against the wrong set: `rolesLeft` is assigned to
itself and a held role is erased from `permissionsLeft`.
-/
import Mantids.Token

namespace Mantids

/-! ## The requirement multimaps -/

/-- `MethodsRequirements_Map`: two multimaps from a method name to a required name. -/
structure MethodsRequirementsMap where
  methodRequiredPermissions : Multiset (String × String) := 0
  methodRequiredRoles : Multiset (String × String) := 0

namespace MethodsRequirementsMap

/-- Both `addMethodRequired…` loops: one multimap entry for each name of the set. -/
def addRequired (mm : Multiset (String × String)) (methodName : String)
    (names : Finset String) : Multiset (String × String) :=
  mm + names.val.map (fun name => (methodName, name))

/-- Both `getMethodRequired…` loops: the set of names found by `equal_range`. -/
def getRequired (mm : Multiset (String × String)) (methodName : String) : Finset String :=
  ((mm.filter (fun entry => entry.1 = methodName)).map Prod.snd).toFinset

def addMethodRequiredPermissions (r : MethodsRequirementsMap) (methodName : String)
    (applicationPermissions : Finset String) : MethodsRequirementsMap :=
  { r with
    methodRequiredPermissions :=
      addRequired r.methodRequiredPermissions methodName applicationPermissions }

def addMethodRequiredRoles (r : MethodsRequirementsMap) (methodName : String)
    (applicationRoles : Finset String) : MethodsRequirementsMap :=
  { r with methodRequiredRoles := addRequired r.methodRequiredRoles methodName applicationRoles }

def getMethodRequiredPermissions (r : MethodsRequirementsMap) (methodName : String) :
    Finset String :=
  getRequired r.methodRequiredPermissions methodName

def getMethodRequiredRoles (r : MethodsRequirementsMap) (methodName : String) : Finset String :=
  getRequired r.methodRequiredRoles methodName

/-- The two loops of `validateMethod`: walk over `names` and erase the held ones
from `left`. -/
def eraseHeld (held : String → Bool) (names : List String) (left : Finset String) :
    Finset String :=
  names.foldl (fun left name => if held name then left.erase name else left) left

/-- `validateMethod`.  The two sets are in/out parameters of the source; here they
are taken and returned, after the verdict. -/
def validateMethod (r : MethodsRequirementsMap) (session : Option Session)
    (methodName : String) (rolesLeft permissionsLeft : Finset String) :
    Bool × Finset String × Finset String :=
  match session with
  | none => (false, rolesLeft, permissionsLeft)
  | some session =>
      let token := session.jwtAuthenticatedInfo
      if token.isAdmin then (true, ∅, ∅)
      else
        let requiredRoles := r.getMethodRequiredRoles methodName
        let requiredPermissions := r.getMethodRequiredPermissions methodName
        -- the source writes `rolesLeft = rolesLeft`: the parameter stays as it came
        let rolesLeft := rolesLeft
        let permissionsLeft := requiredPermissions
        let permissionsLeft :=
          eraseHeld token.hasPermission (Json.sortedNames requiredPermissions) permissionsLeft
        -- held roles are erased from the permissions, as the source does
        let permissionsLeft :=
          eraseHeld token.hasRole (Json.sortedNames requiredRoles) permissionsLeft
        (decide (rolesLeft = ∅ ∧ permissionsLeft = ∅), rolesLeft, permissionsLeft)

/-! ### What the loops leave -/

theorem mem_getRequired {mm : Multiset (String × String)} {methodName name : String} :
    name ∈ getRequired mm methodName ↔ (methodName, name) ∈ mm := by
  unfold getRequired
  rw [Multiset.mem_toFinset, Multiset.mem_map]
  constructor
  · rintro ⟨⟨m, n⟩, hmem, rfl⟩
    obtain ⟨hin, hm⟩ := Multiset.mem_filter.mp hmem
    simp only at hm
    subst hm
    exact hin
  · intro h
    exact ⟨(methodName, name), Multiset.mem_filter.mpr ⟨h, rfl⟩, rfl⟩

/-- Adding the requirements of a method extends its own set and no other one. -/
theorem getRequired_addRequired (mm : Multiset (String × String)) (methodName other : String)
    (names : Finset String) :
    getRequired (addRequired mm methodName names) other
      = if other = methodName then getRequired mm other ∪ names else getRequired mm other := by
  ext name
  by_cases hother : other = methodName
  · subst hother
    simp [mem_getRequired, addRequired]
  · simp [mem_getRequired, addRequired, hother, Ne.symm hother]

theorem getMethodRequiredPermissions_add (r : MethodsRequirementsMap)
    (methodName other : String) (permissions roles : Finset String) :
    ((r.addMethodRequiredPermissions methodName permissions).addMethodRequiredRoles methodName
        roles).getMethodRequiredPermissions other
      = if other = methodName then r.getMethodRequiredPermissions other ∪ permissions
        else r.getMethodRequiredPermissions other :=
  getRequired_addRequired _ _ _ _

theorem getMethodRequiredRoles_add (r : MethodsRequirementsMap)
    (methodName other : String) (permissions roles : Finset String) :
    ((r.addMethodRequiredPermissions methodName permissions).addMethodRequiredRoles methodName
        roles).getMethodRequiredRoles other
      = if other = methodName then r.getMethodRequiredRoles other ∪ roles
        else r.getMethodRequiredRoles other :=
  getRequired_addRequired _ _ _ _

/-- What is left after the loop: the names that are not both listed and held. -/
theorem mem_eraseHeld (held : String → Bool) (names : List String) (left : Finset String)
    (x : String) :
    x ∈ eraseHeld held names left ↔ x ∈ left ∧ ¬ (x ∈ names ∧ held x = true) := by
  induction names generalizing left with
  | nil => simp [eraseHeld]
  | cons name names ih =>
      have hcons : eraseHeld held (name :: names) left
          = eraseHeld held names (if held name then left.erase name else left) := rfl
      rw [hcons, ih]
      by_cases hx : x = name
      · subst hx
        by_cases hheld : held x = true <;> simp [hheld]
      · by_cases hheld : held name = true <;> simp [hheld, hx]

/-- The two sets `validateMethod` leaves for a session that is not admin: nothing
happens to the roles, and a held role takes its name out of the permissions. -/
theorem validateMethod_some (r : MethodsRequirementsMap) (session : Session)
    (methodName : String) (rolesLeft permissionsLeft : Finset String)
    (hadmin : session.jwtAuthenticatedInfo.isAdmin = false) :
    ∃ left : Finset String,
      r.validateMethod (some session) methodName rolesLeft permissionsLeft
        = (decide (rolesLeft = ∅ ∧ left = ∅), rolesLeft, left) ∧
      ∀ x, x ∈ left ↔ x ∈ r.getMethodRequiredPermissions methodName ∧
        session.jwtAuthenticatedInfo.hasPermission x = false ∧
        ¬ (x ∈ r.getMethodRequiredRoles methodName ∧
            session.jwtAuthenticatedInfo.hasRole x = true) := by
  refine ⟨_, by simp only [validateMethod, hadmin]; rfl, fun x => ?_⟩
  rw [mem_eraseHeld, mem_eraseHeld]
  simp only [Json.mem_sortedNames, not_and, Bool.not_eq_true]
  constructor
  · rintro ⟨⟨hreq, hperm⟩, hrole⟩
    exact ⟨hreq, hperm hreq, hrole⟩
  · rintro ⟨hreq, hperm, hrole⟩
    exact ⟨⟨hreq, fun _ => hperm⟩, hrole⟩

end MethodsRequirementsMap

/-! ## The methods handler -/

/-- `MonolithAPIMethod`: the function pointer with its context already bound. -/
structure MonolithAPIMethod where
  method : Option Session → Json → Json

/-- `MethodsHandler::MethodDefinition`. -/
structure MethodDefinition where
  method : MonolithAPIMethod
  methodName : String
  reqPermissions : Finset String := ∅
  reqRoles : Finset String := ∅
  doUsageUpdateLastSessionActivity : Bool := true
  isActiveSessionRequired : Bool := true

/-- `MethodsHandler::eMethodValidationCodes`. -/
inductive MethodValidationCode where
  | ok
  | methodNotFound
  | notAuthorized
  deriving DecidableEq, Repr

/-- `MethodsHandler`: its four tables. -/
structure MethodsHandler where
  methods : Finmap (fun _ : String => MonolithAPIMethod) := ∅
  methodRequireActiveSession : Finmap (fun _ : String => Bool) := ∅
  methodUpdateSessionLastActivityOnUsage : Finmap (fun _ : String => Bool) := ∅
  methodsPermissions : MethodsRequirementsMap := {}

namespace MethodsHandler

/-- `addMethod`: a name that is already there is refused. -/
def addMethod (h : MethodsHandler) (d : MethodDefinition) : Bool × MethodsHandler :=
  match h.methods.lookup d.methodName with
  | some _ => (false, h)
  | none =>
      (true,
        { methods := h.methods.insert d.methodName d.method
          methodsPermissions :=
            (h.methodsPermissions.addMethodRequiredPermissions d.methodName
              d.reqPermissions).addMethodRequiredRoles d.methodName d.reqRoles
          methodRequireActiveSession :=
            h.methodRequireActiveSession.insert d.methodName d.isActiveSessionRequired
          methodUpdateSessionLastActivityOnUsage :=
            h.methodUpdateSessionLastActivityOnUsage.insert d.methodName
              d.doUsageUpdateLastSessionActivity })

/-- `doesMethodRequireActiveSession`: a name that is not in the map reads as `false`. -/
def doesMethodRequireActiveSession (h : MethodsHandler) (methodName : String) : Bool :=
  (h.methodRequireActiveSession.lookup methodName).getD false

/-- `validateMethodRequirements`: the code, and the `reasons` object written on the
last branch. -/
def validateMethodRequirements (h : MethodsHandler) (session : Option Session)
    (methodName : String) (reasons : Json.Members) : MethodValidationCode × Json.Members :=
  match h.methods.lookup methodName with
  | none => (.methodNotFound, reasons)
  | some _ =>
      if h.doesMethodRequireActiveSession methodName && session.isNone then
        (.notAuthorized, reasons)
      else
        match h.methodsPermissions.validateMethod session methodName ∅ ∅ with
        | (true, _, _) => (.ok, reasons)
        | (false, rolesLeft, permissionsLeft) =>
            (.notAuthorized,
              (reasons.set "rolesLeft" (Json.setToJSON rolesLeft)).set "permissionsLeft"
                (Json.setToJSON permissionsLeft))

/-- The return of `invoke`, with the payload that the method gave back. -/
inductive InvokeResult where
  | success (payloadOut : Json)
  | methodNotFound
  /-- `session->updateLastActivity()` on a null session. -/
  | nullDereference

/-- `invoke`: the result, and the session behind the pointer. -/
def invoke (h : MethodsHandler) (session : Option Session) (methodName : String) (payload : Json)
    (now : ℤ) : InvokeResult × Option Session :=
  match h.methods.lookup methodName with
  | none => (.methodNotFound, session)
  | some m =>
      let payloadOut := m.method session payload
      if (h.methodUpdateSessionLastActivityOnUsage.lookup methodName).getD false then
        match session with
        | none => (.nullDereference, none)
        | some s => (.success payloadOut, some (s.updateLastActivity now))
      else (.success payloadOut, session)

/-- A handler after a run of `addMethod` calls. -/
def build (defs : List MethodDefinition) : MethodsHandler :=
  defs.foldl (fun h d => (h.addMethod d).2) {}

/-! ## The table a handler stands for -/

/-- The definition a run of `addMethod` calls registers under a name: the first one. -/
def registered (defs : List MethodDefinition) (methodName : String) : Option MethodDefinition :=
  defs.find? (fun d => d.methodName = methodName)

/-- The handler's four maps say what the table says. -/
structure Represents (h : MethodsHandler) (table : String → Option MethodDefinition) : Prop where
  methods : ∀ name, h.methods.lookup name = (table name).map (·.method)
  active : ∀ name, h.doesMethodRequireActiveSession name
    = ((table name).map (·.isActiveSessionRequired)).getD false
  permissions : ∀ name, h.methodsPermissions.getMethodRequiredPermissions name
    = ((table name).map (·.reqPermissions)).getD ∅
  roles : ∀ name, h.methodsPermissions.getMethodRequiredRoles name
    = ((table name).map (·.reqRoles)).getD ∅

/-- The table after one more definition: an old entry stays. -/
def addToTable (table : String → Option MethodDefinition) (d : MethodDefinition) :
    String → Option MethodDefinition :=
  fun name => (table name).or (if d.methodName = name then some d else none)

/-- One `addMethod` call adds one definition to the table. -/
theorem Represents.addMethod {h : MethodsHandler} {table : String → Option MethodDefinition}
    (hrep : Represents h table) (d : MethodDefinition) :
    Represents (h.addMethod d).2 (addToTable table d) := by
  have hlook := hrep.methods d.methodName
  cases htable : table d.methodName with
  | some old =>
      -- the name is taken: neither the handler nor the table changes
      rw [htable, Option.map_some] at hlook
      have hsame : (h.addMethod d).2 = h := by simp [MethodsHandler.addMethod, hlook]
      have htab : addToTable table d = table := by
        funext name
        by_cases hname : d.methodName = name
        · subst hname
          simp [addToTable, htable]
        · simp [addToTable, hname]
      rw [hsame, htab]
      exact hrep
  | none =>
      rw [htable, Option.map_none] at hlook
      have hperm := hrep.permissions d.methodName
      have hrole := hrep.roles d.methodName
      rw [htable] at hperm hrole
      have hself : addToTable table d d.methodName = some d := by simp [addToTable, htable]
      have hother : ∀ name, name ≠ d.methodName → addToTable table d name = table name := by
        intro name hname
        simp [addToTable, Ne.symm hname]
      simp only [MethodsHandler.addMethod, hlook]
      refine ⟨fun name => ?_, fun name => ?_, fun name => ?_, fun name => ?_⟩
      · by_cases hname : name = d.methodName
        · subst hname
          rw [hself]
          simp
        · rw [hother name hname, ← hrep.methods name, Finmap.lookup_insert_of_ne _ hname]
      · by_cases hname : name = d.methodName
        · subst hname
          rw [hself]
          simp [doesMethodRequireActiveSession]
        · rw [hother name hname, ← hrep.active name]
          simp only [doesMethodRequireActiveSession]
          rw [Finmap.lookup_insert_of_ne _ hname]
      · rw [MethodsRequirementsMap.getMethodRequiredPermissions_add]
        by_cases hname : name = d.methodName
        · subst hname
          rw [if_pos rfl, hself, hperm]
          simp
        · rw [if_neg hname, hother name hname, hrep.permissions name]
      · rw [MethodsRequirementsMap.getMethodRequiredRoles_add]
        by_cases hname : name = d.methodName
        · subst hname
          rw [if_pos rfl, hself, hrole]
          simp
        · rw [if_neg hname, hother name hname, hrep.roles name]

/-- Every run of `addMethod` calls represents the table of its first definitions. -/
theorem represents_build (defs : List MethodDefinition) :
    Represents (build defs) (registered defs) := by
  induction defs using List.reverseRecOn with
  | nil =>
      refine ⟨fun name => ?_, fun name => ?_, fun name => ?_, fun name => ?_⟩
      · simp [build, registered]
      · simp [build, registered, doesMethodRequireActiveSession]
      · rfl
      · rfl
  | append_singleton defs d ih =>
      have hbuild : build (defs ++ [d]) = ((build defs).addMethod d).2 := by
        simp [build, List.foldl_append]
      have htable : registered (defs ++ [d]) = addToTable (registered defs) d := by
        funext name
        by_cases hname : d.methodName = name <;>
          simp [registered, addToTable, List.find?_append, hname]
      rw [hbuild, htable]
      exact ih.addMethod d

/-! ## Verdicts, read off the table -/

/-- A name that no definition registers is not found. -/
theorem validate_of_unregistered {defs : List MethodDefinition} {methodName : String}
    (h : registered defs methodName = none) (session : Option Session)
    (reasons : Json.Members) :
    (build defs).validateMethodRequirements session methodName reasons
      = (.methodNotFound, reasons) := by
  have hlook := (represents_build defs).methods methodName
  rw [h, Option.map_none] at hlook
  simp [validateMethodRequirements, hlook]

/-- Without a session the call is always refused. -/
theorem validate_of_no_session {defs : List MethodDefinition} {methodName : String}
    {d : MethodDefinition} (h : registered defs methodName = some d) (reasons : Json.Members) :
    ((build defs).validateMethodRequirements none methodName reasons).1 = .notAuthorized := by
  have hlook := (represents_build defs).methods methodName
  rw [h, Option.map_some] at hlook
  unfold validateMethodRequirements
  rw [hlook]
  by_cases hactive : (build defs).doesMethodRequireActiveSession methodName = true
  · simp [hactive]
  · simp [hactive, MethodsRequirementsMap.validateMethod]

/-- An admin token passes every registered method. -/
theorem validate_of_admin {defs : List MethodDefinition} {methodName : String}
    {d : MethodDefinition} (h : registered defs methodName = some d) (s : Session)
    (hadmin : s.jwtAuthenticatedInfo.isAdmin = true) (reasons : Json.Members) :
    (build defs).validateMethodRequirements (some s) methodName reasons = (.ok, reasons) := by
  have hlook := (represents_build defs).methods methodName
  rw [h, Option.map_some] at hlook
  unfold validateMethodRequirements
  rw [hlook]
  simp [MethodsRequirementsMap.validateMethod, hadmin]

/-- For any other session the verdict depends on one set only: the required
permissions the token lacks, without the names of the required roles it holds. -/
theorem validate_of_session {defs : List MethodDefinition} {methodName : String}
    {d : MethodDefinition} (h : registered defs methodName = some d) (s : Session)
    (hadmin : s.jwtAuthenticatedInfo.isAdmin = false) (reasons : Json.Members) :
    ∃ left : Finset String,
      (∀ x, x ∈ left ↔ x ∈ d.reqPermissions ∧ s.jwtAuthenticatedInfo.hasPermission x = false ∧
        ¬ (x ∈ d.reqRoles ∧ s.jwtAuthenticatedInfo.hasRole x = true)) ∧
      (build defs).validateMethodRequirements (some s) methodName reasons
        = if left = ∅ then (.ok, reasons)
          else (.notAuthorized,
            (reasons.set "rolesLeft" (Json.setToJSON ∅)).set "permissionsLeft"
              (Json.setToJSON left)) := by
  have hrep := represents_build defs
  have hlook := hrep.methods methodName
  have hperm := hrep.permissions methodName
  have hrole := hrep.roles methodName
  rw [h, Option.map_some] at hlook hperm hrole
  rw [Option.getD_some] at hperm hrole
  obtain ⟨left, hval, hleft⟩ :=
    (build defs).methodsPermissions.validateMethod_some s methodName ∅ ∅ hadmin
  rw [hperm, hrole] at hleft
  refine ⟨left, hleft, ?_⟩
  unfold validateMethodRequirements
  rw [hlook]
  by_cases hempty : left = ∅ <;> simp [hval, hempty]

/-! ## Exactness of the decision -/

/-- Who may run a method: a session is there when the method asks for one, and its
token is admin or holds everything the method requires.  No session holds nothing. -/
def Authorized (session : Option Session) (d : MethodDefinition) : Prop :=
  (d.isActiveSessionRequired = true → session.isSome = true) ∧
  match session with
  | none => d.reqPermissions = ∅ ∧ d.reqRoles = ∅
  | some s =>
      s.jwtAuthenticatedInfo.isAdmin = true ∨
        ((∀ p ∈ d.reqPermissions, s.jwtAuthenticatedInfo.hasPermission p = true) ∧
          ∀ r ∈ d.reqRoles, s.jwtAuthenticatedInfo.hasRole r = true)

/-- The decision is exact at one call: it accepts the authorized callers and no
others, and a refused session is told exactly what its token lacks. -/
def AuthorizationExact (defs : List MethodDefinition) (session : Option Session)
    (methodName : String) (reasons : Json.Members) : Prop :=
  (((build defs).validateMethodRequirements session methodName reasons).1 = .ok ↔
    ∃ d, registered defs methodName = some d ∧ Authorized session d) ∧
  ∀ s d, session = some s → registered defs methodName = some d →
    ((build defs).validateMethodRequirements session methodName reasons).1 = .notAuthorized →
    ((build defs).validateMethodRequirements session methodName reasons).2.get "rolesLeft"
        = Json.setToJSON
            (d.reqRoles.filter (fun r => s.jwtAuthenticatedInfo.hasRole r = false)) ∧
      ((build defs).validateMethodRequirements session methodName reasons).2.get "permissionsLeft"
        = Json.setToJSON
            (d.reqPermissions.filter (fun p => s.jwtAuthenticatedInfo.hasPermission p = false))

/-- The calls on which the slip does not show.  Without a session the method asks
for one or requires something; a session that is not admin holds every required role,
and no required permission it lacks is named like a required role. -/
def RolesHarmless (defs : List MethodDefinition) (session : Option Session)
    (methodName : String) : Prop :=
  ∀ d, registered defs methodName = some d →
    match session with
    | none => d.isActiveSessionRequired = true ∨ d.reqPermissions ≠ ∅ ∨ d.reqRoles ≠ ∅
    | some s =>
        s.jwtAuthenticatedInfo.isAdmin = true ∨
          ((∀ r ∈ d.reqRoles, s.jwtAuthenticatedInfo.hasRole r = true) ∧
            ∀ p ∈ d.reqPermissions, s.jwtAuthenticatedInfo.hasPermission p = false →
              p ∉ d.reqRoles)

/-- The refused session of a method whose roles are harmless is told the truth, and
one whose roles are not is either let in or told something else. -/
theorem exact_session_iff {s : Session} {d : MethodDefinition} {left : Finset String}
    (hleft : ∀ x, x ∈ left ↔ x ∈ d.reqPermissions ∧
      s.jwtAuthenticatedInfo.hasPermission x = false ∧
      ¬ (x ∈ d.reqRoles ∧ s.jwtAuthenticatedInfo.hasRole x = true)) :
    ((left = ∅ ↔ (∀ p ∈ d.reqPermissions, s.jwtAuthenticatedInfo.hasPermission p = true) ∧
        ∀ r ∈ d.reqRoles, s.jwtAuthenticatedInfo.hasRole r = true) ∧
      (left ≠ ∅ →
        (∅ : Finset String)
            = d.reqRoles.filter (fun r => s.jwtAuthenticatedInfo.hasRole r = false) ∧
          left = d.reqPermissions.filter
            (fun p => s.jwtAuthenticatedInfo.hasPermission p = false))) ↔
      (∀ r ∈ d.reqRoles, s.jwtAuthenticatedInfo.hasRole r = true) ∧
        ∀ p ∈ d.reqPermissions, s.jwtAuthenticatedInfo.hasPermission p = false →
          p ∉ d.reqRoles := by
  constructor
  · rintro ⟨hok, hreport⟩
    by_cases hempty : left = ∅
    · obtain ⟨hperms, hroles⟩ := hok.mp hempty
      refine ⟨hroles, fun p hp hlack _ => ?_⟩
      rw [hperms p hp] at hlack
      cases hlack
    · obtain ⟨hnoroles, hmissing⟩ := hreport hempty
      have hroles : ∀ r ∈ d.reqRoles, s.jwtAuthenticatedInfo.hasRole r = true := by
        intro r hr
        have hnot : r ∉ d.reqRoles.filter (fun r => s.jwtAuthenticatedInfo.hasRole r = false) := by
          rw [← hnoroles]
          simp
        simpa [hr] using hnot
      refine ⟨hroles, fun p hp hlack hrole => ?_⟩
      -- a lacking permission is reported, so the loop over the roles kept its name
      have hin : p ∈ left := by
        rw [hmissing]
        simp [hp, hlack]
      exact ((hleft p).mp hin).2.2 ⟨hrole, hroles p hrole⟩
  · rintro ⟨hroles, hdisj⟩
    have hmissing : left = d.reqPermissions.filter
        (fun p => s.jwtAuthenticatedInfo.hasPermission p = false) := by
      ext x
      rw [hleft, Finset.mem_filter]
      constructor
      · rintro ⟨hreq, hlack, -⟩
        exact ⟨hreq, hlack⟩
      · rintro ⟨hreq, hlack⟩
        exact ⟨hreq, hlack, fun hrole => hdisj x hreq hlack hrole.1⟩
    refine ⟨?_, fun _ => ⟨?_, hmissing⟩⟩
    · rw [hmissing, Finset.filter_eq_empty_iff]
      constructor
      · intro h
        exact ⟨fun p hp => by simpa using h hp, hroles⟩
      · rintro ⟨hperms, -⟩ p hp
        simp [hperms p hp]
    · refine (Finset.filter_eq_empty_iff.mpr fun r hr => ?_).symm
      simp [hroles r hr]

/-- **Exactness of the authorization decision.**  For every table built by
`addMethod`, every session and every name, the decision is exact if and only if the
roles are harmless for that call. -/
theorem authorizationExact_iff (defs : List MethodDefinition) (session : Option Session)
    (methodName : String) (reasons : Json.Members) :
    AuthorizationExact defs session methodName reasons ↔
      RolesHarmless defs session methodName := by
  cases hreg : registered defs methodName with
  | none =>
      constructor
      · intro _ d hd
        rw [hreg] at hd
        cases hd
      · intro _
        refine ⟨?_, fun s d _ hd => by rw [hreg] at hd; cases hd⟩
        rw [validate_of_unregistered hreg]
        simp [hreg]
  | some d =>
      cases session with
      | none =>
          have hcode := validate_of_no_session hreg reasons
          unfold AuthorizationExact RolesHarmless
          rw [hcode]
          simp only [hreg, Option.some.injEq, forall_eq', exists_eq_left', Authorized]
          cases d.isActiveSessionRequired
          · simp
            tauto
          · simp
      | some s =>
          by_cases hadmin : s.jwtAuthenticatedInfo.isAdmin = true
          · unfold AuthorizationExact RolesHarmless
            rw [validate_of_admin hreg s hadmin]
            simp [hreg, Authorized, hadmin]
          · rw [Bool.not_eq_true] at hadmin
            obtain ⟨left, hleft, hval⟩ := validate_of_session hreg s hadmin reasons
            have hsess := exact_session_iff hleft
            unfold AuthorizationExact RolesHarmless
            rw [hval]
            simp only [hreg, Option.some.injEq, forall_eq', exists_eq_left', Authorized, hadmin,
              Bool.false_eq_true, false_or, Option.isSome_some, implies_true, true_and]
            rw [← hsess]
            by_cases hempty : left = ∅
            · simp [hempty]
            · have hne : ("rolesLeft" : String) ≠ "permissionsLeft" := by decide
              have hroles := Json.Members.get_set_of_ne
                (reasons.set "rolesLeft" (Json.setToJSON ∅)) (Json.setToJSON left) hne
              rw [Json.Members.get_set_self] at hroles
              simp only [hempty, if_false, hroles, Json.Members.get_set_self,
                Json.setToJSON_inj]
              simp [hempty]

/-- A method that only holders of the role `operator` should run. -/
def shutdownMethod : MethodDefinition where
  method := ⟨fun _ _ => Json.null⟩
  methodName := "shutdown"
  reqRoles := {"operator"}

/-- The method that requires the role `operator` runs for a token that holds no role. -/
theorem authorizationExact_fails_without_role :
    ¬ AuthorizationExact [shutdownMethod] (some (Session.ofToken {} 0)) "shutdown" [] := by
  rintro ⟨hok, -⟩
  have hreg : registered [shutdownMethod] "shutdown" = some shutdownMethod := rfl
  obtain ⟨left, hleft, hval⟩ := validate_of_session hreg (Session.ofToken {} 0) rfl []
  have hempty : left = ∅ := by
    ext x
    simp [hleft, shutdownMethod]
  rw [hval, if_pos hempty] at hok
  obtain ⟨d, hd, -, hauth⟩ := hok.mp rfl
  obtain rfl : _ = d := Option.some.inj hd
  rcases hauth with hadmin | ⟨-, hroles⟩
  · revert hadmin
    decide
  · have hrole := hroles "operator" (by simp [shutdownMethod])
    revert hrole
    decide

end MethodsHandler

end Mantids
