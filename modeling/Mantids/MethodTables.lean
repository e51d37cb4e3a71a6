/-
# Queries and the tables of the methods

`validateMethodRequirements`, `doesMethodRequireActiveSession` and `invoke` of the monolith handler
look names up with `operator[]`, which inserts a name that is missing.  Here they return the handler
they leave.

* `index` — the look-up, and the map after it;
* `SameKeys.validateMethodRequirements_eq` — the answer is that of the function that leaves the
  tables out;
* `SameKeys` — the tables of a built handler know the same names, so that a look-up after `find`
  inserts nothing;
* `Querying.step` — a run of queries, where `invoke` asks for an accepted validation before it;
* `queries_change_nothing_iff` — the tables stay as they are, and no null session is used, exactly
  if `doesMethodRequireActiveSession` is asked for registered names only.
-/
import Mantids.MethodsHandler
import Mantids.Lib.Run

namespace Mantids

open Run

/-- `operator[]` of a `std::map`: a missing key is inserted with the default of its type. -/
def index {β : Type*} (m : Finmap (fun _ : String => β)) (key : String) (default : β) :
    β × Finmap (fun _ : String => β) :=
  match m.lookup key with
  | some value => (value, m)
  | none => (default, m.insert key default)

theorem index_of_mem {β : Type*} {m : Finmap (fun _ : String => β)} {key : String} (default : β)
    (h : key ∈ m) : index m key default = ((m.lookup key).getD default, m) := by
  obtain ⟨value, hvalue⟩ := Finmap.mem_iff.mp h
  simp only [index, hvalue, Option.getD_some]

/-- A look-up leaves the map alone exactly if the key is there. -/
theorem index_snd_eq_iff {β : Type*} (m : Finmap (fun _ : String => β)) (key : String)
    (default : β) : (index m key default).2 = m ↔ key ∈ m := by
  constructor
  · intro hsame
    rcases h : m.lookup key with _ | value
    · simp only [index, h] at hsame
      rw [← hsame]
      exact Finmap.mem_insert.mpr (Or.inl rfl)
    · exact Finmap.mem_of_lookup_eq_some h
  · intro h
    rw [index_of_mem default h]

namespace MethodsHandler

/-! ## The queries, with the handler they leave -/

namespace Indexing

def doesMethodRequireActiveSession (h : MethodsHandler) (methodName : String) :
    Bool × MethodsHandler :=
  let (required, active) := index h.methodRequireActiveSession methodName false
  (required, { h with methodRequireActiveSession := active })

def validateMethodRequirements (h : MethodsHandler) (session : Option Session)
    (methodName : String) (reasons : Json.Members) :
    (MethodValidationCode × Json.Members) × MethodsHandler :=
  match h.methods.lookup methodName with
  | none => ((.methodNotFound, reasons), h)
  | some _ =>
    let (required, active) := index h.methodRequireActiveSession methodName false
    let h := { h with methodRequireActiveSession := active }
    if required && session.isNone then ((.notAuthorized, reasons), h)
    else
      match h.methodsPermissions.validateMethod session methodName ∅ ∅ with
      | (true, _, _) => ((.ok, reasons), h)
      | (false, rolesLeft, permissionsLeft) =>
        ((.notAuthorized,
          (reasons.set "rolesLeft" (Json.setToJSON rolesLeft)).set "permissionsLeft"
            (Json.setToJSON permissionsLeft)), h)

def invoke (h : MethodsHandler) (session : Option Session) (methodName : String) (payload : Json)
    (now : ℤ) : (InvokeResult × Option Session) × MethodsHandler :=
  match h.methods.lookup methodName with
  | none => ((.methodNotFound, session), h)
  | some m =>
    -- `m_methods[methodName]` finds again what `find` has found
    let payloadOut := m.method session payload
    let (updates, update) := index h.methodUpdateSessionLastActivityOnUsage methodName false
    let h := { h with methodUpdateSessionLastActivityOnUsage := update }
    if updates then
      match session with
      | none => ((.nullDereference, none), h)
      | some s => ((.success payloadOut, some (s.updateLastActivity now)), h)
    else ((.success payloadOut, session), h)

end Indexing

/-! ## Names that all tables know -/

/-- Every method has its entry in the two tables of flags. -/
structure SameKeys (h : MethodsHandler) : Prop where
  active : ∀ name, name ∈ h.methodRequireActiveSession ↔ name ∈ h.methods
  update : ∀ name, name ∈ h.methodUpdateSessionLastActivityOnUsage ↔ name ∈ h.methods

theorem SameKeys.addMethod {h : MethodsHandler} (hkeys : h.SameKeys) (d : MethodDefinition) :
    (h.addMethod d).2.SameKeys := by
  unfold MethodsHandler.addMethod
  split
  · exact hkeys
  · refine ⟨fun name => ?_, fun name => ?_⟩
    · rw [Finmap.mem_insert, Finmap.mem_insert, hkeys.active]
    · rw [Finmap.mem_insert, Finmap.mem_insert, hkeys.update]

theorem sameKeys_build (defs : List MethodDefinition) : (build defs).SameKeys := by
  induction defs using List.reverseRecOn with
  | nil =>
      have hempty : ∀ {β : Type} (name : String), ¬ name ∈ (∅ : Finmap (fun _ : String => β)) :=
        fun name => Finmap.notMem_empty
      exact ⟨fun name => iff_of_false (hempty name) (hempty name),
        fun name => iff_of_false (hempty name) (hempty name)⟩
  | append_singleton defs d ih =>
      have hbuild : build (defs ++ [d]) = ((build defs).addMethod d).2 := by
        simp [build, List.foldl_append]
      rw [hbuild]
      exact ih.addMethod d

/-- The tables of a built handler know the registered names. -/
theorem mem_methods_build (defs : List MethodDefinition) (name : String) :
    name ∈ (build defs).methods ↔ registered defs name ≠ none := by
  rw [ne_eq, ← not_iff_not, not_not, ← Finmap.lookup_eq_none, (represents_build defs).methods,
    Option.map_eq_none_iff]

/-! ## What a query leaves -/

theorem doesMethodRequireActiveSession_snd_eq_iff (h : MethodsHandler) (methodName : String) :
    (Indexing.doesMethodRequireActiveSession h methodName).2 = h ↔
      methodName ∈ h.methodRequireActiveSession := by
  rw [← index_snd_eq_iff h.methodRequireActiveSession methodName false]
  constructor
  · intro hsame
    exact congrArg methodRequireActiveSession hsame
  · intro hsame
    exact congrArg (fun active => { h with methodRequireActiveSession := active }) hsame

/-- A validation leaves the handler as it is. -/
theorem SameKeys.validateMethodRequirements_eq {h : MethodsHandler} (hkeys : h.SameKeys)
    (session : Option Session) (methodName : String) (reasons : Json.Members) :
    Indexing.validateMethodRequirements h session methodName reasons =
      (h.validateMethodRequirements session methodName reasons, h) := by
  unfold Indexing.validateMethodRequirements MethodsHandler.validateMethodRequirements
  rcases hm : h.methods.lookup methodName with _ | m
  · rfl
  · have hactive := (hkeys.active methodName).mpr (Finmap.mem_of_lookup_eq_some hm)
    have hindex : index h.methodRequireActiveSession methodName false =
        (h.doesMethodRequireActiveSession methodName, h.methodRequireActiveSession) :=
      index_of_mem false hactive
    simp only [hindex]
    rcases h.doesMethodRequireActiveSession methodName && session.isNone with _ | _
    · rcases h.methodsPermissions.validateMethod session methodName ∅ ∅ with ⟨_ | _, _, _⟩ <;> rfl
    · rfl

/-- So does a call. -/
theorem SameKeys.invoke_eq {h : MethodsHandler} (hkeys : h.SameKeys) (session : Option Session)
    (methodName : String) (payload : Json) (now : ℤ) :
    Indexing.invoke h session methodName payload now =
      (h.invoke session methodName payload now, h) := by
  unfold Indexing.invoke MethodsHandler.invoke
  rcases hm : h.methods.lookup methodName with _ | m
  · rfl
  · have hupdate := (hkeys.update methodName).mpr (Finmap.mem_of_lookup_eq_some hm)
    simp only [index_of_mem false hupdate]
    rcases (h.methodUpdateSessionLastActivityOnUsage.lookup methodName).getD false with _ | _
    · rfl
    · rcases session with _ | s <;> rfl

/-- Nobody passes a validation without a session. -/
theorem validateMethodRequirements_none_ne_ok (h : MethodsHandler) (methodName : String)
    (reasons : Json.Members) : (h.validateMethodRequirements none methodName reasons).1 ≠ .ok := by
  unfold MethodsHandler.validateMethodRequirements
  rcases h.methods.lookup methodName with _ | m
  · simp
  · rcases h.doesMethodRequireActiveSession methodName with _ | _ <;>
      simp [MethodsRequirementsMap.validateMethod]

/-- With a session, a call does not use a null one. -/
theorem invoke_some_ne_nullDereference (h : MethodsHandler) (s : Session) (methodName : String)
    (payload : Json) (now : ℤ) :
    (h.invoke (some s) methodName payload now).1 ≠ .nullDereference := by
  unfold MethodsHandler.invoke
  rcases h.methods.lookup methodName with _ | m
  · simp
  · rcases (h.methodUpdateSessionLastActivityOnUsage.lookup methodName).getD false with _ | _ <;>
      simp

/-! ## Runs of queries -/

/-- A query.  The session is a pointer, which may be null, to one of the session objects. -/
inductive Query where
  | validateMethodRequirements (session : Option ℕ) (methodName : String)
      (reasons : Json.Members)
  | doesMethodRequireActiveSession (methodName : String)
  | invoke (session : Option ℕ) (methodName : String) (payload : Json) (now : ℤ)

inductive Answer where
  | validated (code : MethodValidationCode) (reasons : Json.Members)
  | required (b : Bool)
  | invoked (result : InvokeResult)

/-- A handler that is queried, the session objects, and the validations that were accepted. -/
structure Querying where
  handler : MethodsHandler
  sessions : ℕ → Session
  accepted : List (Option ℕ × String) := []

namespace Querying

/-- The object behind a pointer. -/
def pointee (q : Querying) (session : Option ℕ) : Option Session := session.map q.sessions

/-- The session objects after one of them was written. -/
def store (q : Querying) (session : Option ℕ) (written : Option Session) : ℕ → Session :=
  match session, written with
  | some i, some s => Function.update q.sessions i s
  | _, _ => q.sessions

/-- One query.  A call that no accepted validation of the same session and method comes before is
not made. -/
def step (q : Querying) : Query → Option (Querying × Answer)
  | .validateMethodRequirements session methodName reasons =>
    let ((code, reasons), h) :=
      Indexing.validateMethodRequirements q.handler (q.pointee session) methodName reasons
    some ({ q with
      handler := h
      accepted := if code = .ok then (session, methodName) :: q.accepted else q.accepted },
      .validated code reasons)
  | .doesMethodRequireActiveSession methodName =>
    let (required, h) := Indexing.doesMethodRequireActiveSession q.handler methodName
    some ({ q with handler := h }, .required required)
  | .invoke session methodName payload now =>
    if (session, methodName) ∈ q.accepted then
      let ((result, written), h) :=
        Indexing.invoke q.handler (q.pointee session) methodName payload now
      some ({ q with handler := h, sessions := q.store session written }, .invoked result)
    else none

/-- The condition: whether a method needs a session is asked for registered names. -/
def AsksRegistered (defs : List MethodDefinition) (_ : Querying) : Query → Prop
  | .doesMethodRequireActiveSession methodName => registered defs methodName ≠ none
  | _ => True

/-- The query leaves the tables as they were built, and uses no null session. -/
structure Harmless (defs : List MethodDefinition) (t : Transition Querying Query Answer) :
    Prop where
  tables : t.after.handler = build defs
  session : t.output ≠ .invoked .nullDereference

/-- The tables are those that were built, and an accepted validation had a session. -/
structure Intact (defs : List MethodDefinition) (q : Querying) : Prop where
  handler : q.handler = build defs
  accepted : ∀ v ∈ q.accepted, v.1 ≠ none

variable {defs : List MethodDefinition} {q q' : Querying}

/-- What a query does while the tables are those that were built: a validation and a call keep all
that a run rests on, and the third query looks its name up. -/
theorem Intact.step_cases (hq : q.Intact defs) {x : Query} {a : Answer}
    (hs : q.step x = some (q', a)) :
    (q'.Intact defs ∧ a ≠ .invoked .nullDereference ∧ q.AsksRegistered defs x) ∨
      ∃ methodName, x = .doesMethodRequireActiveSession methodName ∧
        q' = { q with
          handler := (Indexing.doesMethodRequireActiveSession (build defs) methodName).2 } ∧
        a ≠ .invoked .nullDereference := by
  have hkeys := sameKeys_build defs
  rcases x with ⟨session, methodName, reasons⟩ | methodName | ⟨session, methodName, payload, now⟩
  · left
    simp only [step, hq.handler, hkeys.validateMethodRequirements_eq] at hs
    obtain ⟨rfl, rfl⟩ := Prod.mk.inj (Option.some.inj hs)
    refine ⟨⟨rfl, fun v hv => ?_⟩, by simp, trivial⟩
    dsimp only at hv
    split at hv
    · rename_i hok
      rcases List.mem_cons.mp hv with rfl | hv
      · -- what was just accepted had a session
        rintro hnull
        dsimp only at hnull
        subst hnull
        exact validateMethodRequirements_none_ne_ok (build defs) methodName reasons hok
      · exact hq.accepted v hv
    · exact hq.accepted v hv
  · right
    simp only [step, hq.handler] at hs
    obtain ⟨rfl, rfl⟩ := Prod.mk.inj (Option.some.inj hs)
    exact ⟨methodName, rfl, rfl, by simp⟩
  · left
    simp only [step, hq.handler, hkeys.invoke_eq, Option.ite_none_right_eq_some] at hs
    obtain ⟨haccepted, hs⟩ := hs
    obtain ⟨rfl, rfl⟩ := Prod.mk.inj (Option.some.inj hs)
    refine ⟨⟨rfl, hq.accepted⟩, ?_, trivial⟩
    obtain ⟨i, hi⟩ := Option.ne_none_iff_exists'.mp (hq.accepted _ haccepted)
    dsimp only at hi
    subst hi
    intro hnull
    exact invoke_some_ne_nullDereference _ _ _ _ _ (Answer.invoked.inj hnull)

/-- Asking leaves the built tables exactly if the name is registered. -/
theorem doesMethodRequireActiveSession_build_iff (methodName : String) :
    (Indexing.doesMethodRequireActiveSession (build defs) methodName).2 = build defs ↔
      registered defs methodName ≠ none := by
  rw [doesMethodRequireActiveSession_snd_eq_iff, (sameKeys_build defs).active, mem_methods_build]

/-- **Step lemma.** -/
theorem Intact.step (hq : q.Intact defs) {x : Query} {a : Answer}
    (hasks : q.AsksRegistered defs x) (hs : q.step x = some (q', a)) : q'.Intact defs := by
  rcases hq.step_cases hs with ⟨hnext, -, -⟩ | ⟨methodName, rfl, rfl, -⟩
  · exact hnext
  · exact ⟨doesMethodRequireActiveSession_build_iff methodName |>.mpr hasks, hq.accepted⟩

theorem Intact.harmless_iff (hq : q.Intact defs) {x : Query} {a : Answer}
    (hs : q.step x = some (q', a)) : Harmless defs ⟨q, x, a, q'⟩ ↔ q.AsksRegistered defs x := by
  rcases hq.step_cases hs with ⟨hnext, hnull, hasks⟩ | ⟨methodName, rfl, rfl, hnull⟩
  · exact iff_of_true ⟨hnext.handler, hnull⟩ hasks
  · rw [AsksRegistered, ← doesMethodRequireActiveSession_build_iff]
    exact ⟨fun h => h.tables, fun h => ⟨h, hnull⟩⟩

/-- **Queries change nothing**, and use no null session, along a run exactly if the question whether
a method needs a session is put for registered names only. -/
theorem queries_change_nothing_iff (defs : List MethodDefinition) (sessions : ℕ → Session)
    (queries : List Query) :
    (∀ t ∈ transitions step ⟨build defs, sessions, []⟩ queries, Harmless defs t) ↔
      Guarded step (AsksRegistered defs) ⟨build defs, sessions, []⟩ queries := by
  apply guarded_iff (Intact defs) (Harmless defs)
  · intro q x q' a hq hs
    exact hq.harmless_iff hs
  · intro q x q' a hq hasks hs
    exact hq.step hasks hs
  · exact ⟨rfl, fun v hv => absurd hv List.not_mem_nil⟩

/-- A name that nobody registered is in the table after it was asked for. -/
theorem unknown_name_inserted :
    ¬ ∀ t ∈ transitions step ⟨build [], fun _ => Session.ofToken {} 0, []⟩
        [.doesMethodRequireActiveSession "x"], Harmless [] t := by
  intro hall
  have htables := (hall _ List.mem_cons_self).tables
  have hmem : "x" ∈ (build []).methodRequireActiveSession := by
    rw [← htables]
    exact Finmap.mem_insert.mpr (Or.inl rfl)
  exact absurd hmem Finmap.notMem_empty

end Querying

end MethodsHandler

end Mantids
