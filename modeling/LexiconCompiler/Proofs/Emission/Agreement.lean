import LexiconCompiler.Proofs.Emission.Growth

set_option autoImplicit false
set_option relaxedAutoImplicit false

/-!
The unit of a document depends on the batch only through what its references lead to. Registries
that lead them to the same definitions give the same unit, or the same problem.
-/

namespace LexiconCompiler.Emission

open LexiconCompiler.Code

/-- Two scopes of one document lead every reference in a type to the same definition. -/
structure Scope.AgreesIn (s s' : Scope) (t : SchemaType) : Prop where
  document : s.document = s'.document
  target : ∀ u : SchemaType, u.Inside t → ∀ ref, u.Cites ref → s.target ref = s'.target ref

private theorem Scope.AgreesIn.part {s s' : Scope} {t u : SchemaType} (h : s.AgreesIn s' t)
    (hp : SchemaType.Part u t) : s.AgreesIn s' u :=
  ⟨h.document, fun w hw => h.target w (hw.trans hp.inside)⟩

section Types

variable {s s' : Scope}

private theorem refType_congr {ref : String} (hd : s.document = s'.document)
    (ht : s.target ref = s'.target ref) (path : String) :
    refType s ref path = refType s' ref path := by
  simp only [refType, ht, hd]

private theorem refTypes_congr {refs : List String} (hd : s.document = s'.document)
    (ht : ∀ ref ∈ refs, s.target ref = s'.target ref) (path : String) :
    refTypes s path refs = refTypes s' path refs := by
  induction refs with
  | nil => rfl
  | cons ref rest ih =>
    rw [List.forall_mem_cons] at ht
    rw [refTypes, refTypes, refType_congr hd ht.1, ih ht.2]

private theorem propertyFields_congr {required : List String} {path : String}
    {properties : List (Property SchemaType)}
    (h : ∀ p ∈ properties, ∀ path, nestedType s p.type path = nestedType s' p.type path) :
    propertyFields s required path properties = propertyFields s' required path properties := by
  induction properties with
  | nil => rw [propertyFields, propertyFields]
  | cons p rest ih =>
    rcases p with ⟨name, t⟩
    rw [List.forall_mem_cons] at h
    rw [propertyFields, propertyFields, ih h.2]
    simp only [h.1]

private theorem nestedType_congr {t : SchemaType} (h : s.AgreesIn s' t) (path : String) :
    nestedType s t path = nestedType s' t path := by
  induction t using SchemaType.induction_parts generalizing path with
  | step t ih =>
    cases t with
    | array d items least most =>
      rw [nestedType, nestedType, ih items .items (h.part .items)]
    | object o =>
      rcases o with ⟨d, required, properties, params⟩
      have hfields : propertyFields s required (path ++ ".properties.") properties =
          propertyFields s' required (path ++ ".properties.") properties :=
        propertyFields_congr fun p hp => ih p.type (.property hp) (h.part (.property hp))
      rw [nestedType, nestedType, objectFields, objectFields, hfields]
    | ref d target =>
      rw [nestedType, nestedType]
      exact refType_congr h.document (h.target _ (.refl _) target .ref) path
    | union d targets =>
      have htypes := refTypes_congr h.document
        (fun target ht => h.target _ (.refl _) target (.union ht)) path
      rw [nestedType, nestedType, htypes]
    | token | record | method => rw [nestedType, nestedType, h.document]
    | _ => rw [nestedType, nestedType]

private theorem objectFields_congr {o : ObjectType SchemaType} (h : s.AgreesIn s' (.object o))
    (path : String) : objectFields s o path = objectFields s' o path := by
  rcases o with ⟨d, required, properties, params⟩
  rw [objectFields, objectFields]
  exact propertyFields_congr fun p hp => nestedType_congr (h.part (.property hp))

end Types

section Definitions

variable {s s' : Scope} (skipGuards : Bool)

private theorem declareObject_congr {o : ObjectType SchemaType} (h : s.AgreesIn s' (.object o))
    (name : String) (doc : Documentation) (path : String) (address : Address) :
    declareObject s skipGuards name doc o path address =
      declareObject s' skipGuards name doc o path address := by
  rw [declareObject, declareObject, objectFields_congr h]

private theorem declareDefinition_congr {definition : Definition}
    (h : s.AgreesIn s' definition.type) :
    declareDefinition s skipGuards definition = declareDefinition s' skipGuards definition := by
  rcases definition with ⟨name, t⟩
  have hd := h.document
  cases t with
  | record d key payload =>
    simp only [declareDefinition, hd]
    exact declareObject_congr skipGuards (h.part .payload) _ _ _ _
  | object o =>
    simp only [declareDefinition, hd]
    exact declareObject_congr skipGuards h _ _ _ _
  | token => simp only [declareDefinition, hd]
  | _ => simp only [declareDefinition, nestedType_congr h]

private theorem bodyType_congr {body : Option (Body SchemaType)}
    (h : ∀ b, body = some b → ∀ schema, b.schema = some schema → s.AgreesIn s' schema)
    (name path : String) : bodyType s name path body = bodyType s' name path body := by
  rcases body with _ | ⟨d, encoding, _ | schema⟩
  · rfl
  · rfl
  · simp only [bodyType, declareSchema, nestedType_congr (h _ rfl schema rfl)]

private theorem parameterFields_congr {parameters : Option (ObjectType SchemaType)}
    (h : ∀ o, parameters = some o → s.AgreesIn s' (.object o)) :
    parameterFields s parameters = parameterFields s' parameters := by
  cases parameters with
  | none => rfl
  | some o => exact objectFields_congr (h o rfl) _

private theorem declareAny_congr {definition : Definition} (h : s.AgreesIn s' definition.type) :
    declareAny s skipGuards definition = declareAny s' skipGuards definition := by
  rcases definition with ⟨name, t⟩
  cases t with
  | method d kind contract =>
    have hparameters := parameterFields_congr fun o ho => h.part (.parameters ho)
    have hinput := bodyType_congr fun b hb schema hs => h.part (.input hb hs)
    have houtput := bodyType_congr fun b hb schema hs => h.part (.output hb hs)
    simp only [declareAny, declareContract, hparameters, hinput, houtput,
      declareDefinition_congr skipGuards h]
  | _ => exact declareDefinition_congr skipGuards h

private theorem declareAll_congr {defs : List Definition}
    (h : ∀ definition ∈ defs, s.AgreesIn s' definition.type) :
    declareAll s skipGuards defs = declareAll s' skipGuards defs := by
  induction defs with
  | nil => rfl
  | cons definition rest ih =>
    rw [List.forall_mem_cons] at h
    rw [declareAll, declareAll, declareAny_congr skipGuards h.1, ih h.2]

end Definitions

private theorem agreesIn_of_linked {documents more : List Document} (hd : DistinctIds documents)
    (hmore : DistinctIds more) (hsub : documents ⊆ more) (hl : Linked documents)
    {document : Document} (hm : document ∈ documents) :
    ∀ definition ∈ document.defs, Scope.AgreesIn ⟨⟨documents⟩, document.id⟩ ⟨⟨more⟩, document.id⟩
      definition.type := by
  intro definition hdef
  refine ⟨rfl, fun t ht ref hc => ?_⟩
  obtain ⟨address, target, hleads⟩ := hl document hm ref ⟨definition, hdef, t, ht, hc⟩
  rw [Scope.target_of_leads hd hleads, Scope.target_of_leads hmore (hleads.mono hsub)]

/-- Further documents do not change the unit of a document. -/
theorem documentUnit_congr {documents more : List Document} (hd : DistinctIds documents)
    (hmore : DistinctIds more) (hsub : documents ⊆ more) (hl : Linked documents)
    {document : Document} (hm : document ∈ documents) (skipGuards : Bool) :
    documentUnit ⟨documents⟩ skipGuards document = documentUnit ⟨more⟩ skipGuards document := by
  rw [documentUnit, documentUnit,
    declareAll_congr skipGuards (agreesIn_of_linked hd hmore hsub hl hm)]

end LexiconCompiler.Emission
