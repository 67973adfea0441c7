import LexiconCompiler.Proofs.Emission.Declaring
import LexiconCompiler.Proofs.Emission.Growth
import LexiconCompiler.Proofs.Emission.Mentions
import LexiconCompiler.Proofs.Schema.WellFormed

set_option autoImplicit false
set_option relaxedAutoImplicit false

/-!
Units of well-formed documents whose references lead somewhere. Nothing in such a document is of a
kind that cannot be nested where it stands, and every reference is followed; what is left to go
wrong is a name that is declared twice. The unit needs the units that its declarations mention, in
the order in which they mention them.
-/

namespace LexiconCompiler

namespace SchemaType

def IsNested : SchemaType -> Prop
  | .token .. | .record .. | .method .. => False
  | _ => True

/-- No token, record or method occurs in a type. -/
def Nestable (t : SchemaType) : Prop := ∀ u : SchemaType, u.Inside t → u.IsNested

theorem Nestable.part {t u : SchemaType} (h : t.Nestable) (hp : Part u t) : u.Nestable :=
  fun w hw => h w (hw.trans hp.inside)

private theorem IsPrimitive.isItem {t : SchemaType} (h : t.IsPrimitive) : t.IsItem := by
  cases t with
  | blob | ref | union => trivial
  | _ => exact h

theorem IsItem.nestable {t : SchemaType} (h : t.IsItem) : t.Nestable := by
  have hleaf : t.IsLeaf ∧ t.IsNested := by
    cases t <;> first | exact ⟨trivial, trivial⟩ | exact h.elim
  exact hleaf.1.forall_inside_iff.mpr hleaf.2

theorem nestable_array {d : String} {items : SchemaType} {least most : Option Nat}
    (h : items.IsItem) : (array d items least most).Nestable := by
  refine forall_inside_iff.mpr ⟨trivial, fun u hu => ?_⟩
  rw [part_array.mp hu]
  exact h.nestable

private theorem IsProperty.nestable {t : SchemaType} (h : t.IsProperty) : t.Nestable := by
  cases t with
  | array d items least most => exact nestable_array h
  | _ => exact IsItem.nestable h

private theorem IsParameter.nestable {t : SchemaType} (h : t.IsParameter) : t.Nestable := by
  cases t with
  | array d items least most => exact nestable_array (IsPrimitive.isItem h)
  | _ =>
    refine IsItem.nestable (IsPrimitive.isItem ?_)
    exact h

private theorem nestable_object {o : ObjectType SchemaType}
    (h : ∀ p ∈ o.properties, p.type.Nestable) : (object o).Nestable := by
  refine forall_inside_iff.mpr ⟨trivial, fun u hu => ?_⟩
  obtain ⟨p, hp, rfl⟩ := part_object.mp hu
  exact h p hp

end SchemaType

theorem ObjectType.IsPlain.nestable {o : ObjectType SchemaType} (h : o.IsPlain) :
    (SchemaType.object o).Nestable :=
  SchemaType.nestable_object fun p hp => (h.2 p hp).nestable

theorem ObjectType.IsParameters.nestable {o : ObjectType SchemaType} (h : o.IsParameters) :
    (SchemaType.object o).Nestable := by
  rcases h with h | ⟨_, h⟩
  · exact h.nestable
  · exact SchemaType.nestable_object fun p hp => (h p hp).nestable

theorem SchemaType.IsSchema.nestable {t : SchemaType} (h : t.IsSchema) : t.Nestable := by
  cases t with
  | object o => exact ObjectType.IsPlain.nestable h
  | ref | union => exact IsItem.nestable trivial
  | _ => exact h.elim

namespace Emission

open LexiconCompiler.Code

def Scope.Resolves (s : Scope) (ref : String) : Prop :=
  ∃ address target, s.target ref = .ok (address, target)

/-- Every reference in a type leads to some definition. -/
def Scope.ResolvesIn (s : Scope) (t : SchemaType) : Prop :=
  ∀ u : SchemaType, u.Inside t → ∀ ref, u.Cites ref → s.Resolves ref

private theorem Scope.ResolvesIn.part {s : Scope} {t u : SchemaType} (h : s.ResolvesIn t)
    (hp : SchemaType.Part u t) : s.ResolvesIn u :=
  fun w hw => h w (hw.trans hp.inside)

section Types

variable {s : Scope}

private theorem refType_yields {ref : String} (h : s.Resolves ref) (path : String) :
    Yields (refType s ref path) (s.refExpr ref) (unitsOf (s.refExpr ref).mentions) [] := by
  obtain ⟨address, target, ht⟩ := h
  simp only [refType, Scope.refExpr, ht]
  by_cases htoken : (target.kind == .token) = true
  · rw [if_pos htoken, if_pos htoken]
    exact yields_pure _
  · by_cases hown : (address.nsid == s.document) = true
    · rw [if_neg htoken, if_neg htoken, if_pos hown]
      simp only [hown, if_true]
      exact yields_pure _
    · rw [if_neg htoken, if_neg htoken, if_neg hown]
      simp only [hown]
      exact (yields_depend _).bind (yields_pure _)

private theorem refTypes_yields {refs : List String} (h : ∀ ref ∈ refs, s.Resolves ref)
    (path : String) :
    Yields (refTypes s path refs) (refs.map s.refExpr)
      (unitsOf (memberMentions (refs.map s.refExpr))) [] := by
  induction refs with
  | nil => exact yields_pure _
  | cons ref rest ih =>
    rw [List.forall_mem_cons] at h
    rw [List.map_cons, memberMentions, unitsOf_append]
    exact (refType_yields h.1 path).bind ((ih h.2).map _)

private theorem propertyFields_yields {required : List String} {path : String}
    {properties : List (Property SchemaType)}
    (h : ∀ p ∈ properties, ∀ path, Yields (nestedType s p.type path) (s.typeExpr p.type)
      (unitsOf (s.typeExpr p.type).mentions) []) :
    Yields (propertyFields s required path properties) (s.propertyExprs required properties)
      (unitsOf (fieldMentions (s.propertyExprs required properties))) [] := by
  induction properties with
  | nil =>
    rw [propertyFields, Scope.propertyExprs]
    exact yields_pure _
  | cons p rest ih =>
    rcases p with ⟨name, t⟩
    rw [List.forall_mem_cons] at h
    rw [propertyFields, Scope.propertyExprs, fieldMentions, unitsOf_append]
    exact (h.1 (path ++ name)).bind ((ih h.2).map _)

private theorem nestedType_yields {t : SchemaType} (hn : t.Nestable) (hr : s.ResolvesIn t)
    (path : String) :
    Yields (nestedType s t path) (s.typeExpr t) (unitsOf (s.typeExpr t).mentions) [] := by
  induction t using SchemaType.induction_parts generalizing path with
  | step t ih =>
    cases t with
    | array d items least most =>
      have helement := ih items .items (hn.part .items) (hr.part .items) (path ++ ".items")
      rw [nestedType, Scope.typeExpr, TypeExpr.mentions]
      exact helement.map _
    | object o =>
      rcases o with ⟨d, required, properties, params⟩
      rw [nestedType, objectFields, Scope.typeExpr, Scope.objectExprs, TypeExpr.mentions]
      refine (propertyFields_yields fun p hp => ?_).map _
      exact ih p.type (.property hp) (hn.part (.property hp)) (hr.part (.property hp))
    | ref d target =>
      rw [nestedType, Scope.typeExpr]
      exact refType_yields (hr _ (.refl _) target .ref) path
    | union d targets =>
      rw [nestedType, Scope.typeExpr, TypeExpr.oneOf, TypeExpr.mentions]
      refine (refTypes_yields (fun target ht => ?_) path).map _
      exact hr _ (.refl _) target (.union ht)
    | token | record | method => exact (hn _ (.refl _)).elim
    | boolean | integer | number | string =>
      simp only [nestedType, Scope.typeExpr, mentions_constrained, mentions_numericType,
        mentions_stringType]
      exact yields_pure _
    | _ =>
      rw [nestedType, Scope.typeExpr]
      exact yields_pure _

private theorem objectFields_yields {o : ObjectType SchemaType}
    (hn : (SchemaType.object o).Nestable) (hr : s.ResolvesIn (.object o)) (path : String) :
    Yields (objectFields s o path) (s.objectExprs o) (unitsOf (fieldMentions (s.objectExprs o)))
      [] := by
  rcases o with ⟨d, required, properties, params⟩
  rw [objectFields, Scope.objectExprs]
  exact propertyFields_yields fun p hp =>
    nestedType_yields (hn.part (.property hp)) (hr.part (.property hp))

end Types

section Definitions

variable {s : Scope}

private theorem declareObject_yields {o : ObjectType SchemaType}
    (hn : (SchemaType.object o).Nestable) (hr : s.ResolvesIn (.object o)) (skipGuards : Bool)
    (name : String) (doc : Documentation) (path : String) (address : Address) :
    Yields (declareObject s skipGuards name doc o path address) ⟨⟩
      (unitsOf ((s.objectDecls skipGuards name doc o address).flatMap Decl.mentions))
      (s.objectDecls skipGuards name doc o address) := by
  let guards := if skipGuards then [] else [guardDecl name address, validateDecl name address]
  have hguards : Yields (if skipGuards then pure ⟨⟩ else declareGuards name address) ⟨⟩
      (unitsOf (guards.flatMap Decl.mentions)) guards := by
    cases skipGuards with
    | true => exact yields_pure _
    | false => exact (yields_declare _).bind ((yields_depend _).bind (yields_declare _))
  have hunits : unitsOf ((s.objectDecls skipGuards name doc o address).flatMap Decl.mentions) =
      unitsOf (fieldMentions (s.objectExprs o)) ++ unitsOf (guards.flatMap Decl.mentions) :=
    unitsOf_append _ _
  rw [hunits]
  exact (objectFields_yields hn hr path).bind ((yields_declare _).bind hguards)

private theorem declareAlias_yields {t : SchemaType} (hn : t.Nestable) (hr : s.ResolvesIn t)
    (path : String) {decl : TypeExpr → Decl} (hd : ∀ type, (decl type).mentions = type.mentions) :
    Yields (nestedType s t path >>= fun type => declare (decl type)) ⟨⟩
      (unitsOf ([decl (s.typeExpr t)].flatMap Decl.mentions)) [decl (s.typeExpr t)] := by
  have hunits : unitsOf ([decl (s.typeExpr t)].flatMap Decl.mentions) =
      unitsOf (s.typeExpr t).mentions ++ [] := by
    rw [List.flatMap_singleton, hd, List.append_nil]
  rw [hunits]
  exact (nestedType_yields hn hr path).bind (yields_declare _)

private theorem declareDefinition_yields {definition : Definition}
    (hl : definition.type.IsDefinition) (hm : definition.type.kind.isMethod = false)
    (hr : s.ResolvesIn definition.type) (skipGuards : Bool) :
    Yields (declareDefinition s skipGuards definition) ⟨⟩
      (unitsOf ((s.definitionDecls skipGuards definition).flatMap Decl.mentions))
      (s.definitionDecls skipGuards definition) := by
  rcases definition with ⟨name, t⟩
  cases t with
  | token d => exact yields_declare _
  | record d key payload =>
    exact declareObject_yields (ObjectType.IsPlain.nestable hl) (hr.part .payload) ..
  | object o => exact declareObject_yields (ObjectType.IsPlain.nestable hl) hr ..
  | method d kind contract => cases kind <;> cases hm
  | array d items least most =>
    exact declareAlias_yields (SchemaType.nestable_array hl) hr _ fun _ => rfl
  | ref | union => exact hl.elim
  | _ =>
    refine declareAlias_yields (SchemaType.IsItem.nestable ?_) hr _ fun _ => rfl
    trivial

end Definitions

section Contracts

variable {s : Scope}

private theorem parameterFields_yields {parameters : Option (ObjectType SchemaType)}
    (hn : ∀ o ∈ parameters, (SchemaType.object o).Nestable)
    (hr : ∀ o ∈ parameters, s.ResolvesIn (.object o)) :
    Yields (parameterFields s parameters) (s.parameterExprs parameters)
      (unitsOf (fieldMentions (s.parameterExprs parameters))) [] := by
  cases parameters with
  | none => exact yields_pure _
  | some o => exact objectFields_yields (hn o rfl) (hr o rfl) _

private theorem bodyType_yields {body : Option (Body SchemaType)}
    (hn : ∀ b ∈ body, ∀ schema ∈ b.schema, schema.Nestable)
    (hr : ∀ b ∈ body, ∀ schema ∈ b.schema, s.ResolvesIn schema) (name path : String) :
    Yields (bodyType s name path body) (bodyExpr name body)
      (unitsOf ((s.schemaDecls name body).flatMap Decl.mentions)) (s.schemaDecls name body) := by
  rcases body with _ | ⟨d, encoding, schema⟩
  · exact yields_pure _
  · by_cases hzero : encoding.isZero = true
    · have hnone : s.schemaDecls name (some ⟨d, encoding, schema⟩) = [] := by
        cases schema <;> simp [Scope.schemaDecls, hzero]
      rw [bodyType, bodyExpr, if_pos hzero, if_pos hzero, hnone]
      exact yields_pure _
    · let decls := s.schemaDecls name (some ⟨d, encoding, schema⟩)
      have hschema : Yields (declareSchema s name (path ++ ".schema") schema) ⟨⟩
          (unitsOf (decls.flatMap Decl.mentions)) decls := by
        cases schema with
        | none => exact yields_pure _
        | some schema =>
          simp only [decls, Scope.schemaDecls, if_neg hzero]
          exact declareAlias_yields (hn _ rfl schema rfl) (hr _ rfl schema rfl) _
            (Decl.mentions_ofType _ _)
      rw [bodyType, bodyExpr, if_neg hzero, if_neg hzero]
      exact hschema.map _

private theorem declareSuccess_yields (doc : Documentation) (output : TypeExpr) :
    Yields (declareSuccess doc output) (successExpr output) [] (successDecls doc output) := by
  cases output with
  | void => exact yields_pure _
  | _ => exact (yields_declare _).bind (yields_pure _)

private theorem declareContract_yields {d : String} {kind : MethodKind}
    {contract : Method SchemaType} (hl : (SchemaType.method d kind contract).IsDefinition)
    (hr : s.ResolvesIn (.method d kind contract)) (description : String) :
    Yields (declareContract s description contract) ⟨⟩
      (unitsOf ((s.contractDecls description contract).flatMap Decl.mentions))
      (s.contractDecls description contract) := by
  obtain ⟨hparameters, hbodies⟩ := hl
  rw [Method.forall_bodies] at hbodies
  have hfields := parameterFields_yields (fun o ho => (hparameters o ho).nestable)
    fun o ho => hr.part (.parameters ho)
  have hinput := bodyType_yields
    (fun b hb schema hs => (hbodies.1 b hb schema hs).nestable)
    (fun b hb schema hs => hr.part (.input hb hs)) "InputSchema" "defs.main.input"
  have houtput := bodyType_yields
    (fun b hb schema hs => (hbodies.2 b hb schema hs).nestable)
    (fun b hb schema hs => hr.part (.output hb hs)) "OutputSchema" "defs.main.output"
  have hsuccess := declareSuccess_yields (bodyDoc contract.output)
    (bodyExpr "OutputSchema" contract.output)
  have hall : Yields (declareContract s description contract) ⟨⟩ _ _ :=
    hfields.bind ((yields_declare _).bind (hinput.bind (houtput.bind
      ((yields_declare _).bind (hsuccess.bind ((yields_declare _).bind ((yields_declare _).bind
        ((yields_declare _).bind (yields_declare _)))))))))
  rw [mentions_contractDecls]
  simpa [Scope.contractDecls] using hall

end Contracts

private theorem declareAny_yields {s : Scope} {definition : Definition} (hw : definition.WellFormed)
    (hr : s.ResolvesIn definition.type) (skipGuards : Bool) :
    Yields (declareAny s skipGuards definition) ⟨⟩
      (unitsOf ((s.definitionDecls skipGuards definition).flatMap Decl.mentions))
      (s.definitionDecls skipGuards definition) := by
  rcases definition with ⟨name, t⟩
  cases t with
  | method d kind contract =>
    -- Placed elsewhere, a method would be declared like any other definition, and fail.
    have hmain : name = mainDef := hw.placed trivial
    have hcontract := declareContract_yields hw.legal hr d
    simpa [declareAny, Scope.definitionDecls, hmain] using hcontract
  | object o =>
    refine declareDefinition_yields hw.legal ?_ hr skipGuards
    cases hp : o.params <;> simp [SchemaType.kind, ObjectType.kind, hp, Kind.isMethod]
  | _ => exact declareDefinition_yields hw.legal rfl hr skipGuards

theorem declareAll_yields {s : Scope} {defs : List Definition}
    (hw : ∀ definition ∈ defs, definition.WellFormed)
    (hr : ∀ definition ∈ defs, s.ResolvesIn definition.type) (skipGuards : Bool) :
    Yields (declareAll s skipGuards defs) ⟨⟩
      (unitsOf ((defs.flatMap (s.definitionDecls skipGuards)).flatMap Decl.mentions))
      (defs.flatMap (s.definitionDecls skipGuards)) := by
  induction defs with
  | nil => exact yields_pure _
  | cons definition rest ih =>
    rw [List.forall_mem_cons] at hw hr
    rw [List.flatMap_cons, List.flatMap_append, unitsOf_append]
    exact (declareAny_yields hw.1 hr.1 skipGuards).bind (ih hw.2 hr.2)

theorem resolvesIn_of_linked {documents : List Document} (hd : DistinctIds documents)
    (hl : Linked documents) {document : Document} (hm : document ∈ documents) :
    ∀ definition ∈ document.defs,
      Scope.ResolvesIn ⟨⟨documents⟩, document.id⟩ definition.type := by
  intro definition hdef t ht ref hc
  obtain ⟨address, target, hleads⟩ := hl document hm ref ⟨definition, hdef, t, ht, hc⟩
  exact ⟨address, target, Scope.target_of_leads hd hleads⟩

section Units

variable {documents : List Document} (hd : DistinctIds documents) (hl : Linked documents)
  {document : Document} (hm : document ∈ documents) (hw : document.toDraft.WellFormed)
  {skipGuards : Bool} {u : SourceUnit}
  (h : documentUnit ⟨documents⟩ skipGuards document = .ok u)
include hd hl hm hw h

/-- The unit of a document in closed form. -/
theorem documentUnit_eq_ok :
    (u.decls.map Decl.name).Nodup ∧ u.name = document.id ∧
      u.decls =
        document.defs.flatMap (Scope.definitionDecls ⟨⟨documents⟩, document.id⟩ skipGuards) := by
  have hyields := declareAll_yields hw.defs (resolvesIn_of_linked hd hl hm) skipGuards
  obtain ⟨hn, rfl⟩ := hyields.grow_eq_ok h
  exact ⟨hn, SourceUnit.name_extend .., rfl⟩

theorem documentUnit_exact : u.Exact := by
  have hyields := declareAll_yields hw.defs (resolvesIn_of_linked hd hl hm) skipGuards
  obtain ⟨_, rfl⟩ := hyields.grow_eq_ok h
  exact SourceUnit.exact_extend _ _ _

end Units

end Emission

end LexiconCompiler
