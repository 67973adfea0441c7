import LexiconCompiler.Emission.DocumentUnit
import LexiconCompiler.Proofs.TypeScript.Prose

set_option autoImplicit false
set_option relaxedAutoImplicit false

/-!
Prose of documents. Descriptions, keys of records and constraints reach the unit of a document as
documentation only, so the file of the document has them in comments only.
-/

namespace LexiconCompiler

open LexiconCompiler.Code LexiconCompiler.Emission

def NumericRules.bare {α : Type} (rules : NumericRules α) : NumericRules α :=
  ⟨none, rules.const, none, none, rules.enum⟩

def StringRules.bare (rules : StringRules) : StringRules :=
  ⟨none, rules.const, none, none, rules.enum, rules.knownValues⟩

def BlobRules.bare (rules : BlobRules) : BlobRules := ⟨rules.variant, [], none, none, none, none⟩

def NamedError.bare (error : NamedError) : NamedError := ⟨error.name, ""⟩

mutual

def SchemaType.bare : SchemaType -> SchemaType
  | .boolean _ _ const => .boolean "" none const
  | .number _ rules => .number "" rules.bare
  | .integer _ rules => .integer "" rules.bare
  | .string _ rules => .string "" rules.bare
  | .datetime _ => .datetime ""
  | .unknown _ => .unknown ""
  | .token _ => .token ""
  | .blob _ rules => .blob "" rules.bare
  | .array _ items _ _ => .array "" items.bare none none
  | .object object => .object (bareObject object)
  | .record _ _ payload => .record "" "" (bareObject payload)
  | .method _ kind ⟨parameters, input, output, errors⟩ =>
    .method "" kind
      ⟨bareParameters parameters, bareBody input, bareBody output, errors.map NamedError.bare⟩
  | .ref _ ref => .ref "" ref
  | .union _ refs => .union "" refs

def bareObject : ObjectType SchemaType -> ObjectType SchemaType
  | ⟨_, required, properties, params⟩ => ⟨"", required, bareProperties properties, params⟩

def bareProperties : List (Property SchemaType) -> List (Property SchemaType)
  | [] => []
  | ⟨name, type⟩ :: rest => ⟨name, type.bare⟩ :: bareProperties rest

def bareParameters : Option (ObjectType SchemaType) -> Option (ObjectType SchemaType)
  | none => none
  | some parameters => some (bareObject parameters)

def bareBody : Option (Body SchemaType) -> Option (Body SchemaType)
  | none => none
  | some ⟨_, encoding, schema⟩ => some ⟨"", encoding, bareSchema schema⟩

def bareSchema : Option SchemaType -> Option SchemaType
  | none => none
  | some schema => some schema.bare

end

def Definition.bare (definition : Definition) : Definition :=
  ⟨definition.name, definition.type.bare⟩

/-- A document without its prose. -/
def Document.bare (document : Document) : Document :=
  { document with description := "", defs := document.defs.map Definition.bare }

@[simp] theorem SchemaType.kind_bare (t : SchemaType) : t.bare.kind = t.kind := by
  cases t with
  | object o =>
    rcases o
    rfl
  | _ => rfl

@[simp] theorem Emission.documentation_bare (t : SchemaType) :
    documentation t.bare = Documentation.none := by
  cases t with
  | object o =>
    rcases o
    rfl
  | _ => rfl

namespace Emission

def Mirrors {α β : Type} (strip : α -> β) (bare : Emit β) (full : Emit α) : Prop :=
  ∀ u : SourceUnit, bare u.undocumented =
    (full u).map fun outcome => (strip outcome.1, outcome.2.undocumented)

section Steps

variable {α β γ δ : Type} {strip : α -> β} {other : γ -> δ}

private theorem mirrors_pure {a : α} {b : β} (h : strip a = b) : Mirrors strip (pure b)
    (pure a) := by
  intro u
  rw [← h]
  rfl

private theorem mirrors_fail (strip : α -> β) (problem : Problem) :
    Mirrors strip (fail problem) (fail problem) :=
  fun _ => rfl

private theorem Mirrors.bind {bare : Emit β} {full : Emit α} {rest : β -> Emit δ}
    {others : α -> Emit γ} (h : Mirrors strip bare full)
    (k : ∀ a, Mirrors other (rest (strip a)) (others a)) :
    Mirrors other (bare >>= rest) (full >>= others) := by
  intro u
  have hbare : (bare >>= rest) u.undocumented =
      (bare u.undocumented >>= fun outcome => rest outcome.1 outcome.2) := rfl
  have hfull : (full >>= others) u = (full u >>= fun outcome => others outcome.1 outcome.2) := rfl
  rw [hbare, hfull, h u]
  cases full u with
  | error problem => rfl
  | ok outcome => exact k outcome.1 outcome.2

private theorem mirrors_depend (name : String) : Mirrors id (depend name) (depend name) := by
  intro u
  have hdep : (u.addDep name).undocumented = u.undocumented.addDep name :=
    apply_ite SourceUnit.undocumented (u.isNewDep name = true) _ _
  change Except.ok (_, u.undocumented.addDep name) = Except.ok (_, (u.addDep name).undocumented)
  rw [hdep]

private theorem declares_undocumented (u : SourceUnit) (name : String) :
    u.undocumented.declares name = u.declares name := by
  simp only [SourceUnit.declares, SourceUnit.undocumented, List.any_map]
  rfl

private theorem mirrors_declare {decl bare : Decl} (h : decl.undocumented = bare) :
    Mirrors id (declare bare) (declare decl) := by
  subst h
  intro u
  have hname : decl.undocumented.name = decl.name := rfl
  have hadd : u.undocumented.addDecl decl.undocumented = (u.addDecl decl).undocumented := by
    simp [SourceUnit.addDecl, SourceUnit.undocumented]
  unfold declare
  rw [hname, declares_undocumented, hadd]
  split <;> rfl

end Steps

section Types

variable {s : Scope}

@[simp] theorem undocumentedMembers_literals (values : List Literal) :
    undocumentedMembers (values.map .literal) = values.map .literal := by
  induction values with
  | nil => rfl
  | cons value rest ih =>
    rw [List.map_cons, undocumentedMembers, ih, TypeExpr.undocumented]

@[simp] theorem undocumented_oneOf (members : List TypeExpr) :
    (TypeExpr.oneOf members).undocumented = .oneOf (undocumentedMembers members) := by
  rw [TypeExpr.oneOf, TypeExpr.undocumented, TypeExpr.oneOf]

@[simp] theorem undocumented_texts (values : List String) :
    (TypeExpr.texts values).undocumented = .texts values := by
  have hliterals := undocumentedMembers_literals (values.map .str)
  rw [List.map_map] at hliterals
  rw [TypeExpr.texts, undocumented_oneOf]
  exact congrArg TypeExpr.oneOf hliterals

@[simp] theorem undocumented_here (name : String) :
    (TypeExpr.here name).undocumented = .here name := by
  rw [TypeExpr.here, TypeExpr.undocumented]

@[simp] theorem undocumented_constrained (const : Option Literal) (enum : List Literal)
    (kind : ScalarKind) :
    (constrained const enum kind).undocumented = constrained const enum kind := by
  unfold constrained
  split
  · rw [TypeExpr.undocumented]
  · rw [TypeExpr.undocumented]
  · rw [undocumented_oneOf, undocumentedMembers_literals]

@[simp] theorem undocumented_stringType (rules : StringRules) :
    (stringType rules).undocumented = stringType rules := by
  have hliterals := undocumentedMembers_literals (rules.knownValues.map .str)
  rw [List.map_map] at hliterals
  unfold stringType
  split
  · rw [TypeExpr.undocumented]
    exact congrArg (TypeExpr.union · true (some .string)) hliterals
  · exact undocumented_constrained _ _ _

private theorem refType_mirrors (ref path : String) :
    Mirrors TypeExpr.undocumented (refType s ref path) (refType s ref path) := by
  unfold refType
  cases s.target ref with
  | error cause => exact mirrors_fail _ _
  | ok found =>
    rcases found with ⟨address, target⟩
    by_cases htoken : (target.kind == .token) = true
    · simp only [htoken, if_true]
      exact mirrors_pure (by rw [TypeExpr.undocumented])
    · by_cases hown : (address.nsid == s.document) = true
      · simp only [htoken, hown, if_true]
        exact mirrors_pure (undocumented_here _)
      · simp only [htoken, hown]
        exact (mirrors_depend _).bind fun _ => mirrors_pure (by rw [TypeExpr.undocumented])

private theorem refTypes_mirrors (path : String) (refs : List String) :
    Mirrors undocumentedMembers (refTypes s path refs) (refTypes s path refs) := by
  induction refs with
  | nil => exact mirrors_pure rfl
  | cons ref rest ih =>
    rw [refTypes]
    refine (refType_mirrors ref path).bind fun type => ih.bind fun types => mirrors_pure ?_
    rw [undocumentedMembers]

mutual

private theorem nestedType_mirrors : (t : SchemaType) -> (path : String) ->
    Mirrors TypeExpr.undocumented (nestedType s t.bare path) (nestedType s t path)
  | .boolean _ _ _, _ | .integer _ _, _ | .number _ _, _ => by
    rw [SchemaType.bare, nestedType, nestedType]
    exact mirrors_pure (undocumented_constrained _ _ _)
  | .string _ rules, _ => by
    rw [SchemaType.bare, nestedType, nestedType]
    exact mirrors_pure (undocumented_stringType rules)
  | .datetime _, _ | .unknown _, _ => by
    rw [SchemaType.bare, nestedType, nestedType]
    exact mirrors_pure (by rw [TypeExpr.undocumented])
  | .blob _ rules, _ => by
    rw [SchemaType.bare, nestedType, nestedType]
    exact mirrors_pure (by rw [TypeExpr.undocumented, BlobRules.bare])
  | .array _ items _ _, path => by
    rw [SchemaType.bare, nestedType, nestedType]
    refine (nestedType_mirrors items (path ++ ".items")).bind fun element => ?_
    exact mirrors_pure (by rw [TypeExpr.undocumented])
  | .object object, path => by
    rw [SchemaType.bare, nestedType, nestedType]
    refine (objectFields_mirrors object path).bind fun fields => ?_
    exact mirrors_pure (by rw [TypeExpr.undocumented])
  | .ref _ ref, path => by
    rw [SchemaType.bare, nestedType, nestedType]
    exact refType_mirrors ref path
  | .union _ refs, path => by
    rw [SchemaType.bare, nestedType, nestedType]
    exact (refTypes_mirrors path refs).bind fun types => mirrors_pure (undocumented_oneOf types)
  | .token _, _ | .record _ _ _, _ => by
    rw [SchemaType.bare, nestedType, nestedType]
    exact mirrors_fail _ _
  | .method _ _ ⟨_, _, _, _⟩, _ => by
    rw [SchemaType.bare, nestedType, nestedType]
    exact mirrors_fail _ _

private theorem objectFields_mirrors : (object : ObjectType SchemaType) -> (path : String) ->
    Mirrors undocumentedFields (objectFields s (bareObject object) path)
      (objectFields s object path)
  | ⟨_, required, properties, _⟩, path => by
    rw [bareObject, objectFields, objectFields]
    exact propertyFields_mirrors required (path ++ ".properties.") properties

private theorem propertyFields_mirrors (required : List String) (path : String) :
    (properties : List (Property SchemaType)) ->
    Mirrors undocumentedFields (propertyFields s required path (bareProperties properties))
      (propertyFields s required path properties)
  | [] => by
    rw [bareProperties, propertyFields]
    exact mirrors_pure rfl
  | ⟨name, type⟩ :: rest => by
    rw [bareProperties, propertyFields, propertyFields, documentation_bare]
    refine (nestedType_mirrors type (path ++ name)).bind fun expr => ?_
    refine (propertyFields_mirrors required path rest).bind fun fields => mirrors_pure ?_
    rw [undocumentedFields]

end

end Types

section Definitions

variable {s : Scope} {skipGuards : Bool}

private theorem declareGuards_mirrors (name : String) (address : Address) :
    Mirrors id (declareGuards name address) (declareGuards name address) := by
  refine (mirrors_declare ?_).bind fun _ => (mirrors_depend _).bind fun _ => mirrors_declare rfl
  rfl

private theorem declareObject_mirrors (name : String) (doc : Documentation)
    (object : ObjectType SchemaType) (path : String) (address : Address) :
    Mirrors id (declareObject s skipGuards name .none (bareObject object) path address)
      (declareObject s skipGuards name doc object path address) := by
  refine (objectFields_mirrors object path).bind fun fields => ?_
  refine (mirrors_declare ?_).bind fun _ => ?_
  · rfl
  cases skipGuards with
  | true => exact mirrors_pure rfl
  | false => exact declareGuards_mirrors name address

private theorem alias_mirrors (name : String) (doc : Documentation) (t : SchemaType)
    (path : String) :
    Mirrors id (nestedType s t.bare path >>= fun type => declare ⟨name, .none, .alias type⟩)
      (nestedType s t path >>= fun type => declare ⟨name, doc, .alias type⟩) :=
  (nestedType_mirrors t path).bind fun _ => mirrors_declare rfl

private theorem declareDefinition_mirrors (definition : Definition) :
    Mirrors id (declareDefinition s skipGuards definition.bare)
      (declareDefinition s skipGuards definition) := by
  rcases definition with ⟨name, type⟩
  have hdoc := documentation_bare type
  have hkind := SchemaType.kind_bare type
  unfold declareDefinition Definition.bare
  simp only [hdoc, hkind]
  cases type with
  | token d =>
    rw [SchemaType.bare]
    exact mirrors_declare rfl
  | record d key payload =>
    rw [SchemaType.bare]
    exact declareObject_mirrors _ _ payload _ _
  | object o =>
    rw [SchemaType.bare]
    exact declareObject_mirrors _ _ o _ _
  | _ => exact alias_mirrors _ _ _ _

end Definitions

section Contracts

variable {s : Scope}

private theorem parameterFields_mirrors (parameters : Option (ObjectType SchemaType)) :
    Mirrors undocumentedFields (parameterFields s (bareParameters parameters))
      (parameterFields s parameters) := by
  cases parameters with
  | none =>
    rw [bareParameters]
    exact mirrors_pure rfl
  | some parameters =>
    rw [bareParameters]
    exact objectFields_mirrors parameters _

private theorem undocumented_ofType (name : String) (doc : Documentation) (type : TypeExpr) :
    (Decl.ofType name doc type).undocumented = .ofType name .none type.undocumented := by
  cases type <;> rfl

private theorem declareSchema_mirrors (name path : String) (schema : Option SchemaType) :
    Mirrors id (declareSchema s name path (bareSchema schema))
      (declareSchema s name path schema) := by
  cases schema with
  | none =>
    rw [bareSchema]
    exact mirrors_pure rfl
  | some schema =>
    have hdescription : schema.bare.description = "" :=
      congrArg Documentation.body (documentation_bare schema)
    rw [bareSchema, declareSchema, hdescription]
    exact (nestedType_mirrors schema path).bind fun type =>
      mirrors_declare (undocumented_ofType name _ type)

private theorem undocumented_encodingType (encoding : Encoding) :
    (encodingType encoding).undocumented = encodingType encoding := by
  unfold encodingType
  split
  · exact undocumented_texts _
  · rw [TypeExpr.undocumented]

private theorem undocumented_payloadType (name : String) (encoding : Encoding) (hasSchema : Bool) :
    (payloadType name encoding hasSchema).undocumented =
      payloadType name encoding hasSchema := by
  unfold payloadType
  split
  · split
    · rfl
    · exact undocumented_here name
  · rw [TypeExpr.undocumented]

private theorem bodyType_mirrors (name path : String) (body : Option (Body SchemaType)) :
    Mirrors TypeExpr.undocumented (bodyType s name path (bareBody body))
      (bodyType s name path body) := by
  rcases body with _ | ⟨description, encoding, schema⟩
  · rw [bareBody]
    exact mirrors_pure (by rw [TypeExpr.undocumented])
  · have hsome : (bareSchema schema).isSome = schema.isSome := by
      cases schema <;> simp [bareSchema]
    rw [bareBody, bodyType, bodyType, hsome]
    split
    · exact mirrors_pure (by rw [TypeExpr.undocumented])
    · refine (declareSchema_mirrors name _ schema).bind fun _ => mirrors_pure ?_
      simp only [TypeExpr.undocumented, undocumentedFields, FieldSpec.plain,
        undocumented_encodingType, undocumented_payloadType]

private theorem declareSuccess_mirrors (doc : Documentation) (type : TypeExpr) :
    Mirrors TypeExpr.undocumented (declareSuccess .none type.undocumented)
      (declareSuccess doc type) := by
  have hdeclare : Mirrors TypeExpr.undocumented
      (declare (.ofType "HandlerSuccess" .none type.undocumented) >>= fun _ =>
        pure (.here "HandlerSuccess"))
      (declare (.ofType "HandlerSuccess" doc type) >>= fun _ => pure (.here "HandlerSuccess")) :=
    (mirrors_declare (undocumented_ofType _ doc type)).bind fun _ =>
      mirrors_pure (undocumented_here _)
  cases type with
  | void => exact mirrors_pure rfl
  | _ => exact hdeclare

private theorem bodyDoc_bareBody (body : Option (Body SchemaType)) :
    bodyDoc (bareBody body) = Documentation.none := by
  rcases body with _ | ⟨description, encoding, schema⟩ <;> rw [bareBody] <;> rfl

private theorem undocumented_handlerError (errors : List NamedError) :
    (handlerError errors).undocumented = handlerError (errors.map NamedError.bare) := by
  have hnames : (errors.map NamedError.bare).map NamedError.name = errors.map NamedError.name := by
    rw [List.map_map]
    rfl
  have hsilent : (errors.map NamedError.bare).filter (fun e => !e.description.isEmpty) = [] := by
    refine List.filter_eq_nil_iff.mpr fun e he => ?_
    obtain ⟨error, _, rfl⟩ := List.mem_map.mp he
    simp [NamedError.bare]
  have hempty : (errors.map NamedError.bare).isEmpty = errors.isEmpty := List.isEmpty_map
  unfold handlerError errorField
  rw [hempty, hnames, hsilent]
  split
  · rfl
  · simp only [Decl.undocumented, Declared.undocumented, List.cons_append, List.nil_append,
      undocumentedFields, undocumented_texts, TypeExpr.undocumented, FieldSpec.plain, List.map_nil,
      Documentation.none]

private theorem declareContract_mirrors (description : String) (contract : Method SchemaType) :
    Mirrors id (declareContract s "" ⟨bareParameters contract.parameters, bareBody contract.input,
        bareBody contract.output, contract.errors.map NamedError.bare⟩)
      (declareContract s description contract) := by
  unfold declareContract
  simp only [bodyDoc_bareBody]
  refine (parameterFields_mirrors contract.parameters).bind fun fields => ?_
  refine (mirrors_declare ?_).bind fun _ => ?_
  · rfl
  refine (bodyType_mirrors _ _ contract.input).bind fun input => ?_
  refine (bodyType_mirrors _ _ contract.output).bind fun output => ?_
  refine (mirrors_declare (undocumented_ofType _ (bodyDoc contract.input) input)).bind fun _ => ?_
  refine (declareSuccess_mirrors (bodyDoc contract.output) output).bind fun success => ?_
  refine (mirrors_declare (undocumented_handlerError contract.errors)).bind fun _ => ?_
  refine (mirrors_declare ?_).bind fun _ => (mirrors_declare ?_).bind fun _ => mirrors_declare rfl
  · rfl
  · rfl

end Contracts

section Documents

variable {s : Scope} {skipGuards : Bool}

private theorem declareAny_mirrors (definition : Definition) :
    Mirrors id (declareAny s skipGuards definition.bare) (declareAny s skipGuards definition) := by
  have hdefinition := @declareDefinition_mirrors s skipGuards definition
  rcases definition with ⟨name, type⟩
  cases type with
  | method d kind m =>
    unfold declareAny
    by_cases hmain : (name == mainDef) = true
    · simp only [Definition.bare, SchemaType.bare, hmain, if_true]
      exact declareContract_mirrors d m
    · simp only [Definition.bare, SchemaType.bare, hmain] at hdefinition ⊢
      exact hdefinition
  | _ => exact hdefinition

private theorem declareAll_mirrors (defs : List Definition) :
    Mirrors id (declareAll s skipGuards (defs.map Definition.bare))
      (declareAll s skipGuards defs) := by
  induction defs with
  | nil => exact mirrors_pure rfl
  | cons definition rest ih => exact (declareAny_mirrors definition).bind fun _ => ih

/-- A document without prose has the unit of the document without prose, or fails alike. -/
private theorem documentUnit_bare (registry : Registry) (skipGuards : Bool) (document : Document) :
    documentUnit registry skipGuards document.bare =
      (documentUnit registry skipGuards document).map SourceUnit.undocumented := by
  have hall := @declareAll_mirrors ⟨registry, document.id⟩ skipGuards document.defs
    (.empty document.id .document)
  refine (congrArg (Except.map Prod.snd) hall).trans ?_
  unfold documentUnit grow StateT.run
  cases declareAll ⟨registry, document.id⟩ skipGuards document.defs
    (.empty document.id .document) <;> rfl

end Documents

end Emission

namespace TypeScript

/-- Prose does not leave its comments. A comment is nothing or enclosed, and a unit differs from the
unit without prose in comments only. So descriptions, keys of records and constraints of a document
are nothing but comments in its file: without them the document fails alike, or has the same file
with fewer comments. -/
theorem prose_in_comments (style : Style) :
    (∀ doc depth, comment style doc depth = "" ∨
      Enclosed (style.indent depth) (comment style doc depth)) ∧
    (∀ u : SourceUnit, SameCode style u.undocumented u) ∧
    ∀ registry skipGuards (document : Document),
      SameOutcome (SameCode style) (documentUnit registry skipGuards document.bare)
        (documentUnit registry skipGuards document) := by
  refine ⟨comment_enclosed style, sameCode_undocumented style, ?_⟩
  intro registry skipGuards document
  rw [documentUnit_bare]
  cases documentUnit registry skipGuards document with
  | error problem => exact .error problem
  | ok u => exact .ok (sameCode_undocumented style u)

end TypeScript

end LexiconCompiler
