import LexiconCompiler.Proofs.Code.Mentions
import LexiconCompiler.Proofs.Emission.Derived
import LexiconCompiler.Proofs.Schema.Parts

set_option autoImplicit false
set_option relaxedAutoImplicit false

/-!
What derived declarations mention: a blob its library type, a reference the unit that it leads to, a
validating function the schemas, a contract the request and the response.
-/

namespace LexiconCompiler.Emission

open LexiconCompiler.Code

section Types

@[simp] theorem mentions_constrained (const : Option Literal) (enum : List Literal)
    (kind : ScalarKind) : (constrained const enum kind).mentions = [] := by
  unfold constrained
  split <;> simp [TypeExpr.oneOf, TypeExpr.mentions, memberMentions_eq]

@[simp] theorem mentions_numericType {α : Type} (literal : α → Literal) (kind : ScalarKind)
    (rules : NumericRules α) : (numericType literal kind rules).mentions = [] :=
  mentions_constrained _ _ _

@[simp] theorem mentions_stringType (rules : StringRules) : (stringType rules).mentions = [] := by
  unfold stringType
  split
  · simp [TypeExpr.mentions, memberMentions_eq]
  · exact mentions_constrained _ _ _

end Types

section Guards

@[simp] theorem mentions_guardDecl (name : String) (address : Address) :
    (guardDecl name address).mentions = [] := rfl

@[simp] theorem mentions_validateDecl (name : String) (address : Address) :
    (validateDecl name address).mentions =
      [.library .validationResult, .value lexiconsName "lexicons"] := rfl

end Guards

section Contracts

@[simp] theorem mentions_bodyExpr (name : String) (body : Option (Body SchemaType)) :
    (bodyExpr name body).mentions = [] := by
  have hencoding (encoding : Encoding) : (encodingType encoding).mentions = [] := by
    unfold encodingType
    split
    · exact TypeExpr.mentions_texts _
    · rfl
  have hpayload (encoding : Encoding) (hasSchema : Bool) :
      (payloadType name encoding hasSchema).mentions = [] := by
    unfold payloadType
    repeat' split
    all_goals rfl
  rcases body with _ | ⟨d, encoding, schema⟩
  · rfl
  · rw [bodyExpr]
    split
    · rfl
    · simp [TypeExpr.mentions, fieldMentions_eq, FieldSpec.plain, hencoding, hpayload]

@[simp] theorem mentions_successExpr (output : TypeExpr) : (successExpr output).mentions = [] := by
  unfold successExpr
  split <;> rfl

@[simp] theorem mentions_handlerError (errors : List NamedError) :
    (handlerError errors).mentions = [] := by
  have herror : fieldMentions (errorField errors) = [] := by
    unfold errorField
    split <;> simp [fieldMentions_eq, TypeExpr.mentions_texts]
  rw [fieldMentions_eq] at herror
  simp [handlerError, Decl.mentions, Declared.mentions, fieldMentions_eq, FieldSpec.plain,
    TypeExpr.mentions, herror]

@[simp] theorem mentions_handlerContext :
    handlerContext.mentions = [.library .request, .library .response] := rfl

@[simp] theorem mentions_handler (doc : Documentation) : (handler doc).mentions = [] := rfl

private theorem mentions_successDecls (doc : Documentation) {output : TypeExpr}
    (h : output.mentions = []) : (successDecls doc output).flatMap Decl.mentions = [] := by
  unfold successDecls
  split
  · rfl
  · rw [List.flatMap_cons, Decl.mentions_ofType, h, List.flatMap_nil, List.append_nil]

theorem mentions_contractDecls (s : Scope) (description : String) (contract : Method SchemaType) :
    (s.contractDecls description contract).flatMap Decl.mentions =
      fieldMentions (s.parameterExprs contract.parameters) ++
        (s.schemaDecls "InputSchema" contract.input).flatMap Decl.mentions ++
        (s.schemaDecls "OutputSchema" contract.output).flatMap Decl.mentions ++
        [.library .request, .library .response] := by
  have hsuccess := mentions_successDecls (bodyDoc contract.output)
    (mentions_bodyExpr "OutputSchema" contract.output)
  have hparameters : Decl.mentions ⟨"QueryParams", .none, .interface
      (s.parameterExprs contract.parameters) false⟩ =
        fieldMentions (s.parameterExprs contract.parameters) := rfl
  have houtput : Decl.mentions ⟨"HandlerOutput", .none, .alias (.oneOf [.here "HandlerError",
      successExpr (bodyExpr "OutputSchema" contract.output)])⟩ = [] := by
    simp [Decl.mentions, Declared.mentions, TypeExpr.oneOf, TypeExpr.here, TypeExpr.mentions,
      memberMentions_eq]
  simp [Scope.contractDecls, hparameters, Decl.mentions_ofType, hsuccess, houtput]

end Contracts

section Sources

/-- What may be mentioned: libraries, types of documents, and one constant of the schemas. -/
def Supplied (documents : List Document) (constant : String) : Mention -> Prop
  | .library _ => True
  | .type unit _ => ∃ document ∈ documents, document.id = unit
  | .value unit name => unit = lexiconsName ∧ name = constant

/-- What the declarations of a document may mention. The constant is the validator. -/
abbrev Scope.Supplies (s : Scope) : Mention -> Prop := Supplied s.registry.documents "lexicons"

variable {s : Scope}

private theorem registered_of_target {ref : String} {address : Address} {target : SchemaType}
    (h : s.target ref = .ok (address, target)) :
    ∃ document ∈ s.registry.documents, document.id = address.nsid := by
  unfold Scope.target at h
  split at h
  · cases h
  · split at h
    · cases h
    · rename_i found type hfound
      obtain ⟨rfl, rfl⟩ := Prod.mk.inj (Except.ok.inj h)
      obtain ⟨document, hd, _⟩ := Option.bind_eq_some_iff.mp hfound
      exact ⟨document, List.mem_of_find?_eq_some hd, by simpa using List.find?_some hd⟩

private theorem supplies_refExpr {ref : String} : ∀ m ∈ (s.refExpr ref).mentions, s.Supplies m := by
  intro m hm
  unfold Scope.refExpr at hm
  split at hm
  · cases hm
  · rename_i address target htarget
    split at hm
    · cases hm
    · split at hm
      · cases hm
      · obtain rfl := List.mem_singleton.mp hm
        exact registered_of_target htarget

theorem propertyExprs_eq (required : List String) (properties : List (Property SchemaType)) :
    s.propertyExprs required properties = properties.map fun property =>
      ⟨property.name, s.typeExpr property.type, !required.contains property.name,
        documentation property.type⟩ := by
  induction properties with
  | nil => rw [Scope.propertyExprs, List.map_nil]
  | cons property rest ih => rw [Scope.propertyExprs, ih, List.map_cons]

private theorem supplies_properties {required : List String}
    {properties : List (Property SchemaType)}
    (h : ∀ p ∈ properties, ∀ m ∈ (s.typeExpr p.type).mentions, s.Supplies m) :
    ∀ m ∈ fieldMentions (s.propertyExprs required properties), s.Supplies m := by
  intro m hm
  rw [propertyExprs_eq, fieldMentions_eq, List.flatMap_map, List.mem_flatMap] at hm
  obtain ⟨p, hp, hm⟩ := hm
  exact h p hp m hm

private theorem supplies_typeExpr (t : SchemaType) : ∀ m ∈
    (s.typeExpr t).mentions, s.Supplies m := by
  induction t using SchemaType.induction_parts with
  | step t ih =>
    intro m hm
    cases t with
    | array d items least most =>
      rw [Scope.typeExpr, TypeExpr.mentions] at hm
      exact ih items .items m hm
    | object o =>
      rcases o with ⟨d, required, properties, params⟩
      rw [Scope.typeExpr, Scope.objectExprs, TypeExpr.mentions] at hm
      exact supplies_properties (fun p hp => ih p.type (.property hp)) m hm
    | ref d target =>
      rw [Scope.typeExpr] at hm
      exact supplies_refExpr m hm
    | union d targets =>
      rw [Scope.typeExpr, TypeExpr.oneOf, TypeExpr.mentions, memberMentions_eq,
        List.flatMap_map, List.mem_flatMap] at hm
      obtain ⟨target, _, hm⟩ := hm
      exact supplies_refExpr m hm
    | blob d rules =>
      rw [Scope.typeExpr, TypeExpr.mentions, List.mem_singleton] at hm
      rw [hm]
      trivial
    | _ => simp [Scope.typeExpr, TypeExpr.mentions] at hm

private theorem supplies_objectExprs (o : ObjectType SchemaType) :
    ∀ m ∈ fieldMentions (s.objectExprs o), s.Supplies m := by
  rcases o with ⟨d, required, properties, params⟩
  rw [Scope.objectExprs]
  exact supplies_properties fun p _ => supplies_typeExpr p.type

private theorem supplies_objectDecls {skipGuards : Bool} {name : String} {doc : Documentation}
    {o : ObjectType SchemaType} {address : Address} :
    ∀ m ∈ (s.objectDecls skipGuards name doc o address).flatMap Decl.mentions, s.Supplies m := by
  intro m hm
  rw [Scope.objectDecls, List.flatMap_cons, List.mem_append] at hm
  rcases hm with hm | hm
  · exact supplies_objectExprs o m hm
  · cases skipGuards with
    | true => cases hm
    | false =>
      simp only [Bool.false_eq_true, if_false, List.flatMap_cons, List.flatMap_nil,
        mentions_guardDecl, mentions_validateDecl, List.append_nil, List.nil_append,
        List.mem_cons, List.not_mem_nil, or_false] at hm
      rcases hm with rfl | rfl
      · trivial
      · exact ⟨rfl, rfl⟩

private theorem supplies_schemaDecls {name : String} {body : Option (Body SchemaType)} :
    ∀ m ∈ (s.schemaDecls name body).flatMap Decl.mentions, s.Supplies m := by
  intro m hm
  unfold Scope.schemaDecls at hm
  split at hm
  · split at hm
    · cases hm
    · rw [List.flatMap_singleton, Decl.mentions_ofType] at hm
      exact supplies_typeExpr _ m hm
  · cases hm

private theorem supplies_contractDecls {description : String} {contract : Method SchemaType} :
    ∀ m ∈ (s.contractDecls description contract).flatMap Decl.mentions, s.Supplies m := by
  intro m hm
  simp only [mentions_contractDecls, List.mem_append, List.mem_cons, List.not_mem_nil,
    or_false] at hm
  rcases hm with ((hm | hm) | hm) | rfl | rfl
  · cases hp : contract.parameters with
    | none =>
      rw [hp] at hm
      cases hm
    | some parameters =>
      rw [hp] at hm
      exact supplies_objectExprs parameters m hm
  · exact supplies_schemaDecls m hm
  · exact supplies_schemaDecls m hm
  · trivial
  · trivial

theorem supplies_definitionDecls {skipGuards : Bool} {definition : Definition} :
    ∀ m ∈ (s.definitionDecls skipGuards definition).flatMap Decl.mentions, s.Supplies m := by
  intro m hm
  rcases definition with ⟨name, t⟩
  cases t with
  | token d => cases hm
  | record d key payload => exact supplies_objectDecls m hm
  | object o => exact supplies_objectDecls m hm
  | method d kind contract => exact supplies_contractDecls m hm
  | _ =>
    rw [Scope.definitionDecls, List.flatMap_singleton] at hm
    exact supplies_typeExpr _ m hm

end Sources

end LexiconCompiler.Emission
