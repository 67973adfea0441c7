import LexiconCompiler.Proofs.Emission.Needs
import LexiconCompiler.Proofs.Schema.Validation

set_option autoImplicit false
set_option relaxedAutoImplicit false

/-!
The contract of a method: which declarations it consists of, in which order, and what the bodies
make of them. A body without a media type carries nothing; any other body is a pair of its media
type and of its schema, of bytes, or of either.
-/

namespace LexiconCompiler

open LexiconCompiler.Code

def carries (body : Option (Body SchemaType)) : Bool :=
  body.any fun b => !b.encoding.values.isEmpty

def carriesSchema (body : Option (Body SchemaType)) : Bool :=
  body.any fun b => !b.encoding.values.isEmpty && b.schema.isSome

/-- The type of a media type: the one that is declared, or one of the declared alternatives. -/
inductive Encoding.Typed : Encoding -> TypeExpr -> Prop
  | single (value : String) : Typed ⟨[value], false⟩ (.literal (.str value))
  | several (values : List String) :
      Typed ⟨values, true⟩ (.union (values.map fun value => .literal (.str value)) false none)

/-- The type of what a body holds, given the name of its schema: bytes without a schema, and either
of both if the media type is one of several. -/
inductive Body.Holds (name : String) : Body SchemaType -> TypeExpr -> Prop
  | bytes {d : String} {encoding : Encoding} : Holds name ⟨d, encoding, none⟩ .bytes
  | schema {d : String} {values : List String} {schema : SchemaType} :
      Holds name ⟨d, ⟨values, false⟩, some schema⟩ (.ref none name)
  | either {d : String} {values : List String} {schema : SchemaType} :
      Holds name ⟨d, ⟨values, true⟩, some schema⟩ (.union [.ref none name, .bytes] false none)

/-- The fields of a body: its media type, and what it holds. -/
inductive Body.Fields (name : String) (b : Body SchemaType) : List (FieldSpec TypeExpr) -> Prop
  | mk {encoding payload : TypeExpr} : b.encoding.Typed encoding → b.Holds name payload →
      Fields name b [.plain "encoding" encoding, .plain "body" payload]

def Shows (decls : List Decl) (name : String) (declared : Declared) : Prop :=
  ∃ decl ∈ decls, decl.name = name ∧ decl.declared = declared

/-- The fields of a failure. The one that names the declared failures is there if there are any. -/
structure ErrorFields (errors : List NamedError) (fields : List (FieldSpec TypeExpr)) : Prop where
  names : fields.map FieldSpec.name =
    ["status", "message"] ++ if errors.isEmpty then [] else ["error"]
  error : ∀ field ∈ fields, field.name = "error" → field.optional = true ∧
    field.type = .union (errors.map fun e => .literal (.str e.name)) false none

def contractOrder (kind : MethodKind) (m : Method SchemaType) : List String :=
  ["QueryParams"] ++
  (if kind = .procedure ∧ carriesSchema m.input = true then ["InputSchema"] else []) ++
  (if carriesSchema m.output = true then ["OutputSchema"] else []) ++
  ["HandlerInput"] ++
  (if carries m.output = true then ["HandlerSuccess"] else []) ++
  ["HandlerError", "HandlerOutput", "HandlerContext", "Handler"]

/-- Declarations make up the contract of a method. -/
structure IsContract (kind : MethodKind) (m : Method SchemaType) (decls : List Decl) : Prop where
  names : decls.map Decl.name = contractOrder kind m
  void_iff : Shows decls "HandlerInput" (.alias .void) ↔ kind = .query ∨ carries m.input = false
  input : kind = .procedure → ∀ b ∈ m.input, carries (some b) = true →
    ∃ fields, b.Fields "InputSchema" fields ∧ Shows decls "HandlerInput" (.interface fields false)
  success : ∀ b ∈ m.output, carries (some b) = true →
    ∃ fields, b.Fields "OutputSchema" fields ∧
      Shows decls "HandlerSuccess" (.interface fields false)
  output : Shows decls "HandlerOutput" (.alias (.union
    [.ref none "HandlerError", if carries m.output then .ref none "HandlerSuccess" else .void]
    false none))
  error : ∃ fields, ErrorFields m.errors fields ∧
    Shows decls "HandlerError" (.interface fields false)
  handler : Shows decls "Handler" (.alias (.func
    [.plain "params" (.ref none "QueryParams"), .plain "input" (.ref none "HandlerInput"),
      .plain "ctx" (.ref none "HandlerContext")] (.ref none "HandlerOutput") true))

namespace Emission

section Bodies

variable {name : String} {body : Option (Body SchemaType)}

private theorem exists_fields {b : Body SchemaType} (hs : b.encoding.Shaped)
    (h : b.encoding.values ≠ []) :
    b.Fields name [.plain "encoding" (encodingType b.encoding),
      .plain "body" (payloadType name b.encoding b.schema.isSome)] := by
  rcases b with ⟨d, ⟨values, multi⟩, schema⟩
  refine .mk ?_ ?_
  · cases multi with
    | true => exact .several values
    | false =>
      have hlength : values.length ≤ 1 := hs
      rcases values with _ | ⟨value, _ | ⟨_, _⟩⟩
      · exact absurd rfl h
      · exact .single value
      · simp at hlength
  · cases schema with
    | none => exact .bytes
    | some schema => cases multi with
      | true => exact .either
      | false => exact .schema

private theorem bodyExpr_cases (name : String) (hs : ∀ b ∈ body, b.encoding.Shaped) :
    (carries body = false ∧ bodyExpr name body = .void) ∨
      (carries body = true ∧ ∃ b fields, body = some b ∧ b.Fields name fields ∧
        bodyExpr name body = .object fields false) := by
  rcases body with _ | b
  · exact Or.inl ⟨rfl, rfl⟩
  · by_cases hvalues : b.encoding.values = []
    · refine Or.inl ⟨by simp [carries, hvalues], ?_⟩
      rw [bodyExpr, if_pos (by simp [Encoding.isZero, hvalues])]
    · refine Or.inr ⟨by simp [carries, hvalues], b, _, rfl, exists_fields (hs b rfl) hvalues, ?_⟩
      rw [bodyExpr, if_neg (by simp [Encoding.isZero, hvalues])]

private theorem errorFields_handlerError (errors : List NamedError) :
    ∃ fields, ErrorFields errors fields ∧
      (handlerError errors).declared = .interface fields false := by
  refine ⟨_, ⟨?_, ?_⟩, rfl⟩
  · cases errors <;> rfl
  · intro field hf hname
    cases errors with
    | nil =>
      simp only [errorField, List.isEmpty_nil, if_true, List.append_nil, List.mem_cons,
        List.not_mem_nil, or_false] at hf
      rcases hf with rfl | rfl <;> simp [FieldSpec.plain] at hname
    | cons e rest =>
      simp only [errorField, List.isEmpty_cons, Bool.false_eq_true, if_false, List.cons_append,
        List.nil_append, List.mem_cons, List.not_mem_nil, or_false] at hf
      rcases hf with rfl | rfl | rfl
      · simp [FieldSpec.plain] at hname
      · simp at hname
      · exact ⟨rfl, by simp [TypeExpr.texts, TypeExpr.oneOf]⟩

end Bodies

section Steps

variable {s : Scope} {u v : SourceUnit} {a : Unit}

private theorem decls_of_declare {decl : Decl} (h : declare decl u = .ok (a, v)) :
    v.decls = u.decls ++ [decl] := by
  obtain ⟨_, rfl⟩ := declare_eq_ok.mp h
  rfl

private theorem decls_of_parameterFields {parameters : Option (ObjectType SchemaType)}
    {fields : List (FieldSpec TypeExpr)} (h : parameterFields s parameters u = .ok (fields, v)) :
    v.decls = u.decls := by
  rw [(parameterFields_sound "" h).1, SourceUnit.decls_extend, List.append_nil]

private theorem decls_of_bodyType {name path : String} {body : Option (Body SchemaType)}
    {type : TypeExpr} (h : bodyType s name path body u = .ok (type, v)) :
    type = bodyExpr name body ∧ ∃ schemas, v.decls = u.decls ++ schemas ∧
      schemas.map Decl.name = if carriesSchema body = true then [name] else [] := by
  have htype := (bodyType_leaves "" h).1
  refine ⟨htype, ?_⟩
  rcases body with _ | ⟨d, encoding, schema⟩
  · obtain ⟨_, rfl⟩ := pure_eq_ok.mp h
    exact ⟨[], (List.append_nil _).symm, rfl⟩
  · simp only [bodyType] at h
    cases hzero : encoding.values.isEmpty with
    | true =>
      rw [Encoding.isZero, hzero, if_pos rfl] at h
      obtain ⟨_, rfl⟩ := pure_eq_ok.mp h
      exact ⟨[], (List.append_nil _).symm, by simp [carriesSchema, hzero]⟩
    | false =>
      simp only [Encoding.isZero, hzero, Bool.false_eq_true, if_false, bind_eq_ok, pure_eq_ok] at h
      obtain ⟨_, w, hschema, _, rfl⟩ := h
      cases schema with
      | none =>
        obtain ⟨_, rfl⟩ := pure_eq_ok.mp hschema
        exact ⟨[], (List.append_nil _).symm, by simp [carriesSchema]⟩
      | some t =>
        obtain ⟨schema, _, hnested, hdeclare⟩ := bind_eq_ok.mp hschema
        obtain ⟨rfl, _⟩ := nestedType_sound "" hnested
        have hdecls := decls_of_declare hdeclare
        rw [SourceUnit.decls_extend, List.append_nil] at hdecls
        exact ⟨_, hdecls, by simp [carriesSchema, hzero, Decl.name_ofType]⟩

private theorem decls_of_declareSuccess {doc : Documentation} {output success : TypeExpr}
    (h : declareSuccess doc output u = .ok (success, v)) :
    success = successExpr output ∧ v.decls = u.decls ++ successDecls doc output := by
  cases output with
  | void =>
    obtain ⟨rfl, rfl⟩ := pure_eq_ok.mp h
    exact ⟨rfl, (List.append_nil _).symm⟩
  | _ =>
    simp only [declareSuccess, bind_eq_ok, pure_eq_ok] at h
    obtain ⟨_, w, hdeclare, rfl, rfl⟩ := h
    exact ⟨rfl, decls_of_declare hdeclare⟩

def contractParts (description : String) (m : Method SchemaType)
    (fields : List (FieldSpec TypeExpr)) (schemas : List Decl) : List Decl :=
  let output := bodyExpr "OutputSchema" m.output
  ⟨"QueryParams", .none, .interface fields false⟩ :: schemas ++
    .ofType "HandlerInput" (bodyDoc m.input) (bodyExpr "InputSchema" m.input) ::
    successDecls (bodyDoc m.output) output ++
    [handlerError m.errors,
      ⟨"HandlerOutput", .none, .alias (.oneOf [.here "HandlerError", successExpr output])⟩,
      handlerContext, handler ⟨description, []⟩]

def schemaNames (m : Method SchemaType) : List String :=
  (if carriesSchema m.input = true then ["InputSchema"] else []) ++
    if carriesSchema m.output = true then ["OutputSchema"] else []

private theorem decls_of_declareContract {description : String} {m : Method SchemaType}
    (h : declareContract s description m u = .ok (a, v)) :
    ∃ fields schemas, schemas.map Decl.name = schemaNames m ∧
      v.decls = u.decls ++ contractParts description m fields schemas := by
  simp only [declareContract, bind_eq_ok] at h
  obtain ⟨fields, u₁, hparameters, _, u₂, hquery, input, u₃, hinput, output, u₄, houtput, _, u₅,
    htakes, success, u₆, hsuccess, _, u₇, herror, _, u₈, hgives, _, u₉, hcontext, hhandler⟩ := h
  obtain ⟨rfl, inputs, dinput, hinputs⟩ := decls_of_bodyType hinput
  obtain ⟨rfl, outputs, doutput, houtputs⟩ := decls_of_bodyType houtput
  obtain ⟨rfl, dsuccess⟩ := decls_of_declareSuccess hsuccess
  refine ⟨fields, inputs ++ outputs, by rw [List.map_append, hinputs, houtputs, schemaNames], ?_⟩
  rw [decls_of_declare hhandler, decls_of_declare hcontext, decls_of_declare hgives,
    decls_of_declare herror, dsuccess, decls_of_declare htakes, doutput, dinput,
    decls_of_declare hquery, decls_of_parameterFields hparameters]
  simp [contractParts]

end Steps

section Policy

variable {kind : MethodKind} {m : Method SchemaType}

private theorem exists_bodyFields (name : String) {b : Body SchemaType} (hs : b.encoding.Shaped)
    (hc : carries (some b) = true) : ∃ fields, b.Fields name fields ∧ ∀ title doc,
      Decl.ofType title doc (bodyExpr name (some b)) = ⟨title, doc, .interface fields false⟩ ∧
        successDecls doc (bodyExpr name (some b)) =
          [⟨"HandlerSuccess", doc, .interface fields false⟩] := by
  have hbody : ∀ other ∈ some b, other.encoding.Shaped := by
    rintro _ ⟨⟩
    exact hs
  rcases bodyExpr_cases name hbody with ⟨hnot, _⟩ | ⟨_, _, fields, he, hf, htype⟩
  · rw [hc] at hnot
    cases hnot
  · obtain rfl := Option.some.inj he
    refine ⟨fields, hf, fun title doc => ?_⟩
    rw [htype]
    exact ⟨rfl, rfl⟩

private theorem success_cases (doc : Documentation) {body : Option (Body SchemaType)}
    (hs : ∀ b ∈ body, b.encoding.Shaped) :
    (successDecls doc (bodyExpr "OutputSchema" body)).map Decl.name =
        (if carries body = true then ["HandlerSuccess"] else []) ∧
      successExpr (bodyExpr "OutputSchema" body) =
        if carries body then .ref none "HandlerSuccess" else .void := by
  rcases bodyExpr_cases "OutputSchema" hs with ⟨hc, htype⟩ | ⟨hc, _, _, _, _, htype⟩
  all_goals
    rw [htype, hc]
    exact ⟨rfl, rfl⟩

private theorem nodup_contractOrder : (contractOrder kind m).Nodup := by
  unfold contractOrder
  split <;> split <;> split <;> decide

private theorem schemaNames_eq (hm : m.Shaped kind) :
    schemaNames m = (if kind = .procedure ∧ carriesSchema m.input = true then ["InputSchema"]
      else []) ++ if carriesSchema m.output = true then ["OutputSchema"] else [] := by
  cases kind with
  | query =>
    rw [schemaNames, hm.input rfl]
    rfl
  | procedure => simp [schemaNames]

private theorem names_contractParts (hm : m.Shaped kind) (description : String)
    (fields : List (FieldSpec TypeExpr)) {schemas : List Decl}
    (hschemas : schemas.map Decl.name = schemaNames m) :
    (contractParts description m fields schemas).map Decl.name = contractOrder kind m := by
  have houtput := (Method.forall_bodies.mp hm.encodings).2
  simp only [contractParts, List.map_append, List.map_cons, List.map_nil, hschemas,
    Decl.name_ofType, (success_cases _ houtput).1, schemaNames_eq hm]
  simp [contractOrder, handlerError, handlerContext, handler]

/-- The declarations of a contract follow the policy for bodies. -/
private theorem isContract_contractParts (hm : m.Shaped kind) (description : String)
    (fields : List (FieldSpec TypeExpr)) {schemas : List Decl}
    (hschemas : schemas.map Decl.name = schemaNames m) :
    IsContract kind m (contractParts description m fields schemas) := by
  obtain ⟨hinput, houtput⟩ := Method.forall_bodies.mp hm.encodings
  have hnames := names_contractParts hm description fields hschemas
  generalize hdecls : contractParts description m fields schemas = decls at hnames ⊢
  have hshows (decl : Decl) (h : decl ∈ contractParts description m fields schemas) :
      Shows decls decl.name decl.declared := ⟨decl, hdecls ▸ h, rfl, rfl⟩
  have htakes := hshows
    (.ofType "HandlerInput" (bodyDoc m.input) (bodyExpr "InputSchema" m.input))
    (by simp [contractParts])
  -- No name is declared twice, so there is one way in which a name is declared.
  have hunique {name : String} {one other : Declared} (h : Shows decls name one)
      (k : Shows decls name other) : one = other := by
    obtain ⟨a, ha, rfl, rfl⟩ := h
    obtain ⟨b, hb, hname, rfl⟩ := k
    rw [List.inj_on_of_nodup_map (hnames ▸ nodup_contractOrder) hb ha hname]
  rw [Decl.name_ofType] at htakes
  refine ⟨hnames, ?_, ?_, ?_, ?_, ?_, ?_⟩
  · rcases bodyExpr_cases "InputSchema" hinput with ⟨hc, htype⟩ | ⟨hc, b, fields, hb, _, htype⟩
    · rw [htype] at htakes
      exact iff_of_true htakes (Or.inr hc)
    · rw [htype] at htakes
      refine iff_of_false (fun hvoid => ?_) ?_
      · cases hunique htakes hvoid
      · rintro (rfl | hnot)
        · rw [hm.input rfl] at hb
          cases hb
        · rw [hnot] at hc
          cases hc
  · intro _ b hb hc
    obtain ⟨fields, hf, hdeclared⟩ := exists_bodyFields "InputSchema" (hinput b hb) hc
    rw [hb, (hdeclared _ _).1] at htakes
    exact ⟨fields, hf, htakes⟩
  · intro b hb hc
    obtain ⟨fields, hf, hdeclared⟩ := exists_bodyFields "OutputSchema" (houtput b hb) hc
    have hgives : successDecls (bodyDoc m.output) (bodyExpr "OutputSchema" m.output) =
        [⟨"HandlerSuccess", bodyDoc m.output, .interface fields false⟩] := by
      rw [show m.output = some b from hb]
      exact (hdeclared "HandlerSuccess" _).2
    exact ⟨fields, hf, hshows
      ⟨"HandlerSuccess", bodyDoc m.output, .interface fields false⟩
      (by simp [contractParts, hgives])⟩
  · rw [← (success_cases .none houtput).2]
    exact hshows ⟨"HandlerOutput", .none, .alias (.oneOf [.here "HandlerError",
      successExpr (bodyExpr "OutputSchema" m.output)])⟩ (by simp [contractParts])
  · obtain ⟨fields, hfields, hdeclared⟩ := errorFields_handlerError m.errors
    refine ⟨fields, hfields, ?_⟩
    rw [← hdeclared]
    exact hshows (handlerError m.errors) (by simp [contractParts])
  · exact hshows (handler ⟨description, []⟩) (by simp [contractParts])

end Policy

section Documents

variable {s : Scope} {skipGuards : Bool} {u v : SourceUnit} {a : Unit}

private theorem declareAll_append (front back : List Definition) :
    declareAll s skipGuards (front ++ back) =
      declareAll s skipGuards front >>= fun _ => declareAll s skipGuards back := by
  induction front with
  | nil => exact (pure_bind _ _).symm
  | cons definition rest ih => rw [List.cons_append, declareAll, declareAll, ih, bind_assoc]

private theorem decls_of_declareAll {defs : List Definition}
    (h : declareAll s skipGuards defs u = .ok (a, v)) : ∃ rest, v.decls = u.decls ++ rest := by
  obtain ⟨decls, rfl, _⟩ := declareAll_leaves h
  exact ⟨decls, rfl⟩

private theorem grow_of_ok {name : String} {kind : UnitKind} {emission : Emit Unit}
    (h : emission (.empty name kind) = .ok (a, v)) : grow name kind emission = .ok v := by
  have hrun : emission.run (.empty name kind) = .ok (a, v) := h
  rw [grow, hrun]
  rfl

end Documents

end Emission

namespace Document

open LexiconCompiler.Emission

/-- Declarations that a definition contributes to the unit of its document: it adds them to what the
definitions before it give, and those behind it leave them in place. -/
inductive Contributes (registry : Registry) (skipGuards : Bool) (document : Document)
    (u : SourceUnit) (definition : Definition) (decls : List Decl) : Prop
  | mk {front back : List Definition} {v w : SourceUnit} {rest : List Decl} :
      document.defs = front ++ definition :: back →
      documentUnit registry skipGuards { document with defs := front } = .ok v →
      documentUnit registry skipGuards { document with defs := front ++ [definition] } = .ok w →
      w.decls = v.decls ++ decls → u.decls = w.decls ++ rest →
      Contributes registry skipGuards document u definition decls

/-- The principal definition of a document contributes the contract of its method, whatever is
defined before and behind it. -/
theorem main_contract {node : Markup.Node} {document : Document}
    (hread : ofNode node = .ok document) {registry : Registry} {skipGuards : Bool}
    {u : SourceUnit} (h : documentUnit registry skipGuards document = .ok u)
    {description : String} {kind : MethodKind} {m : Method SchemaType}
    (hmain : document.def? mainDef = some (.method description kind m)) :
    ∃ decls, document.Contributes registry skipGuards u
      ⟨mainDef, .method description kind m⟩ decls ∧ IsContract kind m decls := by
  have hw := ((ofNode_eq_ok_iff node document).mp hread).2.1
  obtain ⟨⟨name, _⟩, hfind, rfl⟩ := Option.map_eq_some_iff.mp hmain
  obtain ⟨hname, front, back, hdefs, _⟩ := List.find?_eq_some_iff_append.mp hfind
  obtain rfl : name = mainDef := eq_of_beq hname
  -- The derivation is cut in front of the definition and behind it.
  obtain ⟨_, hall⟩ := grow_eq_ok h
  rw [hdefs, declareAll_append] at hall
  obtain ⟨_, v, hfront, hall⟩ := bind_eq_ok.mp hall
  obtain ⟨_, w, hcontract, hback⟩ := bind_eq_ok.mp hall
  have hupto : declareAll ⟨registry, document.id⟩ skipGuards
      (front ++ [⟨mainDef, .method description kind m⟩]) (.empty document.id .document) =
        .ok (⟨⟩, w) := by
    rw [declareAll_append]
    exact bind_eq_ok.mpr ⟨_, v, hfront, bind_eq_ok.mpr ⟨_, w, hcontract, rfl⟩⟩
  obtain ⟨rest, hrest⟩ := decls_of_declareAll hback
  obtain ⟨fields, schemas, hschemas, hdecls⟩ := decls_of_declareContract hcontract
  have hshaped := ((hw.defs _ (List.mem_of_find?_eq_some hfind)).valid _ (.refl _)).shaped
  exact ⟨_, .mk hdefs (grow_of_ok hfront) (grow_of_ok hupto) hdecls hrest,
    isContract_contractParts hshaped description fields hschemas⟩

open LexiconCompiler.Markup

/-- A procedure between two other definitions. It takes an object in one of several media types, and
gives plain text. -/
def submitNode : Node :=
  .record [
    ("lexicon", some (.scalar .int "1")),
    ("id", some (.text "com.example.submit")),
    ("defs", some (.record [
      ("state", some (.record [("type", some (.text "token"))])),
      ("main", some (.record [
        ("type", some (.text "procedure")),
        ("input", some (.record [
          ("encoding", some (.list .text ["application/json", "text/plain"])),
          ("schema", some (.record [
            ("type", some (.text "object")),
            ("properties", some (.record [
              ("text", some (.record [("type", some (.text "string"))]))]))]))])),
        ("output", some (.record [("encoding", some (.text "text/plain"))])),
        ("errors", some (.sequence [.record [("name", some (.text "TooLong"))]]))])),
      ("label", some (.record [("type", some (.text "string"))]))]))]

def submitMethod : Method SchemaType :=
  ⟨none,
    some ⟨"", ⟨["application/json", "text/plain"], true⟩, some (.object ⟨"", [],
      [⟨"text", .string "" ⟨none, none, none, none, [], []⟩⟩], false⟩)⟩,
    some ⟨"", ⟨["text/plain"], false⟩, none⟩, [⟨"TooLong", ""⟩]⟩

def submit : Document :=
  ⟨⟨1, "com.example.submit", none, "",
    [⟨"state", .token ""⟩, ⟨"main", .method "" .procedure submitMethod⟩,
      ⟨"label", .string "" ⟨none, none, none, none, [], []⟩⟩]⟩,
    "", [], ⟨["com", "example", "submit"]⟩, submitNode⟩

theorem main_contract_submit :
    ∃ u, ofNode submitNode = .ok submit ∧ documentUnit ⟨[submit]⟩ false submit = .ok u ∧
      u.decls.map Decl.name =
        ["STATE", "QueryParams", "InputSchema", "HandlerInput", "HandlerSuccess", "HandlerError",
          "HandlerOutput", "HandlerContext", "Handler", "Label"] ∧
      submit.def? mainDef = some (.method "" .procedure submitMethod) ∧
      ∃ decls, submit.Contributes ⟨[submit]⟩ false u
        ⟨mainDef, .method "" .procedure submitMethod⟩ decls ∧
          IsContract .procedure submitMethod decls := by
  have hread : ofNode submitNode = .ok submit := rfl
  have hunit : ∃ u, documentUnit ⟨[submit]⟩ false submit = .ok u ∧
      u.decls.map Decl.name =
        ["STATE", "QueryParams", "InputSchema", "HandlerInput", "HandlerSuccess", "HandlerError",
          "HandlerOutput", "HandlerContext", "Handler", "Label"] := ⟨_, rfl, by decide +kernel⟩
  obtain ⟨u, hu, hnames⟩ := hunit
  exact ⟨u, hread, hu, hnames, rfl, main_contract hread hu rfl⟩

end Document

end LexiconCompiler
