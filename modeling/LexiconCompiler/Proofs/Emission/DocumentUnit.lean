import LexiconCompiler.Proofs.Emission.Growth

set_option autoImplicit false
set_option relaxedAutoImplicit false

/-!
The unit of a document: all names in it are bound, and it declares the types of its definitions and
the handler of its method.
-/

namespace LexiconCompiler.Emission

open LexiconCompiler.Code

section Definitions

variable {s : Scope} {u v : SourceUnit} {a : Unit}

private theorem bound_guardDecl {known : Known} {name : String} (address : Address)
    (h : known none name) : (guardDecl name address).Bound known where
  params := by
    intro param hp
    obtain rfl := List.mem_singleton.mp hp
    exact .scalar
  result := by
    intro type ht
    obtain rfl := Option.some.inj ht
    exact .predicate (List.mem_singleton.mpr rfl) (.ref h)
  body := by
    intro stmt hs
    obtain rfl := List.mem_singleton.mp hs
    exact .tagCheck (List.mem_singleton.mpr rfl)

private theorem bound_validateDecl {known : Known} (name : String) (address : Address)
    (h : known (some lexiconsName) "lexicons") : (validateDecl name address).Bound known where
  params := by
    intro param hp
    obtain rfl := List.mem_singleton.mp hp
    exact .scalar
  result := by
    intro type ht
    obtain rfl := Option.some.inj ht
    exact .runtime
  body := by
    intro stmt hs
    obtain rfl := List.mem_singleton.mp hs
    refine .call (.member (.imported h)) fun arg harg => ?_
    simp only [List.mem_cons, List.not_mem_nil, or_false] at harg
    rcases harg with rfl | rfl
    · exact .str
    · exact .ident (Or.inl (List.mem_singleton.mpr rfl))

private theorem declareGuards_grows {name : String} {address : Address}
    (hd : u.declares name = true) (h : declareGuards name address u = .ok (a, v)) :
    Grows s.Offers u v := by
  simp only [declareGuards, bind_eq_ok, depend_eq_ok] at h
  obtain ⟨_, w, hguard, _, _, rfl, hvalidate⟩ := h
  have hg := (grows_declare s.Offers hguard (bound_guardDecl address (Or.inr ⟨rfl, hd⟩))).1
  have hv := (grows_declare s.Offers hvalidate
    (bound_validateDecl name address (Or.inl .validator))).1
  exact hg.trans ((keeps_addDep w lexiconsName).grows.trans hv)

private theorem declareObject_grows {skipGuards : Bool} {name : String} {doc : Documentation}
    {o : ObjectType SchemaType} {path : String} {address : Address} (ha : s.AdmitsIn (.object o))
    (h : declareObject s skipGuards name doc o path address u = .ok (a, v)) :
    Grows s.Offers u v ∧ v.declares name = true := by
  simp only [declareObject, bind_eq_ok] at h
  obtain ⟨fields, w, hfields, _, w', hdeclare, hrest⟩ := h
  obtain ⟨hkeeps, hbound⟩ := objectFields_bound ha hfields
  obtain ⟨hgrows, hdeclares⟩ := grows_declare s.Offers hdeclare
    fun field hf => (hbound field hf).mono fun _ _ hk => Or.inl hk
  have hobject := hkeeps.grows.trans hgrows
  split at hrest
  · obtain ⟨_, rfl⟩ := pure_eq_ok.mp hrest
    exact ⟨hobject, hdeclares⟩
  · have hguards := declareGuards_grows (s := s) hdeclares hrest
    exact ⟨hobject.trans hguards, hguards.declares hdeclares⟩

private theorem declareDefinition_grows {skipGuards : Bool} {definition : Definition}
    (ha : s.AdmitsIn definition.type)
    (h : declareDefinition s skipGuards definition u = .ok (a, v)) :
    Grows s.Offers u v ∧ (definition.type.kind ≠ .token →
      v.declares (typeName definition.name definition.type.kind) = true) := by
  rcases definition with ⟨name, t⟩
  cases t with
  | token d =>
    simp only [declareDefinition] at h
    have hbound : Decl.Bound (Visible s.Offers u) ⟨Casing.screaming name,
        documentation (.token d), .const none (.str (Address.text ⟨s.document, name⟩))⟩ :=
      ⟨by simp, .str⟩
    exact ⟨(grows_declare s.Offers h hbound).1, fun hk => absurd rfl hk⟩
  | record d key payload =>
    simp only [declareDefinition] at h
    obtain ⟨hg, hd⟩ := declareObject_grows (ha.part .payload) h
    exact ⟨hg, fun _ => hd⟩
  | object o =>
    simp only [declareDefinition] at h
    obtain ⟨hg, hd⟩ := declareObject_grows ha h
    exact ⟨hg, fun _ => hd⟩
  | _ =>
    simp only [declareDefinition, bind_eq_ok] at h
    obtain ⟨type, w, htype, hdeclare⟩ := h
    obtain ⟨hkeeps, hbound⟩ := nestedType_bound ha htype
    obtain ⟨hg, hd⟩ := grows_declare s.Offers hdeclare
      (hbound.mono fun _ _ hk => Or.inl hk)
    exact ⟨hkeeps.grows.trans hg, fun _ => hd⟩

end Definitions

section Contracts

variable {s : Scope} {u v : SourceUnit} {a : Unit}

private theorem bound_encodingType (known : Known) (encoding : Encoding) :
    (encodingType encoding).Bound known [] := by
  unfold encodingType
  split
  · exact TypeExpr.bound_texts known [] encoding.values
  · exact .literal

private theorem bound_payloadType {known : Known} {name : String} (encoding : Encoding)
    {hasSchema : Bool} (h : hasSchema = true → known none name) :
    (payloadType name encoding hasSchema).Bound known [] := by
  unfold payloadType
  split
  · rename_i hs
    split
    · refine .union fun member hm => ?_
      simp only [List.mem_cons, List.not_mem_nil, or_false] at hm
      rcases hm with rfl | rfl
      · exact .ref (h hs)
      · exact .bytes
    · exact .ref (h hs)
  · exact .bytes

private theorem declareSchema_grows {name path : String} {schema : Option SchemaType}
    (ha : ∀ t ∈ schema, s.AdmitsIn t) (h : declareSchema s name path schema u = .ok (a, v)) :
    Grows s.Offers u v ∧ (schema.isSome = true → v.declares name = true) := by
  cases schema with
  | none =>
    obtain ⟨_, rfl⟩ := pure_eq_ok.mp h
    exact ⟨.refl _ u, by simp⟩
  | some t =>
    simp only [declareSchema, bind_eq_ok] at h
    obtain ⟨type, w, htype, hdeclare⟩ := h
    obtain ⟨hkeeps, hbound⟩ := nestedType_bound (ha t rfl) htype
    obtain ⟨hgrows, hdeclares⟩ := grows_declare s.Offers hdeclare
      (Decl.bound_ofType (hbound.mono fun _ _ hk => Or.inl hk))
    rw [Decl.name_ofType] at hdeclares
    exact ⟨hkeeps.grows.trans hgrows, fun _ => hdeclares⟩

private theorem bodyType_grows {name path : String} {body : Option (Body SchemaType)}
    (ha : ∀ b, body = some b → ∀ t, b.schema = some t → s.AdmitsIn t) {type : TypeExpr}
    (h : bodyType s name path body u = .ok (type, v)) :
    Grows s.Offers u v ∧ type.Bound (Visible s.Offers v) [] := by
  rcases body with _ | ⟨d, encoding, schema⟩
  · obtain ⟨rfl, rfl⟩ := pure_eq_ok.mp h
    exact ⟨.refl _ u, .void⟩
  · simp only [bodyType] at h
    split at h
    · obtain ⟨rfl, rfl⟩ := pure_eq_ok.mp h
      exact ⟨.refl _ u, .void⟩
    · simp only [bind_eq_ok, pure_eq_ok] at h
      obtain ⟨_, w, hschema, rfl, rfl⟩ := h
      obtain ⟨hgrows, hdeclares⟩ := declareSchema_grows (ha _ rfl) hschema
      refine ⟨hgrows, .object fun field hf => ?_⟩
      simp only [List.mem_cons, List.not_mem_nil, or_false] at hf
      rcases hf with rfl | rfl
      · exact bound_encodingType _ encoding
      · exact bound_payloadType encoding fun hs => Or.inr ⟨rfl, hdeclares hs⟩

private theorem declareSuccess_grows {doc : Documentation} {type success : TypeExpr}
    (hb : type.Bound (Visible s.Offers u) []) (h : declareSuccess doc type u = .ok (success, v)) :
    Grows s.Offers u v ∧ success.Bound (Visible s.Offers v) [] := by
  unfold declareSuccess at h
  split at h
  · obtain ⟨rfl, rfl⟩ := pure_eq_ok.mp h
    exact ⟨.refl _ u, .void⟩
  · simp only [bind_eq_ok, pure_eq_ok] at h
    obtain ⟨_, w, hdeclare, rfl, rfl⟩ := h
    obtain ⟨hgrows, hdeclares⟩ := grows_declare s.Offers hdeclare (Decl.bound_ofType hb)
    rw [Decl.name_ofType] at hdeclares
    exact ⟨hgrows, .ref (Or.inr ⟨rfl, hdeclares⟩)⟩

private theorem bound_handlerError (known : Known) (errors : List NamedError) :
    (handlerError errors).Bound known := by
  intro field hf
  simp only [List.cons_append, List.nil_append, List.mem_cons] at hf
  rcases hf with rfl | rfl | hf
  · exact .scalar
  · exact .scalar
  · unfold errorField at hf
    split at hf
    · cases hf
    · obtain rfl := List.mem_singleton.mp hf
      exact TypeExpr.bound_texts known [] _

private theorem bound_handlerContext (known : Known) : handlerContext.Bound known := by
  intro field hf
  simp only [List.mem_cons, List.not_mem_nil, or_false] at hf
  rcases hf with rfl | rfl <;> exact .runtime

private theorem bound_handler {known : Known} (doc : Documentation)
    (h : ∀ name ∈ ["QueryParams", "HandlerInput", "HandlerContext", "HandlerOutput"],
      known none name) : (handler doc).Bound known := by
  refine TypeExpr.Bound.func (fun param hp => ?_) (.ref (h _ (by simp)))
  simp only [List.mem_cons, List.not_mem_nil, or_false] at hp
  rcases hp with rfl | rfl | rfl
  · exact .ref (h _ (by simp))
  · exact .ref (h _ (by simp))
  · exact .ref (h _ (by simp))

private theorem parameterFields_bound {d : String} {kind : MethodKind} {m : Method SchemaType}
    (ha : s.AdmitsIn (.method d kind m)) {fields : List (FieldSpec TypeExpr)}
    (h : parameterFields s m.parameters u = .ok (fields, v)) :
    Keeps u v ∧ ∀ field ∈ fields, field.type.Bound s.Offers [] := by
  cases hm : m.parameters with
  | none =>
    rw [hm] at h
    obtain ⟨rfl, rfl⟩ := pure_eq_ok.mp h
    exact ⟨.refl u, by simp⟩
  | some o =>
    rw [hm] at h
    exact objectFields_bound (ha.part (.parameters hm)) h

private theorem declareContract_grows {description d : String} {kind : MethodKind}
    {m : Method SchemaType} (ha : s.AdmitsIn (.method d kind m))
    (h : declareContract s description m u = .ok (a, v)) :
    Grows s.Offers u v ∧ v.declares "Handler" = true := by
  simp only [declareContract, bind_eq_ok] at h
  obtain ⟨fields, u₁, hparameters, _, u₂, hquery, input, u₃, hinput, output, u₄, houtput, _, u₅,
    htakes, success, u₆, hsuccess, _, u₇, herror, _, u₈, hgives, _, u₉, hcontext, hhandler⟩ := h
  obtain ⟨hkeeps, hbound⟩ := parameterFields_bound ha hparameters
  obtain ⟨g₁, dquery⟩ := grows_declare s.Offers hquery
    fun field hf => (hbound field hf).mono fun _ _ hk => Or.inl hk
  obtain ⟨g₂, binput⟩ := bodyType_grows (fun b hb t ht => ha.part (.input hb ht)) hinput
  obtain ⟨g₃, boutput⟩ := bodyType_grows (fun b hb t ht => ha.part (.output hb ht)) houtput
  obtain ⟨g₄, dtakes⟩ := grows_declare s.Offers htakes (Decl.bound_ofType (binput.mono g₃.visible))
  obtain ⟨g₅, bsuccess⟩ := declareSuccess_grows (boutput.mono g₄.visible) hsuccess
  obtain ⟨g₆, derror⟩ := grows_declare s.Offers herror (bound_handlerError _ m.errors)
  have bgives :
      TypeExpr.Bound (Visible s.Offers u₇) [] (.oneOf [.here "HandlerError", success]) := by
    refine .union fun member hm => ?_
    simp only [List.mem_cons, List.not_mem_nil, or_false] at hm
    rcases hm with rfl | rfl
    · exact .ref (Or.inr ⟨rfl, derror⟩)
    · exact bsuccess.mono g₆.visible
  obtain ⟨g₇, dgives⟩ := grows_declare s.Offers hgives bgives
  obtain ⟨g₈, dcontext⟩ := grows_declare s.Offers hcontext (bound_handlerContext _)
  rw [Decl.name_ofType] at dtakes
  -- What the handler names was declared on the way, and nothing declared is lost again.
  have hnames : ∀ name ∈ ["QueryParams", "HandlerInput", "HandlerContext", "HandlerOutput"],
      Visible s.Offers u₉ none name := by
    have dquery' := (g₂.trans (g₃.trans (g₄.trans (g₅.trans (g₆.trans (g₇.trans g₈)))))).declares
      dquery
    have dtakes' := (g₅.trans (g₆.trans (g₇.trans g₈))).declares dtakes
    have dgives' := g₈.declares dgives
    intro name hn
    simp only [List.mem_cons, List.not_mem_nil, or_false] at hn
    rcases hn with rfl | rfl | rfl | rfl
    · exact Or.inr ⟨rfl, dquery'⟩
    · exact Or.inr ⟨rfl, dtakes'⟩
    · exact Or.inr ⟨rfl, dcontext⟩
    · exact Or.inr ⟨rfl, dgives'⟩
  obtain ⟨g₉, dhandler⟩ := grows_declare s.Offers hhandler (bound_handler _ hnames)
  exact ⟨hkeeps.grows.trans (g₁.trans (g₂.trans (g₃.trans (g₄.trans (g₅.trans (g₆.trans
    (g₇.trans (g₈.trans g₉)))))))), dhandler⟩

end Contracts

/-- A unit has what a definition stands for: the handler of a method, and the type of anything else
but a token. -/
structure Declares (v : SourceUnit) (definition : Definition) : Prop where
  type : definition.type.kind ≠ .token → definition.type.kind.isMethod = false →
    v.declares (typeName definition.name definition.type.kind) = true
  handler : definition.type.kind.isMethod = true → definition.name = mainDef →
    v.declares "Handler" = true

private theorem Declares.mono {known : Known} {u v : SourceUnit} {definition : Definition}
    (h : Declares u definition) (hg : Grows known u v) : Declares v definition :=
  ⟨fun hk hm => hg.declares (h.type hk hm), fun hm hn => hg.declares (h.handler hm hn)⟩

section Documents

variable {s : Scope} {u v : SourceUnit} {a : Unit} {skipGuards : Bool}

private theorem declareAny_grows {definition : Definition} (ha : s.AdmitsIn definition.type)
    (h : declareAny s skipGuards definition u = .ok (a, v)) :
    Grows s.Offers u v ∧ Declares v definition := by
  have hother (ho : declareDefinition s skipGuards definition u = .ok (a, v))
      (hm : definition.type.kind.isMethod = true → definition.name ≠ mainDef) :
      Grows s.Offers u v ∧ Declares v definition := by
    obtain ⟨hg, hd⟩ := declareDefinition_grows ha ho
    exact ⟨hg, fun hk _ => hd hk, fun hk hn => absurd hn (hm hk)⟩
  rcases definition with ⟨name, t⟩
  cases t with
  | method d kind m =>
    simp only [declareAny] at h
    split at h
    · obtain ⟨hg, hd⟩ := declareContract_grows ha h
      refine ⟨hg, fun _ hm => ?_, fun _ _ => hd⟩
      cases kind <;> cases hm
    · rename_i hn
      exact hother h fun _ => by simpa using hn
  | object o =>
    refine hother h fun hm => ?_
    cases hp : o.params <;> simp [SchemaType.kind, ObjectType.kind, hp, Kind.isMethod] at hm
  | _ => exact hother h fun hm => by cases hm

private theorem declareAll_grows {defs : List Definition}
    (ha : ∀ definition ∈ defs, s.AdmitsIn definition.type)
    (h : declareAll s skipGuards defs u = .ok (a, v)) :
    Grows s.Offers u v ∧ ∀ definition ∈ defs, Declares v definition := by
  induction defs generalizing u with
  | nil =>
    obtain ⟨_, rfl⟩ := pure_eq_ok.mp h
    exact ⟨.refl _ u, by simp⟩
  | cons definition rest ih =>
    rw [List.forall_mem_cons] at ha
    simp only [declareAll, bind_eq_ok] at h
    obtain ⟨_, w, hfirst, hrest⟩ := h
    obtain ⟨hg, hd⟩ := declareAny_grows ha.1 hfirst
    obtain ⟨hgrest, hdrest⟩ := ih ha.2 hrest
    exact ⟨hg.trans hgrest, List.forall_mem_cons.mpr ⟨hd.mono hgrest, hdrest⟩⟩

theorem grow_eq_ok {name : String} {kind : UnitKind} {emission : Emit Unit}
    (h : grow name kind emission = .ok v) :
    ∃ a, emission (.empty name kind) = .ok (a, v) := by
  unfold grow at h
  cases hr : emission.run (.empty name kind) with
  | error problem =>
    rw [hr] at h
    cases h
  | ok r =>
    rw [hr] at h
    obtain rfl := Except.ok.inj h
    exact ⟨r.1, hr⟩

theorem Grows.bound {known : Known} {name : String} {kind : UnitKind}
    (h : Grows known (.empty name kind) v) : ∀ decl ∈ v.decls, decl.Bound (Visible known v) := by
  obtain ⟨new, hnew, hbound⟩ := h.decls
  have hdecls : v.decls = new := by simpa [SourceUnit.empty] using hnew
  rw [hdecls]
  exact hbound

theorem documentUnit_grows {registry : Registry} {document : Document}
    (ha : ∀ definition ∈ document.defs, Scope.AdmitsIn ⟨registry, document.id⟩ definition.type)
    (h : documentUnit registry skipGuards document = .ok v) :
    v.name = document.id ∧
      (∀ decl ∈ v.decls, decl.Bound (Visible (Scope.Offers ⟨registry, document.id⟩) v)) ∧
      ∀ definition ∈ document.defs, Declares v definition := by
  obtain ⟨a, hall⟩ := grow_eq_ok h
  obtain ⟨hg, hd⟩ := declareAll_grows ha hall
  exact ⟨hg.name, hg.bound, hd⟩

end Documents

end LexiconCompiler.Emission
