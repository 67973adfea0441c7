import LexiconCompiler.Proofs.Code.Obstacles
import LexiconCompiler.Proofs.Emission.Declaring
import LexiconCompiler.Proofs.Emission.DocumentUnit
import LexiconCompiler.Proofs.Emission.Mentions

set_option autoImplicit false
set_option relaxedAutoImplicit false

/-!
What a derivation leaves behind whenever it succeeds, whatever the batch looks like. The needs that
it records are those of the references it follows, in the order of the walk, and of the guards; they
are also the units that the new declarations mention, and nothing in these declarations is missing.
-/

namespace LexiconCompiler

/-- A method without the bodies that have no media type, which carry nothing. -/
def Method.carried (m : Method SchemaType) : Method SchemaType :=
  { m with
    input := m.input.filter fun body => !body.encoding.isZero
    output := m.output.filter fun body => !body.encoding.isZero }

/-- A definition without what is never carried. -/
def SchemaType.carried : SchemaType -> SchemaType
  | .method description kind contract => .method description kind contract.carried
  | t => t

namespace Emission

open LexiconCompiler.Code

/-- The unit that a reference needs, if any: a token is its own address, and a definition of the
same document is at hand. -/
def Scope.refNeeds (s : Scope) (ref : String) : List String :=
  match s.target ref with
  | .error _ => []
  | .ok (address, target) =>
    if target.kind == .token || address.nsid == s.document then [] else [address.nsid]

def Scope.needs (s : Scope) (visits : List Visit) : List String :=
  visits.flatMap fun visit => visit.refs.flatMap fun site => s.refNeeds site.ref

/-- The units that a definition needs: those of its references, and the schemas for its guards. -/
def Scope.definitionNeeds (s : Scope) (skipGuards : Bool) (definition : Definition) :
    List String :=
  s.needs (definition.type.carried.visits (joinPath "defs" definition.name)) ++
    if definition.type.isGuarded && !skipGuards then [lexiconsName] else []

/-- Code that mentions the units it needs, one after the other, and in which nothing is missing. -/
structure Sound (needs : List String) (mentions : List Mention) (obstacles : List Obstacle) :
    Prop where
  units : unitsOf mentions = needs
  complete : ∀ o ∈ obstacles, o.IsLibrary

private theorem Sound.nil : Sound [] [] [] := ⟨rfl, by simp⟩

private theorem Sound.append {needs more : List String} {mentions others : List Mention}
    {obstacles further : List Obstacle} (h : Sound needs mentions obstacles)
    (k : Sound more others further) :
    Sound (needs ++ more) (mentions ++ others) (obstacles ++ further) :=
  ⟨by rw [unitsOf_append, h.units, k.units], List.forall_mem_append.mpr ⟨h.complete, k.complete⟩⟩

abbrev SoundType (needs : List String) (type : TypeExpr) : Prop :=
  Sound needs type.mentions type.obstacles

abbrev SoundFields (needs : List String) (fields : List (FieldSpec TypeExpr)) : Prop :=
  Sound needs (fieldMentions fields) (fieldObstacles fields)

abbrev SoundDecls (needs : List String) (decls : List Decl) : Prop :=
  Sound needs (decls.flatMap Decl.mentions) (decls.flatMap Decl.obstacles)

/-- A unit is extended by sound declarations, and by their needs. -/
def Leaves (u v : SourceUnit) (needs : List String) : Prop :=
  ∃ decls, v = u.extend needs decls ∧ SoundDecls needs decls

private theorem soundDecls_singleton {needs : List String} {decl : Decl}
    (h : Sound needs decl.mentions decl.obstacles) : SoundDecls needs [decl] := by
  rw [SoundDecls, List.flatMap_singleton, List.flatMap_singleton]
  exact h

private theorem SoundDecls.append {needs more : List String} {decls others : List Decl}
    (h : SoundDecls needs decls) (k : SoundDecls more others) :
    SoundDecls (needs ++ more) (decls ++ others) := by
  rw [SoundDecls, List.flatMap_append, List.flatMap_append]
  exact Sound.append h k

section Walk

variable {s : Scope}

@[simp] theorem needs_nil : s.needs [] = [] := rfl

@[simp] theorem needs_append (front back : List Visit) :
    s.needs (front ++ back) = s.needs front ++ s.needs back := List.flatMap_append

private theorem needs_cons (visit : Visit) (rest : List Visit) :
    s.needs (visit :: rest) =
      (visit.refs.flatMap fun site => s.refNeeds site.ref) ++ s.needs rest :=
  List.flatMap_cons

private theorem needs_object (o : ObjectType SchemaType) (place : String) :
    s.needs ((SchemaType.object o).visits place) = s.needs (objectVisits o place) := by
  rw [SchemaType.visits, needs_cons]
  rfl

private theorem needs_array (d : String) (items : SchemaType) (least most : Option Nat)
    (place : String) :
    s.needs ((SchemaType.array d items least most).visits place) =
      s.needs (items.visits (joinPath place "items")) := by
  rw [SchemaType.visits, needs_cons]
  rfl

private theorem needs_record (d key : String) (payload : ObjectType SchemaType) (place : String) :
    s.needs ((SchemaType.record d key payload).visits place) =
      s.needs (objectVisits payload (joinPath place "record")) := by
  rw [SchemaType.visits, needs_cons, needs_cons]
  rfl

private theorem needs_ref (d ref place : String) :
    s.needs ((SchemaType.ref d ref).visits place) = s.refNeeds ref := by
  simp [SchemaType.visits, needs_cons, Visit.refs]

private theorem needs_union (d : String) (refs : List String) (place : String) :
    s.needs ((SchemaType.union d refs).visits place) = refs.flatMap s.refNeeds := by
  simp [SchemaType.visits, needs_cons, Visit.refs, List.flatMap_map]

end Walk

section Types

variable {s : Scope} {u v : SourceUnit}

private theorem foldl_addDep_eq_extend (u : SourceUnit) (needs : List String) :
    needs.foldl SourceUnit.addDep u = u.extend needs [] := by
  rw [SourceUnit.extend, List.append_nil, ← SourceUnit.foldl_addDep_decls]

private theorem addDep_eq_extend (u : SourceUnit) (name : String) : u.addDep name = u.extend [name]
    [] :=
  foldl_addDep_eq_extend u [name]

private theorem addDecl_eq_extend (u : SourceUnit) (decl : Decl) : u.addDecl decl = u.extend []
    [decl] :=
  rfl

private theorem eq_extend_nil (u : SourceUnit) : u = u.extend [] [] := foldl_addDep_eq_extend u []

private theorem refType_sound {ref path : String} {type : TypeExpr}
    (h : refType s ref path u = .ok (type, v)) :
    v = u.extend (s.refNeeds ref) [] ∧ SoundType (s.refNeeds ref) type := by
  unfold refType at h
  unfold Scope.refNeeds
  cases ht : s.target ref with
  | error cause =>
    simp only [ht] at h
    exact absurd h fail_ne_ok
  | ok found =>
    rcases found with ⟨address, target⟩
    simp only [ht] at h ⊢
    cases htoken : target.kind == .token with
    | true =>
      rw [htoken, if_pos rfl] at h
      obtain ⟨rfl, rfl⟩ := pure_eq_ok.mp h
      exact ⟨eq_extend_nil u, .nil⟩
    | false =>
      rw [htoken, if_neg Bool.false_ne_true] at h
      cases hown : address.nsid == s.document with
      | true =>
        simp only [hown, if_true] at h
        obtain ⟨rfl, rfl⟩ := pure_eq_ok.mp h
        exact ⟨eq_extend_nil u, .nil⟩
      | false =>
        simp only [hown, Bool.false_eq_true, if_false, bind_eq_ok, depend_eq_ok, pure_eq_ok] at h
        obtain ⟨_, _, rfl, rfl, rfl⟩ := h
        exact ⟨addDep_eq_extend u _, rfl, by simp [TypeExpr.obstacles]⟩

private theorem refTypes_sound {path : String} {refs : List String} {types : List TypeExpr}
    (h : refTypes s path refs u = .ok (types, v)) :
    v = u.extend (refs.flatMap s.refNeeds) [] ∧
      Sound (refs.flatMap s.refNeeds) (memberMentions types) (memberObstacles types) := by
  induction refs generalizing u types with
  | nil =>
    obtain ⟨rfl, rfl⟩ := pure_eq_ok.mp h
    exact ⟨eq_extend_nil u, .nil⟩
  | cons ref rest ih =>
    simp only [refTypes, bind_eq_ok, pure_eq_ok] at h
    obtain ⟨type, w, hfirst, others, w', hrest, rfl, rfl⟩ := h
    obtain ⟨rfl, hsound⟩ := refType_sound hfirst
    obtain ⟨rfl, hothers⟩ := ih hrest
    exact ⟨SourceUnit.extend_extend .., hsound.append hothers⟩

section Constants

private theorem obstacles_constrained (const : Option Literal) (enum : List Literal)
    (kind : ScalarKind) :
    (constrained const enum kind).obstacles = [] := by
  unfold constrained
  split <;> simp [TypeExpr.oneOf, TypeExpr.obstacles, memberObstacles_eq]

private theorem obstacles_stringType (rules : StringRules) : (stringType rules).obstacles = [] := by
  unfold stringType
  split
  · simp [TypeExpr.obstacles, memberObstacles_eq]
  · exact obstacles_constrained _ _ _

private theorem soundType_nil {type : TypeExpr} (hm : type.mentions = [])
    (ho : type.obstacles = []) :
    SoundType [] type := by
  rw [SoundType, hm, ho]
  exact .nil

end Constants

private theorem propertyFields_sound {required : List String} {path place : String}
    {properties : List (Property SchemaType)} {fields : List (FieldSpec TypeExpr)}
    (hp : ∀ p ∈ properties, ∀ path place u v type, nestedType s p.type path u = .ok (type, v) →
      v = u.extend (s.needs (p.type.visits place)) [] ∧
        SoundType (s.needs (p.type.visits place)) type)
    (h : propertyFields s required path properties u = .ok (fields, v)) :
    v = u.extend (s.needs (propertyVisits properties place)) [] ∧
      SoundFields (s.needs (propertyVisits properties place)) fields := by
  induction properties generalizing u fields with
  | nil =>
    rw [propertyFields] at h
    obtain ⟨rfl, rfl⟩ := pure_eq_ok.mp h
    rw [propertyVisits]
    exact ⟨eq_extend_nil u, .nil⟩
  | cons p rest ih =>
    rcases p with ⟨name, t⟩
    rw [List.forall_mem_cons] at hp
    simp only [propertyFields, bind_eq_ok, pure_eq_ok] at h
    obtain ⟨type, w, hfirst, others, w', hrest, rfl, rfl⟩ := h
    obtain ⟨rfl, hsound⟩ := hp.1 _ (joinPath place name) _ _ _ hfirst
    obtain ⟨rfl, hothers⟩ := ih hp.2 hrest
    rw [propertyVisits, needs_append]
    exact ⟨SourceUnit.extend_extend .., hsound.append hothers⟩

theorem nestedType_sound {t : SchemaType} {path : String} (place : String) {type : TypeExpr}
    (h : nestedType s t path u = .ok (type, v)) :
    v = u.extend (s.needs (t.visits place)) [] ∧ SoundType (s.needs (t.visits place)) type := by
  induction t using SchemaType.induction_parts generalizing path place u v type with
  | step t ih =>
    cases t with
    | boolean | integer | number =>
      simp only [nestedType, pure_eq_ok] at h
      obtain ⟨rfl, rfl⟩ := h
      exact ⟨eq_extend_nil u, soundType_nil (mentions_constrained _ _ _)
        (obstacles_constrained _ _ _)⟩
    | string d rules =>
      simp only [nestedType, pure_eq_ok] at h
      obtain ⟨rfl, rfl⟩ := h
      exact ⟨eq_extend_nil u, soundType_nil (mentions_stringType _) (obstacles_stringType _)⟩
    | datetime | unknown =>
      simp only [nestedType, pure_eq_ok] at h
      obtain ⟨rfl, rfl⟩ := h
      exact ⟨eq_extend_nil u, .nil⟩
    | blob d rules =>
      simp only [nestedType, pure_eq_ok] at h
      obtain ⟨rfl, rfl⟩ := h
      refine ⟨eq_extend_nil u, rfl, ?_⟩
      rw [TypeExpr.obstacles, List.forall_mem_singleton]
      decide
    | array d items least most =>
      simp only [nestedType, bind_eq_ok, pure_eq_ok] at h
      obtain ⟨element, w, hitems, rfl, rfl⟩ := h
      obtain ⟨hextend, hsound⟩ := ih items .items (joinPath place "items") hitems
      rw [needs_array]
      exact ⟨hextend, hsound⟩
    | object o =>
      rcases o with ⟨d, required, properties, params⟩
      simp only [nestedType, objectFields, bind_eq_ok, pure_eq_ok] at h
      obtain ⟨fields, w, hfields, rfl, rfl⟩ := h
      rw [needs_object, objectVisits]
      exact propertyFields_sound (fun p hp path place u v type hn =>
        ih p.type (.property hp) place hn) hfields
    | ref d target =>
      rw [nestedType] at h
      rw [needs_ref]
      exact refType_sound h
    | union d targets =>
      simp only [nestedType, bind_eq_ok, pure_eq_ok] at h
      obtain ⟨types, w, htypes, rfl, rfl⟩ := h
      rw [needs_union]
      exact refTypes_sound htypes
    | token | record | method =>
      rw [nestedType] at h
      exact absurd h fail_ne_ok

private theorem objectFields_sound {o : ObjectType SchemaType} {path : String} (place : String)
    {fields : List (FieldSpec TypeExpr)} (h : objectFields s o path u = .ok (fields, v)) :
    v = u.extend (s.needs (objectVisits o place)) [] ∧
      SoundFields (s.needs (objectVisits o place)) fields := by
  rcases o with ⟨d, required, properties, params⟩
  rw [objectFields] at h
  rw [objectVisits]
  exact propertyFields_sound (fun p _ path place u v type hn => nestedType_sound place hn) h

end Types

section Definitions

variable {s : Scope} {u v w : SourceUnit} {a : Unit} {needs more : List String}

private theorem Leaves.refl (u : SourceUnit) : Leaves u u [] := ⟨[], eq_extend_nil u, .nil⟩

private theorem Leaves.trans (h : Leaves u v needs) (k : Leaves v w more) : Leaves u w
    (needs ++ more) := by
  obtain ⟨decls, rfl, hsound⟩ := h
  obtain ⟨others, rfl, hothers⟩ := k
  exact ⟨decls ++ others, SourceUnit.extend_extend .., hsound.append hothers⟩

private theorem leaves_declare {decl : Decl} (h : declare decl (u.extend needs []) = .ok (a, v))
    (hs : Sound needs decl.mentions decl.obstacles) : Leaves u v needs := by
  obtain ⟨_, rfl⟩ := declare_eq_ok.mp h
  refine ⟨[decl], ?_, soundDecls_singleton hs⟩
  rw [addDecl_eq_extend, SourceUnit.extend_extend, List.append_nil, List.nil_append]

private theorem leaves_declare_nil {decl : Decl} (h : declare decl u = .ok (a, v))
    (hm : unitsOf decl.mentions = []) (ho : ∀ o ∈ decl.obstacles, o.IsLibrary) :
    Leaves u v [] := by
  rw [eq_extend_nil u] at h
  exact leaves_declare h ⟨hm, ho⟩

private theorem declareGuards_leaves {name : String} {address : Address}
    (h : declareGuards name address u = .ok (a, v)) : Leaves u v [lexiconsName] := by
  simp only [declareGuards, bind_eq_ok, depend_eq_ok] at h
  obtain ⟨_, w, hguard, _, _, rfl, hvalidate⟩ := h
  rw [addDep_eq_extend] at hvalidate
  have hg := leaves_declare_nil hguard rfl fun o ho => by cases ho
  have hv := leaves_declare hvalidate ⟨rfl, fun o ho => by
    obtain rfl := List.mem_singleton.mp ho
    decide⟩
  exact hg.trans hv

private theorem declareObject_leaves {skipGuards : Bool} {name : String} {doc : Documentation}
    {o : ObjectType SchemaType} {path : String} {address : Address} (place : String)
    (h : declareObject s skipGuards name doc o path address u = .ok (a, v)) :
    Leaves u v (s.needs (objectVisits o place) ++ if skipGuards then [] else [lexiconsName]) := by
  simp only [declareObject, bind_eq_ok] at h
  obtain ⟨fields, w, hfields, _, w', hdeclare, hrest⟩ := h
  obtain ⟨rfl, hsound⟩ := objectFields_sound place hfields
  refine (leaves_declare hdeclare hsound).trans ?_
  cases skipGuards with
  | true =>
    obtain ⟨_, rfl⟩ := pure_eq_ok.mp hrest
    exact .refl _
  | false => exact declareGuards_leaves hrest

private theorem declareDefinition_leaves {skipGuards : Bool} {definition : Definition}
    (h : declareDefinition s skipGuards definition u = .ok (a, v)) :
    Leaves u v (s.definitionNeeds skipGuards definition) := by
  rcases definition with ⟨name, t⟩
  have halias {decl : TypeExpr → Decl} {path : String}
      (hm : ∀ type, (decl type).mentions = type.mentions)
      (ho : ∀ type, (decl type).obstacles = type.obstacles)
      (hrun : (nestedType s t path >>= fun type => declare (decl type)) u = .ok (a, v))
      (place : String) : Leaves u v (s.needs (t.visits place)) := by
    obtain ⟨type, w, htype, hdeclare⟩ := bind_eq_ok.mp hrun
    obtain ⟨rfl, hsound⟩ := nestedType_sound place htype
    refine leaves_declare hdeclare ?_
    rw [hm, ho]
    exact hsound
  cases t with
  | token d => exact leaves_declare_nil h rfl fun o ho => by cases ho
  | record d key payload =>
    have hneeds : s.definitionNeeds skipGuards ⟨name, .record d key payload⟩ =
        s.needs (objectVisits payload (joinPath (joinPath "defs" name) "record")) ++
          if skipGuards then [] else [lexiconsName] := by
      rw [← needs_record d key]
      cases skipGuards <;> rfl
    rw [hneeds]
    exact declareObject_leaves _ h
  | object o =>
    have hneeds : s.definitionNeeds skipGuards ⟨name, .object o⟩ =
        s.needs (objectVisits o (joinPath "defs" name)) ++
          if skipGuards then [] else [lexiconsName] := by
      rw [← needs_object]
      cases skipGuards <;> rfl
    rw [hneeds]
    exact declareObject_leaves _ h
  | method d kind contract =>
    simp only [declareDefinition, nestedType, bind_eq_ok] at h
    obtain ⟨_, _, hfail, _⟩ := h
    exact absurd hfail fail_ne_ok
  | _ =>
    rw [Scope.definitionNeeds]
    simp only [SchemaType.isGuarded, Bool.false_and, Bool.false_eq_true, if_false, List.append_nil]
    exact halias (fun _ => rfl) (fun _ => rfl) h _

end Definitions

section Contracts

variable {s : Scope} {u v : SourceUnit} {a : Unit}

private theorem obstacles_bodyExpr (name : String) (body : Option (Body SchemaType)) :
    (bodyExpr name body).obstacles = [] := by
  have hencoding (encoding : Encoding) : (encodingType encoding).obstacles = [] := by
    unfold encodingType
    split
    · exact TypeExpr.obstacles_texts _
    · rfl
  have hpayload (encoding : Encoding) (hasSchema : Bool) :
      (payloadType name encoding hasSchema).obstacles = [] := by
    unfold payloadType
    repeat' split
    all_goals rfl
  rcases body with _ | ⟨d, encoding, schema⟩
  · rfl
  · rw [bodyExpr]
    split
    · rfl
    · simp [TypeExpr.obstacles, fieldObstacles_eq, FieldSpec.plain, hencoding, hpayload]

private theorem obstacles_successExpr (output : TypeExpr) : (successExpr output).obstacles =
    [] := by
  unfold successExpr
  split <;> rfl

private theorem obstacles_handlerError (errors : List NamedError) :
    (handlerError errors).obstacles = [] := by
  have herror : fieldObstacles (errorField errors) = [] := by
    unfold errorField
    split <;> simp [fieldObstacles_eq, TypeExpr.obstacles_texts]
  rw [fieldObstacles_eq] at herror
  simp [handlerError, Decl.obstacles, Declared.obstacles, fieldObstacles_eq, FieldSpec.plain,
    TypeExpr.obstacles, herror]

theorem bodyType_leaves {name path : String} {body : Option (Body SchemaType)} (place : String)
    {type : TypeExpr} (h : bodyType s name path body u = .ok (type, v)) :
    type = bodyExpr name body ∧
      Leaves u v (s.needs (bodyVisits (body.filter fun b => !b.encoding.isZero) place)) := by
  rcases body with _ | ⟨d, encoding, schema⟩
  · obtain ⟨rfl, rfl⟩ := pure_eq_ok.mp h
    exact ⟨rfl, .refl u⟩
  · simp only [bodyType] at h
    rw [bodyExpr]
    cases hzero : encoding.isZero with
    | true =>
      rw [hzero, if_pos rfl] at h
      obtain ⟨rfl, rfl⟩ := pure_eq_ok.mp h
      refine ⟨rfl, ?_⟩
      have hnone : Option.filter (fun b : Body SchemaType => !b.encoding.isZero)
          (some ⟨d, encoding, schema⟩) = none := by simp [hzero]
      rw [hnone]
      exact .refl u
    | false =>
      simp only [hzero, Bool.false_eq_true, if_false, bind_eq_ok, pure_eq_ok] at h
      obtain ⟨_, w, hschema, rfl, rfl⟩ := h
      refine ⟨rfl, ?_⟩
      have hsome : Option.filter (fun b : Body SchemaType => !b.encoding.isZero)
          (some ⟨d, encoding, schema⟩) = some ⟨d, encoding, schema⟩ := by simp [hzero]
      rw [hsome]
      cases schema with
      | none =>
        obtain ⟨_, rfl⟩ := pure_eq_ok.mp hschema
        exact .refl u
      | some t =>
        obtain ⟨type, w, htype, hdeclare⟩ := bind_eq_ok.mp hschema
        obtain ⟨rfl, hsound⟩ := nestedType_sound (joinPath place "schema") htype
        refine leaves_declare hdeclare ?_
        rw [Decl.mentions_ofType, Decl.obstacles_ofType]
        exact hsound

private theorem declareSuccess_leaves {doc : Documentation} {output success : TypeExpr}
    (hm : output.mentions = []) (ho : output.obstacles = [])
    (h : declareSuccess doc output u = .ok (success, v)) :
    success = successExpr output ∧ Leaves u v [] := by
  unfold declareSuccess at h
  split at h
  · obtain ⟨rfl, rfl⟩ := pure_eq_ok.mp h
    exact ⟨rfl, .refl u⟩
  · rename_i hvoid
    simp only [bind_eq_ok, pure_eq_ok] at h
    obtain ⟨_, w, hdeclare, rfl, rfl⟩ := h
    refine ⟨?_, leaves_declare_nil hdeclare ?_ ?_⟩
    · unfold successExpr
      split
      · exact absurd rfl hvoid
      · rfl
    · rw [Decl.mentions_ofType, hm]
      rfl
    · rw [Decl.obstacles_ofType, ho]
      simp

theorem parameterFields_sound {parameters : Option (ObjectType SchemaType)} (place : String)
    {fields : List (FieldSpec TypeExpr)} (h : parameterFields s parameters u = .ok (fields, v)) :
    v = u.extend (s.needs (parameterVisits parameters place)) [] ∧
      SoundFields (s.needs (parameterVisits parameters place)) fields := by
  cases parameters with
  | none =>
    obtain ⟨rfl, rfl⟩ := pure_eq_ok.mp h
    exact ⟨eq_extend_nil u, .nil⟩
  | some o => exact objectFields_sound place h

private theorem declareContract_leaves {description d : String} {kind : MethodKind}
    {m : Method SchemaType} (place : String) (h : declareContract s description m u = .ok (a, v)) :
    Leaves u v (s.needs ((SchemaType.method d kind m.carried).visits place)) := by
  simp only [declareContract, bind_eq_ok] at h
  obtain ⟨fields, u₁, hparameters, _, u₂, hquery, input, u₃, hinput, output, u₄, houtput, _, u₅,
    htakes, success, u₆, hsuccess, _, u₇, herror, _, u₈, hgives, _, u₉, hcontext, hhandler⟩ := h
  obtain ⟨rfl, hfields⟩ := parameterFields_sound (joinPath place "parameters") hparameters
  obtain ⟨rfl, linput⟩ := bodyType_leaves (joinPath place "input") hinput
  obtain ⟨rfl, loutput⟩ := bodyType_leaves (joinPath place "output") houtput
  obtain ⟨rfl, lsuccess⟩ :=
    declareSuccess_leaves (mentions_bodyExpr _ _) (obstacles_bodyExpr _ _) hsuccess
  have lquery := leaves_declare hquery hfields
  have ltakes := leaves_declare_nil htakes (by simp [Decl.mentions_ofType])
    (by simp [Decl.obstacles_ofType, obstacles_bodyExpr])
  have lerror := leaves_declare_nil herror (by simp) (by simp [obstacles_handlerError])
  have lgives := leaves_declare_nil hgives
    (by simp [Decl.mentions, Declared.mentions, TypeExpr.oneOf, TypeExpr.here, TypeExpr.mentions,
      memberMentions_eq])
    (by simp [Decl.obstacles, Declared.obstacles, TypeExpr.oneOf, TypeExpr.here,
      TypeExpr.obstacles, memberObstacles_eq, obstacles_successExpr])
  have lcontext := leaves_declare_nil hcontext rfl (by decide)
  have lhandler := leaves_declare_nil hhandler rfl fun o ho => by cases ho
  have hall := lquery.trans (linput.trans (loutput.trans (ltakes.trans (lsuccess.trans
    (lerror.trans (lgives.trans (lcontext.trans lhandler)))))))
  rcases m with ⟨parameters, input, output, errors⟩
  rw [SchemaType.visits, needs_cons, needs_append, needs_append]
  simpa [Visit.refs, Method.carried] using hall

end Contracts

section Documents

variable {s : Scope} {u v : SourceUnit} {a : Unit} {skipGuards : Bool}

private theorem declareAny_leaves {definition : Definition}
    (h : declareAny s skipGuards definition u = .ok (a, v)) :
    Leaves u v (s.definitionNeeds skipGuards definition) := by
  rcases definition with ⟨name, t⟩
  cases t with
  | method d kind contract =>
    simp only [declareAny] at h
    split at h
    · have hcontract : Leaves u v (s.needs
          ((SchemaType.method d kind contract.carried).visits (joinPath "defs" name))) :=
        declareContract_leaves _ h
      rw [Scope.definitionNeeds]
      simpa [SchemaType.isGuarded, SchemaType.carried] using hcontract
    · exact declareDefinition_leaves h
  | _ => exact declareDefinition_leaves h

theorem declareAll_leaves {defs : List Definition}
    (h : declareAll s skipGuards defs u = .ok (a, v)) :
    Leaves u v (defs.flatMap (s.definitionNeeds skipGuards)) := by
  induction defs generalizing u with
  | nil =>
    obtain ⟨_, rfl⟩ := pure_eq_ok.mp h
    exact .refl u
  | cons definition rest ih =>
    simp only [declareAll, bind_eq_ok] at h
    obtain ⟨_, w, hfirst, hrest⟩ := h
    rw [List.flatMap_cons]
    exact (declareAny_leaves hfirst).trans (ih hrest)

/-- The unit of a document, in any batch: it records the needs of its definitions, which are what
its declarations mention, and nothing in it is missing. -/
theorem documentUnit_leaves {registry : Registry} {document : Document}
    (h : documentUnit registry skipGuards document = .ok v) :
    Leaves (.empty document.id .document) v
      (document.defs.flatMap (Scope.definitionNeeds ⟨registry, document.id⟩ skipGuards)) := by
  obtain ⟨_, hall⟩ := grow_eq_ok h
  exact declareAll_leaves hall

end Documents

end Emission

end LexiconCompiler
