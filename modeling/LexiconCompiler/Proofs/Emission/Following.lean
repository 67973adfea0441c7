import LexiconCompiler.Proofs.Emission.Needs
import LexiconCompiler.Proofs.Outcome
import LexiconCompiler.Proofs.Schema.Canonical
import LexiconCompiler.Schema.Reader

set_option autoImplicit false
set_option relaxedAutoImplicit false

/-!
References in the order in which a derivation follows them. It is the order of the walk, and both
spell places alike, so a derivation that cannot follow a reference ends at the first such reference
of the walk.
-/

namespace LexiconCompiler

open LexiconCompiler.Code

private theorem joinPath_of_ne {path : String} (h : path ≠ "") (key : String) :
    joinPath path key = path ++ "." ++ key := by
  rw [joinPath, if_neg (by simpa using h)]

private theorem joinPath_ne {path : String} (h : path ≠ "") (key : String) :
    joinPath path key ≠ "" := by
  simp [joinPath_of_ne h]

/-- The references that are met in visits, in order. -/
def refsOf (visits : List Visit) : List RefSite := visits.flatMap Visit.refs

section Walk

@[simp] theorem refsOf_nil : refsOf [] = [] := rfl

@[simp] theorem refsOf_append (front back : List Visit) :
    refsOf (front ++ back) = refsOf front ++ refsOf back := List.flatMap_append

private theorem refsOf_cons (visit : Visit) (rest : List Visit) :
    refsOf (visit :: rest) = visit.refs ++ refsOf rest := List.flatMap_cons

private theorem refsOf_array (d : String) (items : SchemaType) (least most : Option Nat)
    (path : String) :
    refsOf ((SchemaType.array d items least most).visits path) =
      refsOf (items.visits (joinPath path "items")) := by
  rw [SchemaType.visits, refsOf_cons]
  rfl

private theorem refsOf_object (o : ObjectType SchemaType) (path : String) :
    refsOf ((SchemaType.object o).visits path) = refsOf (objectVisits o path) := by
  rw [SchemaType.visits, refsOf_cons]
  rfl

private theorem refsOf_record (d key : String) (payload : ObjectType SchemaType) (path : String) :
    refsOf ((SchemaType.record d key payload).visits path) =
      refsOf (objectVisits payload (joinPath path "record")) := by
  rw [SchemaType.visits, refsOf_cons, refsOf_cons]
  rfl

private theorem refsOf_parameters (o : ObjectType SchemaType) (path : String) :
    refsOf (parameterVisits (some o) path) = refsOf (objectVisits o path) := by
  rw [parameterVisits, refsOf_cons]
  rfl

private theorem refsOf_method (d : String) (kind : MethodKind) (m : Method SchemaType)
    (path : String) :
    refsOf ((SchemaType.method d kind m).visits path) =
      refsOf (parameterVisits m.parameters (joinPath path "parameters")) ++
        refsOf (bodyVisits m.input (joinPath path "input")) ++
        refsOf (bodyVisits m.output (joinPath path "output")) := by
  rcases m with ⟨parameters, input, output, errors⟩
  rw [SchemaType.visits, refsOf_cons, refsOf_append, refsOf_append]
  rfl

private theorem refsOf_ref (d ref path : String) :
    refsOf ((SchemaType.ref d ref).visits path) = [⟨ref, path⟩] := by
  simp [SchemaType.visits, refsOf_cons, Visit.refs]

private theorem refsOf_union (d : String) (refs : List String) (path : String) :
    refsOf ((SchemaType.union d refs).visits path) = refs.map (⟨·, path⟩) := by
  simp [SchemaType.visits, refsOf_cons, Visit.refs]

private theorem refsOf_bodyVisits_filter (body : Option (Body SchemaType))
    (keep : Body SchemaType → Bool) (path : String) :
    (refsOf (bodyVisits (body.filter keep) path)).Sublist (refsOf (bodyVisits body path)) := by
  cases body with
  | none => exact .refl _
  | some body =>
    rw [Option.filter_some]
    split
    · exact .refl _
    · exact List.nil_sublist _

private theorem refsOf_carried (t : SchemaType) (path : String) :
    (refsOf (t.carried.visits path)).Sublist (refsOf (t.visits path)) := by
  cases t with
  | method d kind m =>
    rw [SchemaType.carried, refsOf_method, refsOf_method]
    exact ((List.Sublist.refl _).append (refsOf_bodyVisits_filter m.input _ _)).append
      (refsOf_bodyVisits_filter m.output _ _)
  | _ => exact .refl _

end Walk

namespace Draft

/-- A document without the bodies that have no media type, which carry nothing. -/
def carried (d : Draft) : Draft :=
  { d with defs := d.defs.map fun definition => ⟨definition.name, definition.type.carried⟩ }

private theorem refs_eq (d : Draft) : d.refs = d.defs.flatMap fun definition =>
    refsOf (definition.type.visits (joinPath "defs" definition.name)) := by
  rw [refs, visits, List.flatMap_assoc]
  rfl

private theorem refs_carried (d : Draft) : d.carried.refs = d.defs.flatMap fun definition =>
    refsOf (definition.type.carried.visits (joinPath "defs" definition.name)) := by
  rw [refs_eq, carried, List.flatMap_map]

private theorem refs_carried_sublist (d : Draft) : d.carried.refs.Sublist d.refs := by
  rw [refs_carried, refs_eq]
  induction d.defs with
  | nil => exact .refl _
  | cons definition rest ih =>
    rw [List.flatMap_cons, List.flatMap_cons]
    exact (refsOf_carried definition.type _).append ih

end Draft

namespace Emission

/-- A reference is an address, and the batch has a definition there. -/
def Scope.reaches (s : Scope) (ref : String) : Bool :=
  match Address.parse ref s.document with
  | .error _ => false
  | .ok address => (s.registry.find? address).isSome

/-- The first of several references that leads nowhere. -/
def Scope.unreached? (s : Scope) (sites : List RefSite) : Option RefSite :=
  sites.find? fun site => !s.reaches site.ref

/-- A derivation follows references in order. It succeeds only if all of them lead somewhere, and
where it ends at an import, that is the first one that does not. -/
structure Scope.Follows {α : Type} (s : Scope) (sites : List RefSite) (emission : Emit α) :
    Prop where
  reached : ∀ u r, emission u = .ok r → s.unreached? sites = none
  stopped : ∀ u problem, emission u = .error problem → problem.code = .cyclicOrMissingImport →
    ∃ site cause, s.unreached? sites = some site ∧
      problem = .unresolvedImport s.document site.path site.ref cause

section Steps

variable {α β : Type} {s : Scope} {sites more : List RefSite} {u : SourceUnit} {problem : Problem}

@[simp] theorem bind_eq_error {x : Emit α} {f : α → Emit β} :
    (x >>= f) u = .error problem ↔
      x u = .error problem ∨ ∃ a v, x u = .ok (a, v) ∧ f a v = .error problem := by
  have hbind : (x >>= f) u = (x u >>= fun p => f p.1 p.2) := rfl
  rw [hbind, Outcome.bind_eq_error, Prod.exists]

private theorem follows_nil {emission : Emit α}
    (h : ∀ u problem, emission u = .error problem → problem.code ≠ .cyclicOrMissingImport) :
    s.Follows [] emission :=
  ⟨fun _ _ _ => rfl, fun u problem he hc => absurd hc (h u problem he)⟩

private theorem follows_pure (a : α) : s.Follows [] (pure a : Emit α) :=
  follows_nil fun _ _ h => by cases h

private theorem follows_depend (name : String) : s.Follows [] (depend name) :=
  follows_nil fun _ _ h => by cases h

private theorem follows_declare (decl : Decl) : s.Follows [] (declare decl) := by
  refine follows_nil fun u problem h => ?_
  unfold declare at h
  split at h
  · obtain rfl := Except.error.inj h
    exact fun hc => by cases hc
  · cases h

private theorem follows_fail (hc : problem.code ≠ .cyclicOrMissingImport) (sites : List RefSite) :
    s.Follows sites (fail problem : Emit α) := by
  constructor
  · intro u r h
    cases h
  · intro u other h hcode
    obtain rfl : problem = other := Except.error.inj h
    exact absurd hcode hc

private theorem Scope.Follows.of_reached {emission : Emit α} (h : s.Follows [] emission)
    (hsites : s.unreached? sites = none) : s.Follows sites emission := by
  refine ⟨fun _ _ _ => hsites, fun u problem he hc => ?_⟩
  obtain ⟨_, _, hnone, _⟩ := h.stopped u problem he hc
  cases hnone

private theorem Scope.Follows.bind {first : Emit α} {rest : α → Emit β} (h : s.Follows sites first)
    (k : ∀ a, s.Follows more (rest a)) : s.Follows (sites ++ more) (first >>= rest) := by
  have happend : s.unreached? (sites ++ more) = (s.unreached? sites).or (s.unreached? more) :=
    List.find?_append
  constructor
  · intro u r hr
    obtain ⟨a, v, hfirst, hrest⟩ := bind_eq_ok.mp hr
    rw [happend, h.reached _ _ hfirst, (k a).reached _ _ hrest, Option.or_none]
  · intro u problem he hcode
    -- Either the first part ends here, or all its references led somewhere.
    rcases bind_eq_error.mp he with hfirst | ⟨a, v, hfirst, hrest⟩
    · obtain ⟨site, cause, hsite, hproblem⟩ := h.stopped _ _ hfirst hcode
      exact ⟨site, cause, by rw [happend, hsite, Option.some_or], hproblem⟩
    · obtain ⟨site, cause, hsite, hproblem⟩ := (k a).stopped _ _ hrest hcode
      exact ⟨site, cause, by rw [happend, h.reached _ _ hfirst, Option.none_or, hsite], hproblem⟩

private theorem Scope.Follows.then {first : Emit α} {rest : α → Emit β} (h : s.Follows sites first)
    (k : ∀ a, s.Follows [] (rest a)) : s.Follows sites (first >>= rest) := by
  have hbind := h.bind k
  rwa [List.append_nil] at hbind

end Steps

section Types

variable {s : Scope}

private theorem Scope.reaches_eq (ref : String) : s.reaches ref =
    (s.target ref).toOption.isSome := by
  unfold Scope.reaches Scope.target
  cases Address.parse ref s.document with
  | error fault => rfl
  | ok address => cases hf : s.registry.find? address <;> simp [hf, Except.toOption]

private theorem refType_follows (ref path : String) :
    s.Follows [⟨ref, path⟩] (refType s ref path) := by
  have hunreached : s.unreached? [⟨ref, path⟩] =
      if (s.target ref).toOption.isSome then none else some ⟨ref, path⟩ := by
    rw [Scope.unreached?, List.find?_singleton, Scope.reaches_eq]
    cases (s.target ref).toOption.isSome <;> rfl
  unfold refType
  cases ht : s.target ref with
  | error cause =>
    rw [ht] at hunreached
    refine ⟨fun u r h => (nomatch h), fun u problem h _ => ⟨_, cause, hunreached, ?_⟩⟩
    exact (Except.error.inj h).symm
  | ok found =>
    rcases found with ⟨address, target⟩
    rw [ht] at hunreached
    refine Scope.Follows.of_reached ?_ hunreached
    by_cases htoken : (target.kind == .token) = true
    · simp only [htoken, if_true]
      exact follows_pure _
    · by_cases hown : (address.nsid == s.document) = true
      · simp only [htoken, hown, if_true, Bool.false_eq_true, if_false]
        exact follows_pure _
      · simp only [htoken, hown, Bool.false_eq_true, if_false]
        exact (follows_depend _).bind fun _ => follows_pure _

private theorem refTypes_follows (path : String) (refs : List String) :
    s.Follows (refs.map (⟨·, path⟩)) (refTypes s path refs) := by
  induction refs with
  | nil => exact follows_pure _
  | cons ref rest ih =>
    exact (refType_follows ref path).bind fun type => ih.then fun _ => follows_pure _

private theorem propertyFields_follows {required : List String}
    {properties : List (Property SchemaType)}
    (h : ∀ p ∈ properties, ∀ path, path ≠ "" →
      s.Follows (refsOf (p.type.visits path)) (nestedType s p.type path))
    {place : String} (hplace : place ≠ "") :
    s.Follows (refsOf (propertyVisits properties place))
      (propertyFields s required (place ++ ".") properties) := by
  induction properties with
  | nil =>
    rw [propertyFields, propertyVisits]
    exact follows_pure _
  | cons p rest ih =>
    rcases p with ⟨name, t⟩
    rw [List.forall_mem_cons] at h
    rw [propertyFields, propertyVisits, refsOf_append, ← joinPath_of_ne hplace]
    exact (h.1 _ (joinPath_ne hplace name)).bind fun type => (ih h.2).then fun _ => follows_pure _

private theorem fields_follow {o : ObjectType SchemaType}
    (h : ∀ p ∈ o.properties, ∀ path, path ≠ "" →
      s.Follows (refsOf (p.type.visits path)) (nestedType s p.type path))
    {path : String} (hpath : path ≠ "") :
    s.Follows (refsOf (objectVisits o path)) (objectFields s o path) := by
  rcases o with ⟨d, required, properties, params⟩
  have hplace : joinPath path "properties" ++ "." = path ++ ".properties." := by
    rw [joinPath_of_ne hpath, String.append_assoc, String.append_assoc]
    rfl
  rw [objectVisits, objectFields, ← hplace]
  exact propertyFields_follows h (joinPath_ne hpath "properties")

private theorem nestedType_follows (t : SchemaType) {path : String} (hpath : path ≠ "") :
    s.Follows (refsOf (t.visits path)) (nestedType s t path) := by
  induction t using SchemaType.induction_parts generalizing path with
  | step t ih =>
    cases t with
    | array d items least most =>
      have hplace : joinPath path "items" = path ++ ".items" := by
        rw [joinPath_of_ne hpath, String.append_assoc]
        rfl
      rw [refsOf_array, nestedType, ← hplace]
      exact (ih items .items (joinPath_ne hpath "items")).then fun _ => follows_pure _
    | object o =>
      rw [refsOf_object, nestedType]
      exact (fields_follow (fun p hp path hpath => ih p.type (.property hp) hpath) hpath).then
        fun _ => follows_pure _
    | ref d target =>
      rw [refsOf_ref, nestedType]
      exact refType_follows target path
    | union d targets =>
      rw [refsOf_union, nestedType]
      exact (refTypes_follows path targets).then fun _ => follows_pure _
    | token | record | method =>
      rw [nestedType]
      exact follows_fail (fun hc => by cases hc) _
    | _ =>
      simp only [SchemaType.visits]
      rw [nestedType]
      exact follows_pure _

private theorem objectFields_follows (o : ObjectType SchemaType) {path : String}
    (hpath : path ≠ "") :
    s.Follows (refsOf (objectVisits o path)) (objectFields s o path) :=
  fields_follow (fun p _ _ hpath => nestedType_follows p.type hpath) hpath

end Types

section Definitions

variable {s : Scope}

private theorem declareGuards_follows (name : String) (address : Address) :
    s.Follows [] (declareGuards name address) :=
  (follows_declare _).bind fun _ => (follows_depend _).bind fun _ => follows_declare _

private theorem declareObject_follows (skipGuards : Bool) (name : String) (doc : Documentation)
    (o : ObjectType SchemaType) {path : String} (hpath : path ≠ "") (address : Address) :
    s.Follows (refsOf (objectVisits o path))
      (declareObject s skipGuards name doc o path address) := by
  refine (objectFields_follows o hpath).then fun fields => (follows_declare _).bind fun _ => ?_
  cases skipGuards with
  | true => exact follows_pure _
  | false => exact declareGuards_follows name address

private theorem defs_ne (name : String) : joinPath "defs" name ≠ "" := joinPath_ne (by decide) name

private theorem declareDefinition_follows (skipGuards : Bool) (definition : Definition) :
    s.Follows (refsOf (definition.type.carried.visits (joinPath "defs" definition.name)))
      (declareDefinition s skipGuards definition) := by
  rcases definition with ⟨name, t⟩
  have halias (t : SchemaType) (decl : TypeExpr → Decl) :
      s.Follows (refsOf (t.visits (joinPath "defs" name)))
        (nestedType s t ("defs." ++ name) >>= fun type => declare (decl type)) :=
    (nestedType_follows t (defs_ne name)).then fun _ => follows_declare _
  cases t with
  | token d => exact follows_declare _
  | record d key payload =>
    have hplace : joinPath (joinPath "defs" name) "record" = "defs." ++ name ++ ".record" := by
      rw [joinPath_of_ne (defs_ne name), String.append_assoc]
      rfl
    have hobject := declareObject_follows (s := s) skipGuards (typeName name .record)
      (if key.isEmpty then ⟨d, []⟩ else ⟨d, ["key: " ++ key]⟩) payload
      (joinPath_ne (defs_ne name) "record") ⟨s.document, name⟩
    rw [← refsOf_record d key, hplace] at hobject
    exact hobject
  | object o =>
    have hobject := declareObject_follows (s := s) skipGuards
      (typeName name (SchemaType.object o).kind) (documentation (.object o)) o (defs_ne name)
      ⟨s.document, name⟩
    rw [← refsOf_object] at hobject
    exact hobject
  | method d kind m =>
    simp only [declareDefinition, nestedType]
    exact (follows_fail (fun hc => by cases hc) _).then fun _ => follows_declare _
  | _ => exact halias _ _

end Definitions

section Contracts

variable {s : Scope}

private theorem parameterFields_follows (parameters : Option (ObjectType SchemaType)) :
    s.Follows (refsOf (parameterVisits parameters "defs.main.parameters"))
      (parameterFields s parameters) := by
  cases parameters with
  | none => exact follows_pure _
  | some o =>
    rw [refsOf_parameters]
    exact objectFields_follows o (by decide)

private theorem bodyType_follows (name : String) {path : String} (hpath : path ≠ "")
    (body : Option (Body SchemaType)) :
    s.Follows (refsOf (bodyVisits (body.filter fun b => !b.encoding.isZero) path))
      (bodyType s name path body) := by
  rcases body with _ | ⟨d, encoding, schema⟩
  · exact follows_pure _
  · rw [bodyType, Option.filter_some]
    cases encoding.isZero with
    | true => exact follows_pure _
    | false =>
      cases schema with
      | none => exact (follows_pure _).bind fun _ => follows_pure _
      | some schema =>
        have hplace : joinPath path "schema" = path ++ ".schema" := by
          rw [joinPath_of_ne hpath, String.append_assoc]
          rfl
        simp only [Bool.not_false, if_true, Bool.false_eq_true, if_false, bodyVisits, declareSchema,
          ← hplace]
        exact ((nestedType_follows schema (joinPath_ne hpath "schema")).then fun _ =>
          follows_declare _).then fun _ => follows_pure _

private theorem declareSuccess_follows (doc : Documentation) (output : TypeExpr) :
    s.Follows [] (declareSuccess doc output) := by
  cases output with
  | void => exact follows_pure _
  | _ => exact (follows_declare _).bind fun _ => follows_pure _

private theorem declareContract_follows (description d : String) (kind : MethodKind)
    (m : Method SchemaType) :
    s.Follows (refsOf ((SchemaType.method d kind m.carried).visits "defs.main"))
      (declareContract s description m) := by
  have hpath (key : String) : joinPath "defs.main" key = "defs.main." ++ key :=
    joinPath_of_ne (by decide) key
  have htail (input output : TypeExpr) : s.Follows [] (do
      declare (.ofType "HandlerInput" (bodyDoc m.input) input)
      let success ← declareSuccess (bodyDoc m.output) output
      declare (handlerError m.errors)
      declare ⟨"HandlerOutput", .none, .alias (.oneOf [.here "HandlerError", success])⟩
      declare handlerContext
      declare (handler ⟨description, []⟩)) :=
    (follows_declare _).bind fun _ => (declareSuccess_follows _ _).bind fun _ =>
      (follows_declare _).bind fun _ => (follows_declare _).bind fun _ =>
        (follows_declare _).bind fun _ => follows_declare _
  rw [refsOf_method, List.append_assoc, hpath, hpath, hpath]
  exact (parameterFields_follows m.parameters).bind fun fields =>
    (follows_declare _).bind fun _ =>
      (bodyType_follows "InputSchema" (by decide) m.input).bind fun input =>
        (bodyType_follows "OutputSchema" (by decide) m.output).then fun output => htail input output

end Contracts

section Documents

variable {s : Scope}

private theorem declareAny_follows (skipGuards : Bool) (definition : Definition) :
    s.Follows (refsOf (definition.type.carried.visits (joinPath "defs" definition.name)))
      (declareAny s skipGuards definition) := by
  rcases definition with ⟨name, t⟩
  cases t with
  | method d kind m =>
    by_cases hmain : (name == mainDef) = true
    · have hcontract := declareContract_follows (s := s) d d kind m
      obtain rfl : name = mainDef := eq_of_beq hmain
      exact hcontract
    · have hother : declareAny s skipGuards ⟨name, .method d kind m⟩ =
          declareDefinition s skipGuards ⟨name, .method d kind m⟩ := if_neg hmain
      rw [hother]
      exact declareDefinition_follows skipGuards _
  | _ => exact declareDefinition_follows skipGuards _

private theorem declareAll_follows (skipGuards : Bool) (defs : List Definition) :
    s.Follows (defs.flatMap fun definition =>
        refsOf (definition.type.carried.visits (joinPath "defs" definition.name)))
      (declareAll s skipGuards defs) := by
  induction defs with
  | nil => exact follows_pure _
  | cons definition rest ih =>
    rw [List.flatMap_cons]
    exact (declareAny_follows skipGuards definition).bind fun _ => ih

private theorem grow_eq_error {name : String} {kind : UnitKind} {emission : Emit Unit}
    {problem : Problem} (h : grow name kind emission = .error problem) :
    emission (.empty name kind) = .error problem := by
  unfold grow at h
  cases hr : emission.run (.empty name kind) with
  | error other =>
    rw [hr] at h
    obtain rfl : other = problem := Except.error.inj h
    exact hr
  | ok r =>
    rw [hr] at h
    cases h

end Documents

end Emission

namespace Document

open LexiconCompiler.Emission

/-- The unit of a document follows what the document carries, in the order of its references. Its
derivation succeeds only if all of that leads somewhere in the batch, and where it fails at an
import, it names the document and the place of the first reference that does not. -/
theorem first_unreached (registry : Registry) (skipGuards : Bool) (document : Document) :
    document.carried.refs.Sublist document.refs ∧
      (∀ u, documentUnit registry skipGuards document = .ok u →
        Scope.unreached? ⟨registry, document.id⟩ document.carried.refs = none) ∧
      ∀ problem, documentUnit registry skipGuards document = .error problem →
        problem.code = .cyclicOrMissingImport → problem.document = document.id ∧
          ∃ site, Scope.unreached? ⟨registry, document.id⟩ document.carried.refs = some site ∧
            problem.path = site.path := by
  have hfollows := declareAll_follows (s := ⟨registry, document.id⟩) skipGuards document.defs
  rw [← Draft.refs_carried] at hfollows
  refine ⟨document.refs_carried_sublist, fun u h => ?_, fun problem h hcode => ?_⟩
  · obtain ⟨a, hrun⟩ := grow_eq_ok h
    exact hfollows.reached _ _ hrun
  · obtain ⟨site, cause, hsite, rfl⟩ := hfollows.stopped _ _ (grow_eq_error h) hcode
    exact ⟨rfl, site, hsite, rfl⟩

open LexiconCompiler.Markup

/-- A procedure with two references to documents that are not there: the first one in a body without
a media type, the second one among the items of a property. -/
def strayNode : Node :=
  .record [
    ("lexicon", some (.scalar .int "1")),
    ("id", some (.text "com.example.stray")),
    ("defs", some (.record [
      ("view", some (.record [("type", some (.text "token"))])),
      ("main", some (.record [
        ("type", some (.text "procedure")),
        ("input", some (.record [("schema", some (.record [
          ("type", some (.text "ref")), ("ref", some (.text "com.example.idle"))]))])),
        ("output", some (.record [
          ("encoding", some (.text "application/json")),
          ("schema", some (.record [
            ("type", some (.text "object")),
            ("properties", some (.record [
              ("list", some (.record [
                ("type", some (.text "array")),
                ("items", some (.record [
                  ("type", some (.text "union")),
                  ("refs", some (.list .text
                    ["#view", "com.example.absent#x"]))]))]))]))]))]))]))]))]

def stray : Document :=
  ⟨⟨1, "com.example.stray", none, "",
    [⟨"view", .token ""⟩,
      ⟨"main", .method "" .procedure
        ⟨none, some ⟨"", .zero, some (.ref "" "com.example.idle")⟩,
          some ⟨"", ⟨["application/json"], false⟩, some (.object ⟨"", [],
            [⟨"list", .array "" (.union "" ["#view", "com.example.absent#x"]) none none⟩], false⟩)⟩,
          []⟩⟩]⟩,
    "", [⟨"body_without_encoding",
      "body declares a schema but no encoding; it is treated as absent", "com.example.stray",
      "defs.main.input.encoding"⟩], ⟨["com", "example", "stray"]⟩, strayNode⟩

theorem first_unreached_stray :
    ∃ problem, ofNode strayNode = .ok stray ∧
      documentUnit ⟨[stray]⟩ false stray = .error problem ∧
      problem.code = .cyclicOrMissingImport ∧ problem.document = "com.example.stray" ∧
      ∃ site, Scope.unreached? ⟨⟨[stray]⟩, "com.example.stray"⟩ stray.carried.refs = some site ∧
        problem.path = site.path ∧
        site.path = "defs.main.output.schema.properties.list.items" := by
  have hfails : documentUnit ⟨[stray]⟩ false stray =
      .error (.unresolvedImport "com.example.stray"
        "defs.main.output.schema.properties.list.items" "com.example.absent#x"
        (.missing ⟨"com.example.absent", "x"⟩)) := rfl
  obtain ⟨hdocument, site, hsite, hpath⟩ :=
    (first_unreached ⟨[stray]⟩ false stray).2.2 _ hfails rfl
  exact ⟨_, rfl, hfails, rfl, hdocument, site, hsite, hpath, hpath.symm⟩

end Document

end LexiconCompiler
