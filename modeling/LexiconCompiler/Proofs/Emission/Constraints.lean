import LexiconCompiler.Proofs.Emission.Places

set_option autoImplicit false
set_option relaxedAutoImplicit false

/-!
Where the constraints of a type are written. Every type in a definition belongs to a declaration or
to a field of one, and its constraints are among the notes there, with one exception: items of an
array share the field or the declaration of the array, whose notes are only about the array.
-/

namespace LexiconCompiler

open LexiconCompiler.Code LexiconCompiler.Emission

namespace SchemaType

/-- One way down from a type to one that stands directly inside it. -/
inductive Way where
  | payload
  | parameters
  | input
  | output
  | property (name : String)
  | items
  deriving DecidableEq, Repr

def below? : SchemaType -> Way -> Option SchemaType
  | .record _ _ payload, .payload => some (.object payload)
  | .method _ _ m, .parameters => m.parameters.map .object
  | .method _ _ m, .input => m.input.bind Body.schema
  | .method _ _ m, .output => m.output.bind Body.schema
  | .object o, .property name => (o.property? name).map Property.type
  | .array _ items _ _, .items => some items
  | _, _ => none

/-- The type that several ways down lead to, one after the other. -/
def at? (t : SchemaType) (path : List Way) : Option SchemaType := path.foldlM below? t

end SchemaType

def Code.TypeExpr.below? : TypeExpr × Documentation -> SchemaType.Way ->
    Option (TypeExpr × Documentation)
  | (.array element, doc), .items => some (element, doc)
  | (.object fields _, _), .property name =>
    (fields.find? fun field => field.name == name).map fun field => (field.type, field.doc)
  | _, _ => none

def Code.Decl.docAt? (decl : Decl) (path : List SchemaType.Way) : Option Documentation :=
  match decl.type? with
  | some type => (path.foldlM TypeExpr.below? (type, decl.doc)).map Prod.snd
  | none => if path.isEmpty then some decl.doc else none

namespace Definition

/-- The declaration that ways down from a definition lead through, and the ways down from there. -/
def entrance (definition : Definition) : List SchemaType.Way -> String × List SchemaType.Way
  | .parameters :: rest => ("QueryParams", rest)
  | .input :: rest => ("InputSchema", rest)
  | .output :: rest => ("OutputSchema", rest)
  | .payload :: rest => (definition.ownName, rest)
  | path => (if definition.type.kind.isMethod then "Handler" else definition.ownName, path)

end Definition

/-- The documentation of the declaration or field that a type in a definition belongs to. -/
def Code.SourceUnit.docAt? (u : SourceUnit) (definition : Definition)
    (path : List SchemaType.Way) : Option Documentation :=
  (u.decl? (definition.entrance path).1).bind fun decl => decl.docAt? (definition.entrance path).2

namespace SchemaType

variable {t u : SchemaType} {way : Way} {path : List Way}

section Ways

private theorem part_of_below? (h : t.below? way = some u) : Part u t := by
  unfold below? at h
  split at h
  · cases h
    exact .payload
  · obtain ⟨o, ho, rfl⟩ := Option.map_eq_some_iff.mp h
    exact .parameters ho
  · obtain ⟨body, hb, hs⟩ := Option.bind_eq_some_iff.mp h
    exact .input hb hs
  · obtain ⟨body, hb, hs⟩ := Option.bind_eq_some_iff.mp h
    exact .output hb hs
  · obtain ⟨p, hp, rfl⟩ := Option.map_eq_some_iff.mp h
    exact .property (List.mem_of_find?_eq_some hp)
  · cases h
    exact .items
  · cases h

private theorem inside_of_at? (h : t.at? path = some u) : u.Inside t := by
  induction path generalizing t with
  | nil =>
    cases h
    exact .refl u
  | cons way rest ih =>
    rw [at?, List.foldlM_cons] at h
    obtain ⟨part, hpart, hrest⟩ := Option.bind_eq_some_iff.mp h
    exact (ih hrest).trans (part_of_below? hpart).inside

private theorem exists_below? (hnames : ∀ o, t = .object o → (o.properties.map Property.name).Nodup)
    (h : Part u t) : ∃ way, t.below? way = some u := by
  cases h with
  | items => exact ⟨.items, rfl⟩
  | @property o p hp =>
    have hfound : o.property? p.name = some p := by
      refine Text.find?_eq_some_of_unique hp (beq_self_eq_true _) fun other ho hname => ?_
      exact List.inj_on_of_nodup_map (hnames o rfl) ho hp (eq_of_beq hname)
    exact ⟨.property p.name, by simp [below?, hfound]⟩
  | payload => exact ⟨.payload, rfl⟩
  | parameters ho => exact ⟨.parameters, by simp [below?, ho]⟩
  | input hb hs => exact ⟨.input, by simp [below?, hb, hs]⟩
  | output hb hs => exact ⟨.output, by simp [below?, hb, hs]⟩

private theorem inside_iff_at?
    (hnames : ∀ o, (SchemaType.object o).Inside t → (o.properties.map Property.name).Nodup) :
    u.Inside t ↔ ∃ path, t.at? path = some u := by
  constructor
  · intro h
    induction t using SchemaType.induction_parts with
    | step t ih =>
      rcases inside_iff.mp h with rfl | ⟨part, hp, hu⟩
      · exact ⟨[], rfl⟩
      · have hown : ∀ o, t = .object o → (o.properties.map Property.name).Nodup := by
          rintro o rfl
          exact hnames o (.refl _)
        obtain ⟨way, hway⟩ := exists_below? hown hp
        obtain ⟨path, hpath⟩ := ih part hp (fun o ho => hnames o (ho.trans hp.inside)) hu
        refine ⟨way :: path, ?_⟩
        rw [at?, List.foldlM_cons, hway]
        exact hpath
  · rintro ⟨path, hpath⟩
    exact inside_of_at? hpath

private theorem inside_of_carried (h : u.Inside t.carried) : u = t.carried ∨ u.Inside t := by
  cases t with
  | method d kind m =>
    refine (inside_iff.mp h).imp_right fun ⟨part, hp, hu⟩ => hu.trans ?_
    cases hp with
    | parameters ho => exact Part.inside (.parameters ho)
    | input hb hs => exact Part.inside (.input (Option.filter_eq_some_iff.mp hb).1 hs)
    | output hb hs => exact Part.inside (.output (Option.filter_eq_some_iff.mp hb).1 hs)
  | _ => exact Or.inr h

end Ways

end SchemaType

namespace Emission

open LexiconCompiler.SchemaType (Way)

variable {s : Scope} {t u : SchemaType} {type : TypeExpr} {doc : Documentation}

private theorem find?_objectExprs {o : ObjectType SchemaType} {name : String}
    {p : Property SchemaType} (h : o.property? name = some p) :
    ∃ field, (s.objectExprs o).find? (fun field => field.name == name) = some field ∧
      field.type = s.typeExpr p.type ∧ field.doc = documentation p.type := by
  rcases o with ⟨d, required, properties, params⟩
  have hfound : properties.find? ((fun field : FieldSpec TypeExpr => field.name == name) ∘
      fun property => ⟨property.name, s.typeExpr property.type, !required.contains property.name,
        documentation property.type⟩) = some p := h
  rw [Scope.objectExprs, propertyExprs_eq, List.find?_map, hfound]
  exact ⟨_, rfl, rfl, rfl⟩

/-- Along each way down in a type there is one in what is generated for it. A property has its own
documentation, and items have that of their array. -/
private theorem below?_of_derives (hderives : s.Derives t type) {way : Way}
    (h : t.below? way = some u) (doc : Documentation) :
    ∃ below, TypeExpr.below? (type, doc) way =
        some (below, if way = .items then doc else documentation u) ∧ s.Derives u below := by
  have hn := hderives.nestable
  have hu : u.Nestable := hn.part (SchemaType.part_of_below? h)
  have hobject : ∀ o : ObjectType SchemaType, ∀ isOpen, (SchemaType.object o).below? way = some u →
      ∃ below, TypeExpr.below? (.object (s.objectExprs o) isOpen, doc) way =
        some (below, if way = .items then doc else documentation u) ∧ s.Derives u below := by
    intro o isOpen h
    cases way with
    | property name =>
      obtain ⟨p, hp, rfl⟩ := Option.map_eq_some_iff.mp h
      obtain ⟨field, hfield, htype, hdoc⟩ := find?_objectExprs (s := s) hp
      exact ⟨s.typeExpr p.type, by simp [TypeExpr.below?, hfield, htype, hdoc], .nested hu⟩
    | _ => cases h
  cases hderives with
  | object isOpen _ => exact hobject _ isOpen h
  | nested _ =>
    cases t with
    | object o =>
      rw [Scope.typeExpr]
      exact hobject o false h
    | array d items least most =>
      cases way with
      | items =>
        obtain rfl : items = u := Option.some.inj h
        exact ⟨s.typeExpr items, by simp [TypeExpr.below?, Scope.typeExpr], .nested hu⟩
      | _ => cases h
    | token | record | method => exact (hn _ (.refl _)).elim
    | _ => cases way <;> cases h

private theorem foldlM_below?_of_derives (hderives : s.Derives t type) {path : List Way}
    (h : t.at? path = some u) (doc : Documentation) :
    ∃ below found, path.foldlM TypeExpr.below? (type, doc) = some (below, found) ∧
      s.Derives u below := by
  induction path generalizing t type doc with
  | nil =>
    obtain rfl : t = u := Option.some.inj h
    exact ⟨type, doc, rfl, hderives⟩
  | cons way rest ih =>
    rw [SchemaType.at?, List.foldlM_cons] at h
    obtain ⟨part, hpart, hrest⟩ := Option.bind_eq_some_iff.mp h
    obtain ⟨next, hnext, hnextDerives⟩ := below?_of_derives hderives hpart doc
    rw [List.foldlM_cons, hnext]
    exact ih hnextDerives hrest _

private theorem docAt?_append_of_derives {decl : Decl} (htype : decl.type? = some type)
    (hderives : s.Derives t type) {front : List Way} {way : Way}
    (h : t.at? (front ++ [way]) = some u) :
    ∃ doc, decl.docAt? front = some doc ∧
      decl.docAt? (front ++ [way]) = some (if way = .items then doc else documentation u) := by
  rw [SchemaType.at?, List.foldlM_append] at h
  obtain ⟨part, hpart, hrest⟩ := Option.bind_eq_some_iff.mp h
  rw [List.foldlM_cons] at hrest
  obtain ⟨last, hlast, hdone⟩ := Option.bind_eq_some_iff.mp hrest
  obtain rfl : last = u := Option.some.inj hdone
  obtain ⟨below, doc, hfront, hbelow⟩ := foldlM_below?_of_derives hderives hpart decl.doc
  obtain ⟨final, hfinal, _⟩ := below?_of_derives hbelow hlast doc
  refine ⟨doc, ?_, ?_⟩
  · rw [Decl.docAt?, htype]
    simp only [hfront, Option.map_some]
  · rw [Decl.docAt?, htype]
    simp only [List.foldlM_append, hfront, Option.bind_eq_bind, Option.bind_some, List.foldlM_cons,
      hfinal, List.foldlM_nil, Option.pure_def, Option.map_some]

private theorem docAt?_nil (decl : Decl) : decl.docAt? [] = some decl.doc := by
  unfold Decl.docAt?
  split <;> rfl

section Definitions

variable {definition : Definition} {path : List Way}

private theorem isMethod_object (o : ObjectType SchemaType) :
    (SchemaType.object o).kind.isMethod = false := by
  cases hparams : o.params <;> simp [SchemaType.kind, ObjectType.kind, hparams, Kind.isMethod]

private theorem exists_declaresAs (h : definition.type.carried.at? path = some t)
    (hne : path ≠ []) :
    ∃ root, definition.DeclaresAs (definition.entrance path).1 root ∧
      root.at? (definition.entrance path).2 = some t := by
  obtain ⟨way, rest, rfl⟩ := List.exists_cons_of_ne_nil hne
  have hsplit := h
  rw [SchemaType.at?, List.foldlM_cons] at hsplit
  obtain ⟨part, hway, hrest⟩ := Option.bind_eq_some_iff.mp hsplit
  rcases definition with ⟨name, type⟩
  cases type with
  | record d key payload =>
    cases way with
    | payload =>
      obtain rfl : _ = part := Option.some.inj hway
      exact ⟨_, .payload rfl, hrest⟩
    | _ => cases hway
  | method d kind m =>
    cases way with
    | parameters =>
      obtain ⟨o, ho, rfl⟩ := Option.map_eq_some_iff.mp hway
      exact ⟨_, .parameters rfl ho, hrest⟩
    | input =>
      obtain ⟨body, hbody, hs⟩ := Option.bind_eq_some_iff.mp hway
      obtain ⟨hbody, hz⟩ := Option.filter_eq_some_iff.mp hbody
      exact ⟨_, .input rfl hbody (by simpa using hz) hs, hrest⟩
    | output =>
      obtain ⟨body, hbody, hs⟩ := Option.bind_eq_some_iff.mp hway
      obtain ⟨hbody, hz⟩ := Option.filter_eq_some_iff.mp hbody
      exact ⟨_, .output rfl hbody (by simpa using hz) hs, hrest⟩
    | _ => cases hway
  | object o =>
    cases way with
    | property =>
      refine ⟨_, ?_, h⟩
      simp only [Definition.entrance, isMethod_object, Bool.false_eq_true, if_false]
      exact .own trivial
    | _ => cases hway
  | array d items least most =>
    cases way with
    | items => exact ⟨_, .own trivial, h⟩
    | _ => cases hway
  | _ => cases way <;> cases hway

private theorem exists_own (s : Scope) (skipGuards : Bool) (definition : Definition) :
    ∃ decl ∈ s.definitionDecls skipGuards definition, decl.name = (definition.entrance []).1 ∧
      decl.doc.notes = notes definition.type ++ definition.keyNotes := by
  rcases definition with ⟨name, t⟩
  cases t with
  | record d key payload =>
    refine ⟨_, List.mem_cons_self, rfl, ?_⟩
    by_cases hkey : key.isEmpty = true <;> simp [Definition.keyNotes, hkey, documentation, notes]
  | method d kind m =>
    refine ⟨handler ⟨d, []⟩, ?_, ?_, rfl⟩
    · simp [Scope.definitionDecls, Scope.contractDecls]
    · cases kind <;> rfl
  | object o =>
    refine ⟨_, List.mem_cons_self, ?_, (List.append_nil _).symm⟩
    simp only [Definition.entrance, isMethod_object, Bool.false_eq_true, if_false]
    exact (ownName_object name o).symm
  | _ => exact ⟨_, List.mem_cons_self, rfl, (List.append_nil _).symm⟩

private theorem entrance_append_items (definition : Definition) (front : List Way) :
    definition.entrance (front ++ [.items]) =
      ((definition.entrance front).1, (definition.entrance front).2 ++ [.items]) := by
  rcases front with _ | ⟨way, rest⟩
  · rfl
  · cases way <;> rfl

private theorem entrance_suffix (definition : Definition) (path : List Way) :
    (definition.entrance path).2 <:+ path := by
  rcases path with _ | ⟨way, rest⟩
  · exact List.suffix_refl _
  · cases way with
    | property | items => exact List.suffix_refl _
    | _ => exact List.suffix_cons _ _

theorem inside_carried_iff_at? (hw : definition.WellFormed) :
    t.Inside definition.type.carried ↔ ∃ path, definition.type.carried.at? path = some t := by
  refine SchemaType.inside_iff_at? fun o ho => ?_
  have hinside : (SchemaType.object o).Inside definition.type := by
    refine (SchemaType.inside_of_carried ho).elim (fun heq => ?_) id
    cases htype : definition.type with
    | method => rw [htype] at heq; cases heq
    | _ =>
      rw [htype] at heq
      rw [heq]
      exact .refl _
  exact (hw.valid _ hinside).shaped

/-- Where the constraints of a type in a definition are noted: at the declaration or field of the
type, unless the type is that of the items of an array. What is noted there is about the array. -/
structure Noted (u : SourceUnit) (definition : Definition) (path : List Way) (t : SchemaType) :
    Prop where
  own : path.getLast? ≠ some .items → ∃ doc, u.docAt? definition path = some doc ∧
    doc.notes = notes t ++ if (definition.entrance path).2 = [] then definition.keyNotes else []
  items : ∀ front, path = front ++ [.items] →
    (∃ d least most, definition.type.carried.at? front = some (.array d t least most)) ∧
    ∃ doc, u.docAt? definition path = some doc ∧ u.docAt? definition front = some doc

private theorem exists_array {front : List Way} (h : t.at? (front ++ [.items]) = some u) :
    ∃ d least most, t.at? front = some (.array d u least most) := by
  rw [SchemaType.at?, List.foldlM_append] at h
  obtain ⟨part, hpart, hrest⟩ := Option.bind_eq_some_iff.mp h
  rw [List.foldlM_cons] at hrest
  obtain ⟨last, hlast, hdone⟩ := Option.bind_eq_some_iff.mp hrest
  obtain rfl : last = u := Option.some.inj hdone
  cases part with
  | array d items least most =>
    obtain rfl : items = last := Option.some.inj hlast
    exact ⟨d, least, most, hpart⟩
  | _ => cases hlast

section Unit

variable {s : Scope} {skipGuards : Bool} {defs : List Definition} {unit : SourceUnit}

private theorem decl?_of_definitionDecls (hn : (unit.decls.map Decl.name).Nodup)
    (hdecls : unit.decls = defs.flatMap (s.definitionDecls skipGuards)) (hdef : definition ∈ defs)
    {decl : Decl} (hd : decl ∈ s.definitionDecls skipGuards definition) :
    unit.decl? decl.name = some decl := by
  refine SourceUnit.decl?_of_mem hn ?_
  rw [hdecls]
  exact List.mem_flatMap.mpr ⟨definition, hdef, hd⟩

private theorem noted_nil (hn : (unit.decls.map Decl.name).Nodup)
    (hdecls : unit.decls = defs.flatMap (s.definitionDecls skipGuards)) (hdef : definition ∈ defs) :
    Noted unit definition [] definition.type.carried := by
  obtain ⟨decl, hd, hname, hnotes⟩ := exists_own s skipGuards definition
  have hcarried : notes definition.type = notes definition.type.carried := by
    cases definition.type <;> rfl
  have hdoc : unit.docAt? definition [] = some decl.doc := by
    rw [SourceUnit.docAt?, ← hname, decl?_of_definitionDecls hn hdecls hdef hd]
    exact docAt?_nil decl
  refine ⟨fun _ => ⟨decl.doc, hdoc, ?_⟩, fun front hfront => ?_⟩
  · rw [hnotes, hcarried]
    rfl
  · exact absurd hfront (by simp)

/-- What the unit of a document notes of the types in its definitions. -/
theorem noted_of_at? (hn : (unit.decls.map Decl.name).Nodup)
    (hdecls : unit.decls = defs.flatMap (s.definitionDecls skipGuards))
    (hdef : definition ∈ defs) (hw : definition.WellFormed)
    (h : definition.type.carried.at? path = some t) : Noted unit definition path t := by
  by_cases hnil : path = []
  · subst hnil
    obtain rfl : _ = t := Option.some.inj h
    exact noted_nil hn hdecls hdef
  obtain ⟨root, hdeclares, hroot⟩ := exists_declaresAs h hnil
  obtain ⟨decl, hd, hname, hnotes, whole, htype, hderives⟩ :=
    exists_of_declaresAs s skipGuards hw hdeclares
  have hdoc {other : List Way} (hsame : (definition.entrance other).1 = decl.name) :
      unit.docAt? definition other = decl.docAt? (definition.entrance other).2 := by
    rw [SourceUnit.docAt?, hsame, decl?_of_definitionDecls hn hdecls hdef hd]
    rfl
  constructor
  · intro hlast
    rw [hdoc hname.symm]
    rcases List.eq_nil_or_concat (definition.entrance path).2 with hrest | ⟨front, way, hrest⟩
    · rw [hrest] at hroot ⊢
      obtain rfl : root = t := Option.some.inj hroot
      exact ⟨decl.doc, docAt?_nil decl, by simpa using hnotes⟩
    · rw [List.concat_eq_append] at hrest
      rw [hrest] at hroot ⊢
      obtain ⟨doc, _, hfinal⟩ := docAt?_append_of_derives htype hderives hroot
      have hway : way ≠ .items := by
        rintro rfl
        obtain ⟨before, hbefore⟩ := entrance_suffix definition path
        rw [← hbefore, hrest, ← List.append_assoc] at hlast
        exact hlast List.getLast?_concat
      rw [if_neg hway] at hfinal
      exact ⟨_, hfinal, by simp [documentation]⟩
  · rintro front rfl
    have hentrance := entrance_append_items definition front
    rw [hentrance] at hroot hname
    obtain ⟨doc, hfront, hfinal⟩ := docAt?_append_of_derives htype hderives hroot
    refine ⟨exists_array h, doc, ?_, ?_⟩
    · rw [hdoc (by rw [hentrance, hname]), hentrance, hfinal]
      rfl
    · rw [hdoc hname.symm, hfront]

end Unit

end Definitions

end Emission

end LexiconCompiler
