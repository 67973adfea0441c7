import LexiconCompiler.Proofs.Emission.Names
import LexiconCompiler.Proofs.Emission.Needs

set_option autoImplicit false
set_option relaxedAutoImplicit false

/-!
References of a document and what stands in their places in its unit. A reference may stand in a
property, in items, in a union, in a payload, in parameters or in a body; in each of these places
the unit has the type of the reference, and it has nothing there that comes from elsewhere.
-/

namespace LexiconCompiler

open LexiconCompiler.Code

namespace SchemaType

/-- A reference occurs in a type, at any depth. -/
def Holds (t : SchemaType) (ref : String) : Prop := ∃ u : SchemaType, u.Inside t ∧ u.Cites ref

private theorem holds_iff {t : SchemaType} {ref : String} :
    t.Holds ref ↔ t.Cites ref ∨ ∃ u, Part u t ∧ u.Holds ref := by
  constructor
  · rintro ⟨u, hu, hc⟩
    rcases inside_iff.mp hu with rfl | ⟨part, hp, hu⟩
    · exact Or.inl hc
    · exact Or.inr ⟨part, hp, u, hu, hc⟩
  · rintro (hc | ⟨part, hp, u, hu, hc⟩)
    · exact ⟨t, .refl t, hc⟩
    · exact ⟨u, hu.trans hp.inside, hc⟩

/-- A reference of a type, and what a generated type has in its place. -/
inductive Place : SchemaType -> TypeExpr -> String -> TypeExpr -> Prop
  | ref {d ref : String} {type : TypeExpr} : Place (.ref d ref) type ref type
  | member {d : String} {refs : List String} {members : List TypeExpr} {isOpen : Bool}
      {base : Option ScalarKind} {ref : String} {type : TypeExpr} :
      (ref, type) ∈ refs.zip members → Place (.union d refs) (.union members isOpen base) ref type
  | items {d : String} {items : SchemaType} {least most : Option Nat} {element : TypeExpr}
      {ref : String} {type : TypeExpr} : Place items element ref type →
      Place (.array d items least most) (.array element) ref type
  | property {o : ObjectType SchemaType} {fields : List (FieldSpec TypeExpr)} {isOpen : Bool}
      {p : Property SchemaType} {field : FieldSpec TypeExpr} {ref : String} {type : TypeExpr} :
      (p, field) ∈ o.properties.zip fields → Place p.type field.type ref type →
      Place (.object o) (.object fields isOpen) ref type

end SchemaType

def Code.Decl.type? (decl : Decl) : Option TypeExpr :=
  match decl.declared with
  | .interface fields isOpen => some (.object fields isOpen)
  | .alias type => some type
  | _ => none

/-- The types of a definition that its unit declares, each under its name. A body without a media
type declares none. -/
inductive Definition.DeclaresAs (definition : Definition) : String -> SchemaType -> Prop
  | own : definition.type.IsNested → DeclaresAs definition definition.ownName definition.type
  | payload {d key : String} {o : ObjectType SchemaType} : definition.type = .record d key o →
      DeclaresAs definition definition.ownName (.object o)
  | parameters {d : String} {kind : MethodKind} {m : Method SchemaType}
      {o : ObjectType SchemaType} : definition.type = .method d kind m → m.parameters = some o →
      DeclaresAs definition "QueryParams" (.object o)
  | input {d : String} {kind : MethodKind} {m : Method SchemaType} {body : Body SchemaType}
      {schema : SchemaType} : definition.type = .method d kind m → m.input = some body →
      body.encoding.isZero = false → body.schema = some schema →
      DeclaresAs definition "InputSchema" schema
  | output {d : String} {kind : MethodKind} {m : Method SchemaType} {body : Body SchemaType}
      {schema : SchemaType} : definition.type = .method d kind m → m.output = some body →
      body.encoding.isZero = false → body.schema = some schema →
      DeclaresAs definition "OutputSchema" schema

/-- What is noted of a definition besides its constraints: how the key of a record is made. -/
def Definition.keyNotes (definition : Definition) : List String :=
  match definition.type with
  | .record _ key _ => if key.isEmpty then [] else ["key: " ++ key]
  | _ => []

def Code.SourceUnit.HasInPlace (u : SourceUnit) (definition : Definition) (ref : String)
    (type : TypeExpr) : Prop :=
  ∃ name t decl whole, definition.DeclaresAs name t ∧ u.decl? name = some decl ∧
    decl.type? = some whole ∧ t.Place whole ref type

namespace Emission

/-- A type that may stand inside another one, and what is generated for it. An object may be left
open. -/
inductive Scope.Derives (s : Scope) : SchemaType -> TypeExpr -> Prop
  | nested {t : SchemaType} : t.Nestable → Derives s t (s.typeExpr t)
  | object {o : ObjectType SchemaType} (isOpen : Bool) : (SchemaType.object o).Nestable →
      Derives s (.object o) (.object (s.objectExprs o) isOpen)

section Types

variable {s : Scope} {ref : String} {type : TypeExpr}

private theorem place_iff_of_leaf {t : SchemaType} (hl : t.IsLeaf) (hc : ¬ t.Cites ref)
    (whole : TypeExpr) (P : Prop) : t.Place whole ref type ↔ t.Holds ref ∧ P := by
  have hnone : ¬ t.Holds ref := by
    rw [SchemaType.holds_iff, not_or]
    exact ⟨hc, fun ⟨_, hp, _⟩ => hl.not_part hp⟩
  refine iff_of_false (fun hp => ?_) fun h => hnone h.1
  cases hp with
  | ref => exact hc .ref
  | member hm => exact hc (.union (List.of_mem_zip hm).1)
  | items => exact hl
  | property => exact hl

private theorem place_object_iff {o : ObjectType SchemaType}
    (h : ∀ p ∈ o.properties, p.type.Place (s.typeExpr p.type) ref type ↔
      p.type.Holds ref ∧ type = s.refExpr ref) (isOpen : Bool) :
    (SchemaType.object o).Place (.object (s.objectExprs o) isOpen) ref type ↔
      (SchemaType.object o).Holds ref ∧ type = s.refExpr ref := by
  rcases o with ⟨d, required, properties, params⟩
  rw [Scope.objectExprs, propertyExprs_eq, SchemaType.holds_iff]
  constructor
  · intro hp
    cases hp with
    | property hm hp =>
      rw [← List.map_prod_left_eq_zip] at hm
      obtain ⟨p, hmem, he⟩ := List.mem_map.mp hm
      obtain ⟨rfl, rfl⟩ := Prod.mk.inj he
      obtain ⟨hholds, htype⟩ := (h p hmem).mp hp
      exact ⟨Or.inr ⟨_, .property hmem, hholds⟩, htype⟩
  · rintro ⟨hc | ⟨_, hpart, hholds⟩, htype⟩
    · cases hc
    · obtain ⟨p, hmem, rfl⟩ := SchemaType.part_object.mp hpart
      have hplace := (h p hmem).mpr ⟨hholds, htype⟩
      have hfield := List.mem_map_of_mem hmem (f := fun p => (p, (⟨p.name, s.typeExpr p.type,
        !required.contains p.name, documentation p.type⟩ : FieldSpec TypeExpr)))
      rw [List.map_prod_left_eq_zip] at hfield
      exact .property hfield hplace

private theorem place_typeExpr_iff {t : SchemaType} (hn : t.Nestable) :
    t.Place (s.typeExpr t) ref type ↔ t.Holds ref ∧ type = s.refExpr ref := by
  induction t using SchemaType.induction_parts with
  | step t ih =>
    cases t with
    | array d items least most =>
      have hitems := ih items .items (hn.part .items)
      rw [Scope.typeExpr, SchemaType.holds_iff]
      constructor
      · rintro ⟨⟩
        rename_i hp
        obtain ⟨hholds, htype⟩ := hitems.mp hp
        exact ⟨Or.inr ⟨items, .items, hholds⟩, htype⟩
      · rintro ⟨hc | ⟨_, hpart, hholds⟩, htype⟩
        · cases hc
        · obtain rfl := SchemaType.part_array.mp hpart
          exact .items (hitems.mpr ⟨hholds, htype⟩)
    | object o =>
      rw [Scope.typeExpr]
      exact place_object_iff (fun p hp => ih p.type (.property hp) (hn.part (.property hp))) false
    | ref d target =>
      rw [Scope.typeExpr]
      constructor
      · rintro ⟨⟩
        exact ⟨⟨_, .refl _, .ref⟩, rfl⟩
      · rintro ⟨hholds, rfl⟩
        rcases SchemaType.holds_iff.mp hholds with hc | ⟨_, hpart, _⟩
        · cases hc
          exact .ref
        · cases hpart
    | union d targets =>
      rw [Scope.typeExpr, TypeExpr.oneOf]
      constructor
      · rintro ⟨⟩
        rename_i hm
        rw [← List.map_prod_left_eq_zip] at hm
        obtain ⟨target, ht, he⟩ := List.mem_map.mp hm
        obtain ⟨rfl, rfl⟩ := Prod.mk.inj he
        exact ⟨⟨_, .refl _, .union ht⟩, rfl⟩
      · rintro ⟨hholds, rfl⟩
        rcases SchemaType.holds_iff.mp hholds with hc | ⟨_, hpart, _⟩
        · cases hc with
          | union ht =>
            refine .member ?_
            rw [← List.map_prod_left_eq_zip]
            exact List.mem_map.mpr ⟨_, ht, rfl⟩
        · cases hpart
    | token | record | method => exact (hn _ (.refl _)).elim
    | _ =>
      refine place_iff_of_leaf ?_ ?_ _ _
      · trivial
      · rintro ⟨⟩

private theorem place_objectExprs_iff {o : ObjectType SchemaType}
    (hn : (SchemaType.object o).Nestable) (isOpen : Bool) :
    (SchemaType.object o).Place (.object (s.objectExprs o) isOpen) ref type ↔
      (SchemaType.object o).Holds ref ∧ type = s.refExpr ref :=
  place_object_iff (fun _ hp => place_typeExpr_iff (hn.part (.property hp))) isOpen

theorem Scope.Derives.nestable {t : SchemaType} {whole : TypeExpr} (h : s.Derives t whole) :
    t.Nestable := by
  cases h with
  | nested hn => exact hn
  | object _ hn => exact hn

private theorem Scope.Derives.place_iff {t : SchemaType} {whole : TypeExpr}
    (h : s.Derives t whole) :
    t.Place whole ref type ↔ t.Holds ref ∧ type = s.refExpr ref := by
  cases h with
  | nested hn => exact place_typeExpr_iff hn
  | object isOpen hn => exact place_objectExprs_iff hn isOpen

end Types

section Definitions

variable {s : Scope} {skipGuards : Bool} {definition : Definition}

private theorem nestable_own (hw : definition.WellFormed) (hn : definition.type.IsNested) :
    definition.type.Nestable := by
  have hl := hw.legal
  cases ht : definition.type with
  | object o =>
    rw [ht] at hl
    exact ObjectType.IsPlain.nestable hl
  | array d items least most =>
    rw [ht] at hl
    exact SchemaType.nestable_array hl
  | token | record | method =>
    rw [ht] at hn
    exact hn.elim
  | _ =>
    refine SchemaType.IsItem.nestable ?_
    trivial

private theorem type?_ofType (name : String) (doc : Documentation) (type : TypeExpr) :
    (Decl.ofType name doc type).type? = some type := by
  cases type <;> rfl

private theorem notes_of_isSchema {schema : SchemaType} (h : schema.IsSchema) :
    notes schema = [] := by
  cases schema with
  | object | ref | union => rfl
  | _ => exact h.elim

private theorem exists_schemaDecls (s : Scope) (name : String) {body : Body SchemaType}
    {schema : SchemaType} (hz : body.encoding.isZero = false) (hs : body.schema = some schema)
    (hschema : schema.IsSchema) :
    ∃ decl ∈ s.schemaDecls name (some body), decl.name = name ∧ decl.doc.notes = notes schema ∧
      ∃ whole, decl.type? = some whole ∧ s.Derives schema whole := by
  rcases body with ⟨d, encoding, _⟩
  obtain rfl : _ = some schema := hs
  have hdoc : (Decl.ofType name ⟨schema.description, []⟩ (s.typeExpr schema)).doc.notes = [] := by
    cases s.typeExpr schema <;> rfl
  refine ⟨.ofType name ⟨schema.description, []⟩ (s.typeExpr schema), ?_, Decl.name_ofType ..,
    hdoc.trans (notes_of_isSchema hschema).symm, _, type?_ofType .., .nested hschema.nestable⟩
  simp only [Scope.schemaDecls, hz, Bool.false_eq_true, if_false, List.mem_singleton]

theorem exists_of_declaresAs (s : Scope) (skipGuards : Bool) (hw : definition.WellFormed)
    {name : String} {t : SchemaType} (h : definition.DeclaresAs name t) :
    ∃ decl ∈ s.definitionDecls skipGuards definition, decl.name = name ∧
      decl.doc.notes = notes t ++ definition.keyNotes ∧
      ∃ whole, decl.type? = some whole ∧ s.Derives t whole := by
  have hl := hw.legal
  cases h with
  | own hn =>
    have hnestable := nestable_own hw hn
    rcases definition with ⟨name, t⟩
    cases t with
    | object o =>
      exact ⟨_, List.mem_cons_self, (ownName_object name o).symm, rfl, _, rfl,
        .object true hnestable⟩
    | token | record | method => exact hn.elim
    | _ =>
      exact ⟨_, List.mem_cons_self, rfl, (List.append_nil _).symm, _, rfl, .nested hnestable⟩
  | @payload d key o ht =>
    rcases definition with ⟨name, _⟩
    obtain rfl : _ = SchemaType.record _ _ _ := ht
    refine ⟨_, List.mem_cons_self, rfl, ?_, _, rfl, .object true (ObjectType.IsPlain.nestable hl)⟩
    by_cases hkey : key.isEmpty = true <;>
      simp [Definition.keyNotes, hkey, documentation, notes]
  | parameters ht ho =>
    rcases definition with ⟨name, _⟩
    obtain rfl : _ = SchemaType.method _ _ _ := ht
    refine ⟨_, List.mem_cons_self, rfl, rfl, _, rfl, ?_⟩
    rw [ho]
    exact .object false (hl.1 _ ho).nestable
  | input ht hb hz hs =>
    rcases definition with ⟨name, _⟩
    obtain rfl : _ = SchemaType.method _ _ _ := ht
    have hschema := (Method.forall_bodies.mp hl.2).1 _ hb _ hs
    obtain ⟨decl, hd, hname, hnotes, htype⟩ := exists_schemaDecls s "InputSchema" hz hs hschema
    refine ⟨decl, ?_, hname, hnotes.trans (List.append_nil _).symm, htype⟩
    simp [Scope.definitionDecls, Scope.contractDecls, hb, hd]
  | output ht hb hz hs =>
    rcases definition with ⟨name, _⟩
    obtain rfl : _ = SchemaType.method _ _ _ := ht
    have hschema := (Method.forall_bodies.mp hl.2).2 _ hb _ hs
    obtain ⟨decl, hd, hname, hnotes, htype⟩ := exists_schemaDecls s "OutputSchema" hz hs hschema
    refine ⟨decl, ?_, hname, hnotes.trans (List.append_nil _).symm, htype⟩
    simp [Scope.definitionDecls, Scope.contractDecls, hb, hd]

private theorem holds_carried_iff {ref : String} :
    definition.type.carried.Holds ref ↔
      ∃ name t, definition.DeclaresAs name t ∧ t.Holds ref := by
  constructor
  · intro h
    rcases definition with ⟨name, t⟩
    cases t with
    | token d =>
      rcases SchemaType.holds_iff.mp h with hc | ⟨_, hpart, _⟩
      · cases hc
      · cases hpart
    | record d key payload =>
      rcases SchemaType.holds_iff.mp h with hc | ⟨_, hpart, hh⟩
      · cases hc
      · rw [SchemaType.part_record.mp hpart] at hh
        exact ⟨_, _, .payload rfl, hh⟩
    | method d kind m =>
      rcases SchemaType.holds_iff.mp h with hc | ⟨_, hpart, hh⟩
      · cases hc
      · cases hpart with
        | parameters ho => exact ⟨_, _, .parameters rfl ho, hh⟩
        | input hb hs =>
          obtain ⟨hb, hz⟩ := Option.filter_eq_some_iff.mp hb
          exact ⟨_, _, .input rfl hb (by simpa using hz) hs, hh⟩
        | output hb hs =>
          obtain ⟨hb, hz⟩ := Option.filter_eq_some_iff.mp hb
          exact ⟨_, _, .output rfl hb (by simpa using hz) hs, hh⟩
    | _ => exact ⟨_, _, .own trivial, h⟩
  · rintro ⟨name, t, h, hh⟩
    cases h with
    | own hn =>
      rcases definition with ⟨name, t⟩
      cases t with
      | method => exact hn.elim
      | _ => exact hh
    | payload ht =>
      rw [ht]
      exact SchemaType.holds_iff.mpr (Or.inr ⟨_, .payload, hh⟩)
    | parameters ht ho =>
      rw [ht]
      exact SchemaType.holds_iff.mpr (Or.inr ⟨_, .parameters ho, hh⟩)
    | input ht hb hz hs =>
      rw [ht]
      refine SchemaType.holds_iff.mpr (Or.inr ⟨_, .input ?_ hs, hh⟩)
      exact Option.filter_eq_some_iff.mpr ⟨hb, by simpa using hz⟩
    | output ht hb hz hs =>
      rw [ht]
      refine SchemaType.holds_iff.mpr (Or.inr ⟨_, .output ?_ hs, hh⟩)
      exact Option.filter_eq_some_iff.mpr ⟨hb, by simpa using hz⟩

end Definitions

/-- The unit of a document has the type of each reference in its places, and nothing else there. -/
theorem hasInPlace_iff {s : Scope} {skipGuards : Bool} {defs : List Definition} {u : SourceUnit}
    (hn : (u.decls.map Decl.name).Nodup)
    (hdecls : u.decls = defs.flatMap (s.definitionDecls skipGuards)) {definition : Definition}
    (hdef : definition ∈ defs) (hw : definition.WellFormed) {ref : String} {type : TypeExpr} :
    u.HasInPlace definition ref type ↔
      definition.type.carried.Holds ref ∧ type = s.refExpr ref := by
  have hfound {name : String} {t : SchemaType} (h : definition.DeclaresAs name t) :
      ∃ decl whole, u.decl? name = some decl ∧ decl.type? = some whole ∧
        ∀ ref type, t.Place whole ref type ↔ t.Holds ref ∧ type = s.refExpr ref := by
    obtain ⟨decl, hd, rfl, _, whole, htype, hderives⟩ := exists_of_declaresAs s skipGuards hw h
    have hmem : decl ∈ u.decls := by
      rw [hdecls]
      exact List.mem_flatMap.mpr ⟨definition, hdef, hd⟩
    exact ⟨decl, whole, SourceUnit.decl?_of_mem hn hmem, htype, fun _ _ => hderives.place_iff⟩
  rw [holds_carried_iff]
  constructor
  · rintro ⟨name, t, decl, whole, hdeclares, hd, hwhole, hplace⟩
    obtain ⟨decl', whole', hd', hwhole', hplaces⟩ := hfound hdeclares
    obtain rfl := Option.some.inj (hd.symm.trans hd')
    obtain rfl := Option.some.inj (hwhole.symm.trans hwhole')
    obtain ⟨hholds, htype⟩ := (hplaces ref type).mp hplace
    exact ⟨⟨name, t, hdeclares, hholds⟩, htype⟩
  · rintro ⟨⟨name, t, hdeclares, hholds⟩, htype⟩
    obtain ⟨decl, whole, hd, hwhole, hplaces⟩ := hfound hdeclares
    exact ⟨name, t, decl, whole, hdeclares, hd, hwhole, (hplaces ref type).mpr ⟨hholds, htype⟩⟩

end Emission

end LexiconCompiler
