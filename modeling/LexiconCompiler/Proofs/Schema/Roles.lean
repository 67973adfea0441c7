import LexiconCompiler.Proofs.Schema.Soundness

set_option autoImplicit false
set_option relaxedAutoImplicit false

/-!
The mappings whose fields are read, each with what it is read as. In a document that was read
without issues the definitions and the properties of an object have different names; of other
mappings only the first entry of a key is looked at.
-/

namespace LexiconCompiler

open LexiconCompiler.Markup

/-- What a mapping is read as. -/
inductive Role where
  | document
  | definitions
  | type (position : Position)
  | properties (params : Bool)
  | object
  | body
  | failure
  deriving DecidableEq

namespace Role

/-- Whether all entries of a mapping are read, and not only those under known keys. -/
def lists : Role → Bool
  | .definitions | .properties _ => true
  | _ => false

/-- What stands under a key of a mapping and is read in turn. The kind is that of the mapping. -/
inductive Leads : Role → Option Kind → String → Role → Prop
  | definitions {kind : Option Kind} : Leads .document kind "defs" .definitions
  | definition {kind : Option Kind} {name : String} :
      Leads .definitions kind name (.type .definition)
  | property {params : Bool} {kind : Option Kind} {name : String} :
      Leads (.properties params) kind name (.type (memberPosition params))
  | items {position : Position} :
      Leads (.type position) (some .array) "items" (.type position.ofItems)
  | fields {position : Position} :
      Leads (.type position) (some .object) "properties" (.properties false)
  | payload {position : Position} : Leads (.type position) (some .record) "record" .object
  | parameters {position : Position} (kind : MethodKind) :
      Leads (.type position) (some kind.kind) "parameters" .object
  | input {position : Position} : Leads (.type position) (some .procedure) "input" .body
  | output {position : Position} (kind : MethodKind) :
      Leads (.type position) (some kind.kind) "output" .body
  | members (params : Bool) :
      Leads .object (some (if params then .params else .object)) "properties" (.properties params)
  | schema {kind : Option Kind} : Leads .body kind "schema" (.type .schema)

end Role

def Markup.Node.kindOf? (entries : List (Key × Node)) : Option Kind :=
  match Node.fieldOf entries "type" with
  | some (.scalar .str name) => Kind.ofName? name
  | _ => none

/-- A mapping at or in a tree is read as something if the tree is read in its role. -/
inductive Markup.Node.Reads : Role → Node → Role → List (Key × Node) → Prop
  | self {role : Role} {entries : List (Key × Node)} : Reads role (.mapping entries) role entries
  | field {role next found : Role} {entries fields : List (Key × Node)} {key : String}
      {child : Node} : role.Leads (Node.kindOf? entries) key next →
      Node.fieldOf entries key = some child → Reads next child found fields →
      Reads role (.mapping entries) found fields
  | failure {position : Position} {entries fields : List (Key × Node)} {items : List Node}
      (kind : MethodKind) : Node.kindOf? entries = some kind.kind →
      Node.fieldOf entries "errors" = some (.sequence items) →
      .mapping fields ∈ items.map Node.bare →
      Reads (.type position) (.mapping entries) .failure fields

def Position.Denoted : Position → Lookup → SchemaType → Prop
  | .definition => fun look t => t.DefinitionDenoted look
  | .property => fun look t => t.ShallowDenoted .property look
  | .parameter => fun look t => t.ShallowDenoted .parameter look
  | .item | .parameterItem => fun look t => t.LeafDenoted look
  | .schema => fun look t => t.SchemaDenoted look

/-- A tree is read in a role without issues. -/
def Role.Admits : Role → Node → Prop
  | .document => fun node => ∃ d, node.Denotes d
  | .definitions => fun node => ∃ entries defs, node = .mapping entries ∧
      ((Node.textEntries entries).map Prod.fst).Nodup ∧
      List.Forall₂ DefinitionEntry (Node.textEntries entries) defs
  | .type position => fun node => ∃ t, Typed position position.Denoted node t
  | .properties params => fun node => ∃ entries properties, node = .mapping entries ∧
      ((Node.textEntries entries).map Prod.fst).Nodup ∧
      List.Forall₂ (Member (memberPosition params)) (Node.textEntries entries) properties
  | .object => fun node => ∃ kinds o, ObjectNode kinds node o
  | .body => fun node => ∃ body, BodyNode node body
  | .failure => fun _ => True

section Admits

variable {entries : List (Key × Node)} {child : Node}

theorem kindOf?_eq {kind : Kind} (h : Node.fieldOf entries "type" = some (.scalar .str kind.name)) :
    Node.kindOf? entries = some kind := by
  simp only [Node.kindOf?, h]
  exact Kind.ofName?_eq_some.mpr rfl

theorem mem_of_fieldOf {key : String} (h : Node.fieldOf entries key = some child) :
    (key, child) ∈ Node.textEntries entries := by
  obtain ⟨before, after, he, -⟩ := List.lookup_eq_some_iff.mp h
  simp [he]

private theorem ObjectType.Denoted.admits {o : ObjectType SchemaType}
    (h : o.Denoted (Node.fieldOf entries)) (hf : Node.fieldOf entries "properties" = some child) :
    (Role.properties o.params).Admits child := by
  rcases h.properties with ⟨hnone, -, -⟩ | ⟨fields, hfields, hdistinct, hmembers⟩
  · rw [hf] at hnone
    cases hnone
  · rw [hf] at hfields
    obtain rfl := Option.some.inj hfields
    exact ⟨fields, o.properties, rfl, hdistinct, hmembers⟩

private theorem OptionField.admits {α : Type} {R : Node → α → Prop} {value : Option α}
    (h : OptionField R (some child) value) : ∃ a, R child a := by
  obtain ⟨a, ha, -⟩ := h
  exact ⟨a, ha⟩

private theorem Typed.fields_of_kind {position : Position} {R : Lookup → SchemaType → Prop}
    {t : SchemaType} {kind : Kind} (h : Typed position R (.mapping entries) t)
    (hkind : Node.kindOf? entries = some kind) :
    position.allows kind = true ∧ t.kind = kind ∧ R (Node.fieldOf entries) t := by
  cases h with
  | fields hname hallows _ hR =>
    rw [kindOf?_eq hname] at hkind
    obtain rfl := Option.some.inj hkind
    exact ⟨hallows, rfl, hR⟩

private theorem method_of_admits {position : Position} {kind : MethodKind}
    (h : (Role.type position).Admits (.mapping entries))
    (hkind : Node.kindOf? entries = some kind.kind) :
    ∃ m : Method SchemaType, m.Denoted (Node.fieldOf entries) kind := by
  obtain ⟨t, ht⟩ := h
  obtain ⟨hallows, hshape, hR⟩ := ht.fields_of_kind hkind
  obtain ⟨d, m, rfl⟩ := SchemaType.exists_method hshape
  cases position with
  | definition => exact ⟨m, hR⟩
  | property | item | parameter | parameterItem | schema => cases kind <;> cases hallows

/-- What is read in turn is read without issues too. -/
private theorem Role.Leads.admits {role next : Role} {key : String}
    (h : role.Leads (Node.kindOf? entries) key next) (ha : role.Admits (.mapping entries))
    (hf : Node.fieldOf entries key = some child) : next.Admits child := by
  generalize hkind : Node.kindOf? entries = kind at h
  cases h with
  | definitions =>
    obtain ⟨d, _, heq, hd⟩ := ha
    obtain rfl := Node.mapping.inj heq
    obtain ⟨fields, hfields, hdistinct, hdefs⟩ := hd.defs
    rw [hf] at hfields
    obtain rfl := Option.some.inj hfields
    exact ⟨fields, d.defs, rfl, hdistinct, hdefs⟩
  | definition =>
    obtain ⟨_, defs, heq, -, hdefs⟩ := ha
    obtain rfl := Node.mapping.inj heq
    obtain ⟨definition, -, hentry⟩ := exists_of_forall₂_mem hdefs.flip (mem_of_fieldOf hf)
    exact ⟨definition.type, hentry.2⟩
  | @property params =>
    obtain ⟨_, properties, heq, -, hmembers⟩ := ha
    obtain rfl := Node.mapping.inj heq
    obtain ⟨p, -, hentry⟩ := exists_of_forall₂_mem hmembers.flip (mem_of_fieldOf hf)
    cases params <;> exact ⟨p.type, hentry.2⟩
  | @items position =>
    obtain ⟨t, ht⟩ := ha
    obtain ⟨hallows, hshape, hR⟩ := ht.fields_of_kind hkind
    obtain ⟨d, items, least, most, rfl⟩ := SchemaType.exists_array hshape
    cases position with
    | definition | property | parameter =>
      obtain ⟨node, hnode, hitem⟩ := hR.1
      rw [hf] at hnode
      obtain rfl := Option.some.inj hnode
      exact ⟨items, hitem⟩
    | item | parameterItem | schema => cases hallows
  | @fields position =>
    obtain ⟨t, ht⟩ := ha
    obtain ⟨hallows, hshape, hR⟩ := ht.fields_of_kind hkind
    obtain ⟨o, rfl, hparams⟩ := SchemaType.exists_object hshape
    rw [← hparams]
    cases position with
    | definition | schema => exact ObjectType.Denoted.admits hR hf
    | property | item | parameter | parameterItem => cases hallows
  | @payload position =>
    obtain ⟨t, ht⟩ := ha
    obtain ⟨hallows, hshape, hR⟩ := ht.fields_of_kind hkind
    obtain ⟨d, key, payload, rfl⟩ := SchemaType.exists_record hshape
    cases position with
    | definition =>
      obtain ⟨-, node, hnode, ho⟩ := hR
      rw [hf] at hnode
      obtain rfl := Option.some.inj hnode
      exact ⟨_, payload, ho⟩
    | property | item | parameter | parameterItem | schema => cases hallows
  | @parameters position kind =>
    obtain ⟨m, hm⟩ := method_of_admits ha hkind
    have hparameters := hm.parameters
    rw [hf] at hparameters
    obtain ⟨o, ho⟩ := hparameters.admits
    exact ⟨_, o, ho⟩
  | @input position =>
    have hprocedure : Node.kindOf? entries = some MethodKind.procedure.kind := hkind
    obtain ⟨m, hm⟩ := method_of_admits ha hprocedure
    have hinput := hm.input
    rw [if_neg (by decide), hf] at hinput
    exact hinput.admits
  | @output position kind =>
    obtain ⟨m, hm⟩ := method_of_admits ha hkind
    have houtput := hm.output
    rw [hf] at houtput
    exact houtput.admits
  | members params =>
    obtain ⟨kinds, o, _, heq, -, hname, -, ho⟩ := ha
    obtain rfl := Node.mapping.inj heq
    rw [kindOf?_eq hname] at hkind
    obtain rfl := (o.kind_eq_iff params).mp (Option.some.inj hkind)
    exact ho.admits hf
  | schema =>
    obtain ⟨body, _, heq, -, -, hschema⟩ := ha
    obtain rfl := Node.mapping.inj heq
    rw [hf] at hschema
    exact hschema.admits

theorem Markup.Node.Reads.admits {role found : Role} {node : Node}
    (h : node.Reads role found entries) (ha : role.Admits node) :
    found.Admits (.mapping entries) := by
  induction h with
  | self => exact ha
  | field hleads hf _ ih => exact ih (hleads.admits ha hf)
  | failure => trivial

private theorem Role.Leads.isLeaf_eq {position : Position} {kind : Kind} {next : Role}
    {key : String} (h : (Role.type position).Leads (some kind) key next) : kind.isLeaf = false := by
  generalize hkind : some kind = found at h
  cases h with
  | items | fields | payload | input =>
    obtain rfl := Option.some.inj hkind
    rfl
  | parameters method | output method =>
    obtain rfl := Option.some.inj hkind
    cases method <;> rfl

theorem Markup.Node.Reads.eq_of_isLeaf {position : Position} {kind : Kind} {found : Role}
    {fields : List (Key × Node)} (h : (Node.mapping entries).Reads (.type position) found fields)
    (hkind : Node.kindOf? entries = some kind) (hleaf : kind.isLeaf = true) :
    found = .type position ∧ fields = entries := by
  cases h with
  | self => exact ⟨rfl, rfl⟩
  | field hleads =>
    rw [hkind] at hleads
    rw [hleads.isLeaf_eq] at hleaf
    cases hleaf
  | failure method hmethod =>
    rw [hkind] at hmethod
    obtain rfl := Option.some.inj hmethod
    cases method <;> cases hleaf

theorem keys_textEntries (entries : List (Key × Node)) :
    (Node.textEntries entries).map Prod.fst = entries.map (·.1.text) := by
  rw [Node.textEntries, List.map_map]
  rfl

/-- Where all entries of a mapping are read without issues they have different keys. -/
theorem Role.Admits.distinct {role : Role} (h : role.Admits (.mapping entries))
    (hlists : role.lists = true) : (entries.map (·.1.text)).Nodup := by
  rw [← keys_textEntries]
  cases role with
  | definitions | properties =>
    obtain ⟨_, _, heq, hdistinct, -⟩ := h
    obtain rfl := Node.mapping.inj heq
    exact hdistinct
  | document | type | object | body | failure => cases hlists

end Admits

end LexiconCompiler
