import LexiconCompiler.Proofs.Registry
import LexiconCompiler.Proofs.Schema.WellFormed

set_option autoImplicit false
set_option relaxedAutoImplicit false

/-!
The definitions of a batch and their addresses. Different definitions have different addresses, and
each of them is found under every spelling of its own.
-/

namespace LexiconCompiler

def Document.address (document : Document) (definition : Definition) : Address :=
  ⟨document.id, definition.name⟩

/-- A text is read as the address of a definition, and the definition is what is found there. -/
structure Registry.Finds (r : Registry) (document : Document) (definition : Definition)
    (text : String) : Prop where
  parsed : Address.parse text "" = .ok (document.address definition)
  found : r.lookup text = .ok definition.type

def definitionSites (documents : List Document) : List (Document × Definition) :=
  documents.flatMap fun document => document.defs.map (Prod.mk document)

theorem mem_definitionSites {documents : List Document} {document : Document}
    {definition : Definition} :
    (document, definition) ∈ definitionSites documents ↔
      document ∈ documents ∧ definition ∈ document.defs := by
  simp only [definitionSites, List.mem_flatMap, List.mem_map, Prod.mk.injEq]
  constructor
  · rintro ⟨_, hm, _, hdef, rfl, rfl⟩
    exact ⟨hm, hdef⟩
  · rintro ⟨hm, hdef⟩
    exact ⟨document, hm, definition, hdef, rfl, rfl⟩

namespace Document

variable {document : Document} {definition : Definition}

theorem proper_address (hw : document.toDraft.WellFormed) (hdef : definition ∈ document.defs) :
    (document.address definition).Proper := by
  have hname := (hw.defs definition hdef).name
  simp only [Text.isAlnumWord, Bool.and_eq_true, Bool.not_eq_true', String.isEmpty_eq_false_iff]
    at hname
  exact ⟨hw.id, hname.2, hname.1⟩

private theorem def?_of_mem (hw : document.toDraft.WellFormed) (hdef : definition ∈ document.defs) :
    document.def? definition.name = some definition.type := by
  have hfound : document.defs.find? (fun other => other.name == definition.name) =
      some definition :=
    Text.find?_eq_some_of_unique hdef (beq_self_eq_true _) fun other ho hname =>
      List.inj_on_of_nodup_map hw.distinct ho hdef (eq_of_beq hname)
  rw [Draft.def?, hfound, Option.map_some]

end Document

section Batches

variable {documents : List Document} (hd : DistinctIds documents)
  (hw : ∀ document ∈ documents, document.toDraft.WellFormed)
  {document other : Document} {definition another : Definition}
include hd hw

theorem find?_address (hm : document ∈ documents) (hdef : definition ∈ document.defs) :
    (Registry.mk documents).find? (document.address definition) = some definition.type :=
  (Registry.find?_eq_some hd).mpr
    ⟨document, hm, rfl, Document.def?_of_mem (hw document hm) hdef⟩

theorem finds_of_parse (hm : document ∈ documents) (hdef : definition ∈ document.defs)
    {text : String} (h : Address.parse text "" = .ok (document.address definition)) :
    (Registry.mk documents).Finds document definition text :=
  ⟨h, by simp [Registry.lookup, h, Registry.locate, find?_address hd hw hm hdef]⟩

theorem eq_of_address_eq (hm : document ∈ documents) (hdef : definition ∈ document.defs)
    (ho : other ∈ documents) (hanother : another ∈ other.defs)
    (h : document.address definition = other.address another) :
    document = other ∧ definition = another := by
  obtain ⟨hid, hname⟩ := Address.mk.inj h
  obtain rfl := hd.eq_of_id_eq hm ho hid
  exact ⟨rfl, List.inj_on_of_nodup_map (hw document hm).distinct hdef hanother hname⟩

theorem nodup_addresses :
    ((definitionSites documents).map fun site => site.1.address site.2).Nodup := by
  have hids : documents.Pairwise fun a b => a.id ≠ b.id :=
    (List.pairwise_map.mp hd).imp fun hne he => hne (by rw [he])
  rw [definitionSites, List.map_flatMap, List.nodup_flatMap]
  refine ⟨fun document hm => ?_, hids.imp fun hne address ha hb => ?_⟩
  · have hnames := (hw document hm).distinct
    rw [List.map_map]
    refine List.Nodup.of_map Address.fragment ?_
    rw [List.map_map]
    exact hnames
  · simp only [List.map_map, List.mem_map, Function.comp_apply] at ha hb
    obtain ⟨_, _, rfl⟩ := ha
    obtain ⟨_, _, he⟩ := hb
    exact hne (Address.mk.inj he).1.symm

end Batches

end LexiconCompiler
