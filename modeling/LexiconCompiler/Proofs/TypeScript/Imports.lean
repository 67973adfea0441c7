import LexiconCompiler.Proofs.Text.Distinct
import LexiconCompiler.Proofs.TypeScript.Printing
import Mathlib.Data.List.Induction
import Mathlib.Data.List.Perm.Basic

set_option autoImplicit false
set_option relaxedAutoImplicit false

/-!
The import statements of a file and the names they bind: the local names of libraries, the names
that are taken one by one, and the aliases of units that are taken as a whole.
-/

namespace LexiconCompiler.TypeScript

open LexiconCompiler.Code LexiconCompiler.Text

/-- A name in the list of an import, with its local name if that is another one. -/
structure ImportItem where
  name : String
  localName : Option String
  deriving DecidableEq, Repr

namespace ImportItem

def here (item : ImportItem) : String := item.localName.getD item.name

def text (item : ImportItem) : String :=
  match item.localName with
  | some localName => item.name ++ " as " ++ localName
  | none => item.name

end ImportItem

/-- An import from a source. -/
inductive ImportStatement where
  | default (name source : String)
  | named (items : List ImportItem) (source : String)
  | whole (localName source : String)
  deriving DecidableEq, Repr

namespace ImportStatement

def text : ImportStatement -> String
  | default name source => "import " ++ name ++ " from '" ++ source ++ "'\n"
  | named items source =>
    "import \x7b " ++ joinWith ", " (items.map ImportItem.text) ++ " \x7d from '" ++ source ++ "'\n"
  | whole localName source => "import * as " ++ localName ++ " from '" ++ source ++ "'\n"

/-- The local names that a statement binds. -/
def binds : ImportStatement -> List String
  | default name _ => [name]
  | named items _ => items.map ImportItem.here
  | whole localName _ => [localName]

def ofItems (items : List ImportItem) (source : String) : List ImportStatement :=
  if items.isEmpty then [] else [named items source]

private theorem text_ofItems (items : List ImportItem) (source : String) :
    (ofItems items source).map text = namedImport (items.map ImportItem.text) source := by
  cases items <;> rfl

private theorem binds_ofItems (items : List ImportItem) (source : String) :
    (ofItems items source).flatMap binds = items.map ImportItem.here := by
  cases items with
  | nil => rfl
  | cons item rest => exact List.append_nil _

end ImportStatement

section Libraries

def bindingTable : List Binding := RuntimeHandle.known.filterMap binding?

theorem mem_bindingTable {handle : RuntimeHandle} {b : Binding} (h : binding? handle = some b) :
    b ∈ bindingTable := by
  refine List.mem_filterMap.mpr ⟨handle, ?_, h⟩
  cases handle with
  | other name => cases h
  | _ => decide

theorem source_mem_libraries : ∀ b ∈ bindingTable, b.source ∈ libraries := by
  decide

private theorem here_of_isDefault : ∀ b ∈ bindingTable, b.isDefault = true → b.here = b.name := by
  decide

private theorem eq_of_here_eq : ∀ b ∈ bindingTable, ∀ c ∈ bindingTable, b.here = c.here →
    b.source = c.source ∧ b.isDefault = c.isDefault ∧ (b.isDefault = false → b = c) := by
  decide +kernel

theorem eq_of_item_eq : ∀ b ∈ bindingTable, ∀ c ∈ bindingTable, b.isDefault = false →
    c.isDefault = false → b.item = c.item → b = c := by
  decide +kernel

def Binding.importItem (b : Binding) : ImportItem := ⟨b.name, b.localName⟩

def libraryStatements (bindings : List Binding) (library : String) : List ImportStatement :=
  let used := bindings.filter fun b => b.source == library
  (distinct ((used.filter Binding.isDefault).map Binding.name)).map (.default · library) ++
    ImportStatement.ofItems ((used.filter fun b => !b.isDefault).map Binding.importItem) library

variable {bindings : List Binding}

private theorem text_libraryStatements (hn : bindings.Nodup) (ht : ∀ b ∈ bindings, b ∈ bindingTable)
    (library : String) :
    (libraryStatements bindings library).map ImportStatement.text =
      libraryImports bindings library := by
  let items := (bindings.filter fun b => b.source == library).filter fun b => !b.isDefault
  have hmem : ∀ b ∈ items, b ∈ bindingTable ∧ b.isDefault = false := by
    intro b hb
    obtain ⟨hused, hnamed⟩ := List.mem_filter.mp hb
    exact ⟨ht b (List.mem_filter.mp hused).1, by simpa using hnamed⟩
  have hitems : (items.map Binding.item).Nodup := by
    refine List.Nodup.map_on (fun b hb c hc he => ?_) ((hn.filter _).filter _)
    exact eq_of_item_eq b (hmem b hb).1 c (hmem c hc).1 (hmem b hb).2 (hmem c hc).2 he
  have htexts : (items.map Binding.importItem).map ImportItem.text = items.map Binding.item := by
    rw [List.map_map]
    rfl
  rw [libraryStatements, libraryImports, List.map_append, List.map_map,
    ImportStatement.text_ofItems, htexts, distinct_eq_self hitems]
  rfl

private theorem binds_libraryStatements (bindings : List Binding) (library : String) :
    (libraryStatements bindings library).flatMap ImportStatement.binds =
      distinct (((bindings.filter fun b => b.source == library).filter Binding.isDefault).map
        Binding.name) ++
      ((bindings.filter fun b => b.source == library).filter fun b => !b.isDefault).map
        Binding.here := by
  have hsingle (names : List String) :
      (names.map fun name => ImportStatement.default name library).flatMap ImportStatement.binds =
        names := by
    rw [List.flatMap_map]
    exact List.flatMap_singleton' names
  rw [libraryStatements, List.flatMap_append, hsingle, ImportStatement.binds_ofItems, List.map_map]
  rfl

variable (ht : ∀ b ∈ bindings, b ∈ bindingTable)
include ht

private theorem mem_binds_libraryStatements {library name : String} :
    name ∈ (libraryStatements bindings library).flatMap ImportStatement.binds ↔
      ∃ b ∈ bindings, b.source = library ∧ b.here = name := by
  simp only [binds_libraryStatements, List.mem_append, mem_distinct, List.mem_map, List.mem_filter,
    beq_iff_eq, Bool.not_eq_true']
  constructor
  · rintro (⟨b, ⟨⟨hb, hs⟩, hdefault⟩, rfl⟩ | ⟨b, ⟨⟨hb, hs⟩, _⟩, rfl⟩)
    · exact ⟨b, hb, hs, here_of_isDefault b (ht b hb) hdefault⟩
    · exact ⟨b, hb, hs, rfl⟩
  · rintro ⟨b, hb, hs, rfl⟩
    cases hdefault : b.isDefault with
    | true => exact Or.inl ⟨b, ⟨⟨hb, hs⟩, hdefault⟩, (here_of_isDefault b (ht b hb) hdefault).symm⟩
    | false => exact Or.inr ⟨b, ⟨⟨hb, hs⟩, hdefault⟩, rfl⟩

private theorem nodup_binds_libraryStatements (hn : bindings.Nodup) (library : String) :
    ((libraryStatements bindings library).flatMap ImportStatement.binds).Nodup := by
  rw [binds_libraryStatements]
  refine List.Nodup.append (nodup_distinct _) ?_ ?_
  · refine List.Nodup.map_on (fun b hb c hc he => ?_) ((hn.filter _).filter _)
    simp only [List.mem_filter, Bool.not_eq_true'] at hb hc
    exact (eq_of_here_eq b (ht b hb.1.1) c (ht c hc.1.1) he).2.2 hb.2
  · intro name hdefault hnamed
    simp only [mem_distinct, List.mem_map, List.mem_filter, Bool.not_eq_true'] at hdefault hnamed
    obtain ⟨b, ⟨⟨hb, _⟩, hb'⟩, rfl⟩ := hdefault
    obtain ⟨c, ⟨⟨hc, _⟩, hc'⟩, he⟩ := hnamed
    rw [← here_of_isDefault b (ht b hb) hb'] at he
    have hkind := (eq_of_here_eq c (ht c hc) b (ht b hb) he).2.1
    rw [hb', hc'] at hkind
    cases hkind

private theorem binds_libraries_perm (hn : bindings.Nodup) :
    ((libraries.flatMap (libraryStatements bindings)).flatMap ImportStatement.binds).Perm
      (distinct (bindings.map Binding.here)) := by
  rw [List.flatMap_assoc]
  refine (List.perm_ext_iff_of_nodup ?_ (nodup_distinct _)).mpr fun name => ?_
  · refine List.nodup_flatMap.mpr ⟨fun library _ => nodup_binds_libraryStatements ht hn library, ?_⟩
    have hlibraries : libraries.Nodup := by decide
    refine hlibraries.imp fun {one other} hne name hone hother => hne ?_
    obtain ⟨b, hb, rfl, rfl⟩ := (mem_binds_libraryStatements ht).mp hone
    obtain ⟨c, hc, rfl, he⟩ := (mem_binds_libraryStatements ht).mp hother
    exact (eq_of_here_eq b (ht b hb) c (ht c hc) he.symm).1
  · rw [mem_distinct, List.mem_flatMap, List.mem_map]
    constructor
    · rintro ⟨library, _, hname⟩
      obtain ⟨b, hb, _, hhere⟩ := (mem_binds_libraryStatements ht).mp hname
      exact ⟨b, hb, hhere⟩
    · rintro ⟨b, hb, hhere⟩
      refine ⟨b.source, source_mem_libraries b (ht b hb), ?_⟩
      exact (mem_binds_libraryStatements ht).mpr ⟨b, hb, rfl, hhere⟩

end Libraries

section Units

def unitStatements (i : Imports) (path ext unit : String) : List ImportStatement :=
  let source := specifier path (pathOf unit) ++ ext
  ImportStatement.ofItems ((i.namesOf unit).map (⟨·, none⟩)) source ++
    if i.whole.contains unit then [.whole (unitAlias unit) source] else []

variable {i : Imports}

private theorem text_unitStatements (i : Imports) (path ext unit : String) :
    (unitStatements i path ext unit).map ImportStatement.text = unitImports i path ext unit := by
  have htexts (names : List String) :
      (names.map fun name => ImportItem.mk name none).map ImportItem.text = names := by
    rw [List.map_map]
    exact List.map_id names
  rw [unitStatements, unitImports, List.map_append, ImportStatement.text_ofItems, htexts]
  split <;> rfl

private theorem binds_unitStatements (i : Imports) (path ext unit : String) :
    (unitStatements i path ext unit).flatMap ImportStatement.binds =
      i.namesOf unit ++ if i.whole.contains unit then [unitAlias unit] else [] := by
  have hnames (names : List String) :
      (names.map fun name => ImportItem.mk name none).map ImportItem.here = names := by
    rw [List.map_map]
    exact List.map_id names
  rw [unitStatements, List.flatMap_append, ImportStatement.binds_ofItems, hnames]
  split <;> rfl

theorem mem_unitOrder {deps : List String} {unit : String} :
    unit ∈ i.unitOrder deps ↔ unit ∈ i.units := by
  simp only [Imports.unitOrder, List.mem_append, List.mem_filter, List.contains_eq_mem,
    decide_eq_true_eq, Bool.not_eq_true', decide_eq_false_iff_not, not_and]
  constructor
  · rintro (h | h)
    · exact h.2
    · exact h.1
  · intro h
    by_cases hdep : unit ∈ deps
    · exact Or.inl ⟨hdep, h⟩
    · exact Or.inr ⟨h, fun hd => absurd hd hdep⟩

theorem nodup_unitOrder {deps : List String} (hd : deps.Nodup) (hu : i.units.Nodup) :
    (i.unitOrder deps).Nodup := by
  refine List.Nodup.append (hd.filter _) (hu.filter _) fun unit hknown hother => ?_
  rw [List.mem_filter] at hother
  simp [hknown] at hother

private theorem binds_units_perm {deps : List String} (hd : deps.Nodup) (hu : i.units.Nodup)
    (hw : i.whole.Nodup) (hwhole : ∀ unit ∈ i.whole, unit ∈ i.units)
    (hnamed : ∀ entry ∈ i.named, entry.1 ∈ i.units) (path ext : String) :
    (((i.unitOrder deps).flatMap (unitStatements i path ext)).flatMap ImportStatement.binds).Perm
      (i.named.map Prod.snd ++ i.whole.map unitAlias) := by
  have horder := nodup_unitOrder hd hu
  have hnames : ((i.unitOrder deps).flatMap i.namesOf).Perm (i.named.map Prod.snd) := by
    have hentries := flatMap_filter_perm (Prod.fst : String × String → String) horder
      fun entry he => mem_unitOrder.mpr (hnamed entry he)
    have hmap := hentries.map Prod.snd
    rw [List.map_flatMap] at hmap
    exact hmap
  have haliases : ((i.unitOrder deps).flatMap fun unit =>
      if i.whole.contains unit then [unitAlias unit] else []).Perm (i.whole.map unitAlias) := by
    have hfilter (units : List String) : (units.flatMap fun unit =>
        if i.whole.contains unit then [unitAlias unit] else []) =
          (units.filter i.whole.contains).map unitAlias := by
      induction units with
      | nil => rfl
      | cons unit rest ih =>
        rw [List.flatMap_cons, ih, List.filter_cons]
        split <;> rfl
    rw [hfilter]
    refine List.Perm.map _ ((List.perm_ext_iff_of_nodup (horder.filter _) hw).mpr fun unit => ?_)
    rw [List.mem_filter, mem_unitOrder, List.contains_iff_mem]
    exact ⟨fun h => h.2, fun h => ⟨hwhole unit h, h⟩⟩
  rw [List.flatMap_assoc]
  simp only [binds_unitStatements]
  exact (List.flatMap_append_perm _ _ _).symm.trans (hnames.append haliases)

end Units

section Collected

private theorem appendNew_distinct {α : Type} [BEq α] [LawfulBEq α] (xs : List α) (x : α) :
    appendNew (distinct xs) x = distinct (xs ++ [x]) := by
  by_cases h : x ∈ xs
  · simp [appendNew, h, distinct_append_of_mem h]
  · simp [appendNew, h, distinct_append_of_notMem h]

def bindingOf : Mention -> Option Binding
  | .library handle => binding? handle
  | _ => none

def wholeOf (own : String) : Mention -> Option String
  | .type unit _ => if unit == own then none else some unit
  | _ => none

def nameOf (own : String) : Mention -> Option (String × String)
  | .value unit name => if unit == own then none else some (unit, name)
  | _ => none

def otherOf (own : String) : Mention -> Option String
  | .library _ => none
  | .type unit _ => if unit == own then none else some unit
  | .value unit _ => if unit == own then none else some unit

theorem wholeOf_eq_some {own unit : String} {mention : Mention} :
    wholeOf own mention = some unit ↔ (∃ name, mention = .type unit name) ∧ unit ≠ own := by
  cases mention with
  | type other name =>
    by_cases hown : other = own
    · simpa [wholeOf, hown] using fun he : own = unit => he.symm
    · simpa [wholeOf, hown] using fun he : other = unit => he ▸ hown
  | library handle => simp [wholeOf]
  | value other name => simp [wholeOf]

theorem nameOf_eq_some {own unit name : String} {mention : Mention} :
    nameOf own mention = some (unit, name) ↔ mention = .value unit name ∧ unit ≠ own := by
  cases mention with
  | value other taken =>
    by_cases hown : other = own
    · simpa [nameOf, hown] using fun (he : own = unit) _ => he.symm
    · simpa [nameOf, hown] using fun (he : other = unit) _ => he ▸ hown
  | library handle => simp [nameOf]
  | type other taken => simp [nameOf]

private theorem foldl_record (own : String) (mentions : List Mention) :
    mentions.foldl (Imports.record own) .none =
      { bindings := distinct (mentions.filterMap bindingOf)
        units := distinct (mentions.filterMap (otherOf own))
        named := distinct (mentions.filterMap (nameOf own))
        whole := distinct (mentions.filterMap (wholeOf own)) } := by
  induction mentions using List.reverseRecOn with
  | nil => rfl
  | append_singleton mentions mention ih =>
    rw [List.foldl_append, ih, List.foldl_cons, List.foldl_nil]
    simp only [List.filterMap_append, List.filterMap_cons, List.filterMap_nil]
    cases mention with
    | library handle =>
      cases hb : binding? handle <;>
        simp [Imports.record, bindingOf, otherOf, nameOf, wholeOf, hb,
          Imports.useBinding, appendNew_distinct]
    | type unit name =>
      by_cases hown : unit = own <;>
        simp [Imports.record, bindingOf, otherOf, nameOf, wholeOf, hown,
          Imports.useWhole, appendNew_distinct]
    | value unit name =>
      by_cases hown : unit = own <;>
        simp [Imports.record, bindingOf, otherOf, nameOf, wholeOf, hown,
          Imports.useName, appendNew_distinct]

end Collected

section Files

/-- The import statements of the file of a unit. -/
def fileImports (style : Style) (u : SourceUnit) : List ImportStatement :=
  let i := Imports.ofUnit u
  libraries.flatMap (libraryStatements i.bindings) ++
    (i.unitOrder u.deps).flatMap (unitStatements i u.path style.importExtension)

def libraryNames (u : SourceUnit) : List String :=
  (u.mentions.filterMap bindingOf).map Binding.here

def aliases (u : SourceUnit) : List String :=
  (u.mentions.filterMap (wholeOf u.name)).map unitAlias

variable {u : SourceUnit}

theorem bindings_ofUnit :
    (Imports.ofUnit u).bindings = distinct (u.mentions.filterMap bindingOf) := by
  rw [Imports.ofUnit, foldl_record]

theorem units_ofUnit :
    (Imports.ofUnit u).units = distinct (u.mentions.filterMap (otherOf u.name)) := by
  rw [Imports.ofUnit, foldl_record]

theorem named_ofUnit :
    (Imports.ofUnit u).named = distinct (u.mentions.filterMap (nameOf u.name)) := by
  rw [Imports.ofUnit, foldl_record]

theorem whole_ofUnit :
    (Imports.ofUnit u).whole = distinct (u.mentions.filterMap (wholeOf u.name)) := by
  rw [Imports.ofUnit, foldl_record]

theorem bindings_mem_bindingTable : ∀ b ∈ (Imports.ofUnit u).bindings, b ∈ bindingTable := by
  intro b hb
  rw [bindings_ofUnit, mem_distinct] at hb
  obtain ⟨mention, _, hm⟩ := List.mem_filterMap.mp hb
  cases mention with
  | library handle => exact mem_bindingTable hm
  | type unit name => cases hm
  | value unit name => cases hm

private theorem nodup_bindings : (Imports.ofUnit u).bindings.Nodup := by
  rw [bindings_ofUnit]
  exact nodup_distinct _

theorem text_fileImports (style : Style) (u : SourceUnit) :
    (fileImports style u).map ImportStatement.text =
      (Imports.ofUnit u).lines u.path style.importExtension u.deps := by
  simp only [fileImports, Imports.lines, List.map_append, List.map_flatMap,
    text_libraryStatements nodup_bindings bindings_mem_bindingTable, text_unitStatements]

/-- A file holds its frontmatter, the imports in order and then the declarations, with an empty line
between imports and declarations. -/
def LaidOut (style : Style) (imports : List ImportStatement) (bodies : List String)
    (content : String) : Prop :=
  ∃ gap, content = (if style.frontmatter.isEmpty then "" else style.frontmatter ++ "\n") ++
      String.join (imports.map ImportStatement.text) ++ gap ++ joinWith "\n" bodies ∧
    (gap = "" ∨ gap = "\n") ∧ (imports ≠ [] → bodies ≠ [] → gap = "\n")

private theorem join_texts_ne_empty {imports : List ImportStatement} (h : imports ≠ []) :
    String.join (imports.map ImportStatement.text) ≠ "" := by
  obtain ⟨first, rest, rfl⟩ := List.exists_cons_of_ne_nil h
  rw [List.map_cons, String.join_cons]
  cases first <;> simp [ImportStatement.text]

theorem laidOut_assemble (style : Style) (imports : List ImportStatement) (bodies : List String) :
    LaidOut style imports bodies
      (assemble style.frontmatter (imports.map ImportStatement.text) bodies) := by
  cases bodies with
  | nil =>
    refine ⟨"", ?_, Or.inl rfl, fun _ h => absurd rfl h⟩
    simp [assemble, joinWith]
  | cons body rest =>
    refine ⟨_, rfl, ite_eq_or_eq _ _ _, fun himports _ => if_neg fun hempty => ?_⟩
    have hhead := String.append_eq_empty_iff.mp (String.isEmpty_iff.mp hempty)
    exact join_texts_ne_empty himports hhead.2

private theorem units_binds_perm (hd : u.deps.Nodup) (ext : String) :
    ((((Imports.ofUnit u).unitOrder u.deps).flatMap
      (unitStatements (Imports.ofUnit u) u.path ext)).flatMap ImportStatement.binds).Perm
      ((distinct (u.mentions.filterMap (nameOf u.name))).map Prod.snd ++
        (distinct (u.mentions.filterMap (wholeOf u.name))).map unitAlias) := by
  rw [← named_ofUnit, ← whole_ofUnit]
  refine binds_units_perm hd ?_ ?_ ?_ ?_ u.path ext
  · rw [units_ofUnit]
    exact nodup_distinct _
  · rw [whole_ofUnit]
    exact nodup_distinct _
  · intro unit hunit
    rw [whole_ofUnit, mem_distinct] at hunit
    rw [units_ofUnit, mem_distinct]
    obtain ⟨mention, hm, hwhole⟩ := List.mem_filterMap.mp hunit
    obtain ⟨⟨name, rfl⟩, hother⟩ := wholeOf_eq_some.mp hwhole
    exact List.mem_filterMap.mpr ⟨_, hm, by simp [otherOf, hother]⟩
  · rintro ⟨unit, name⟩ hentry
    rw [named_ofUnit, mem_distinct] at hentry
    rw [units_ofUnit, mem_distinct]
    obtain ⟨mention, hm, hnamed⟩ := List.mem_filterMap.mp hentry
    obtain ⟨rfl, hother⟩ := nameOf_eq_some.mp hnamed
    exact List.mem_filterMap.mpr ⟨_, hm, by simp [otherOf, hother]⟩

private theorem binds_fileImports_perm (hd : u.deps.Nodup) (style : Style) :
    ((fileImports style u).flatMap ImportStatement.binds).Perm
      (distinct (libraryNames u) ++
        ((distinct (u.mentions.filterMap (nameOf u.name))).map Prod.snd ++
          (distinct (u.mentions.filterMap (wholeOf u.name))).map unitAlias)) := by
  have htable : ∀ b ∈ (Imports.ofUnit u).bindings, b ∈ bindingTable := bindings_mem_bindingTable
  have hlibraries := binds_libraries_perm htable nodup_bindings
  have hnames : (distinct ((Imports.ofUnit u).bindings.map Binding.here)).Perm
      (distinct (libraryNames u)) := by
    refine distinct_perm fun name => ?_
    simp only [bindings_ofUnit, libraryNames, List.mem_map, mem_distinct]
  rw [fileImports, List.flatMap_append]
  exact (hlibraries.trans hnames).append (units_binds_perm hd style.importExtension)

/-- The names that a file takes from libraries, its aliases of other units and the names that it
declares are kept apart. -/
structure Unambiguous (u : SourceUnit) : Prop where
  libraries_aliases : ∀ name ∈ libraryNames u, name ∉ aliases u
  libraries_decls : ∀ name ∈ libraryNames u, name ∉ u.decls.map Decl.name
  aliases_decls : ∀ name ∈ aliases u, name ∉ u.decls.map Decl.name

instance (u : SourceUnit) : Decidable (Unambiguous u) :=
  decidable_of_iff
    ((∀ name ∈ libraryNames u, name ∉ aliases u) ∧
      (∀ name ∈ libraryNames u, name ∉ u.decls.map Decl.name) ∧
      ∀ name ∈ aliases u, name ∉ u.decls.map Decl.name)
    ⟨fun h => ⟨h.1, h.2.1, h.2.2⟩, fun h => ⟨h.1, h.2, h.3⟩⟩

private theorem mem_aliases {name : String} :
    name ∈ (distinct (u.mentions.filterMap (wholeOf u.name))).map unitAlias ↔
      name ∈ aliases u := by
  simp only [aliases, List.mem_map, mem_distinct]

/-- If aliases differ, and the names that are taken one by one differ from all others, then a file
binds a name twice exactly if names of the three other sorts meet. -/
theorem nodup_names_iff (hd : u.deps.Nodup) (hn : (u.decls.map Decl.name).Nodup)
    (hw : ∀ one ∈ u.mentions.filterMap (wholeOf u.name),
      ∀ other ∈ u.mentions.filterMap (wholeOf u.name), unitAlias one = unitAlias other →
        one = other)
    (hv : ∀ entry ∈ u.mentions.filterMap (nameOf u.name), entry.1 = lexiconsName ∧
      entry.2 ∉ libraryNames u ∧ entry.2 ∉ aliases u ∧ entry.2 ∉ u.decls.map Decl.name)
    (style : Style) :
    ((fileImports style u).flatMap ImportStatement.binds ++ u.decls.map Decl.name).Nodup ↔
      Unambiguous u := by
  have htaken : ((distinct (u.mentions.filterMap (nameOf u.name))).map Prod.snd).Nodup := by
    refine List.Nodup.map_on (fun one ho other hother he => ?_) (nodup_distinct _)
    have hone := (hv one (mem_distinct.mp ho)).1
    have hsame := (hv other (mem_distinct.mp hother)).1
    exact Prod.ext (hone.trans hsame.symm) he
  have hmem {name : String}
      (h : name ∈ (distinct (u.mentions.filterMap (nameOf u.name))).map Prod.snd) :
      name ∉ libraryNames u ∧ name ∉ aliases u ∧ name ∉ u.decls.map Decl.name := by
    obtain ⟨entry, he, rfl⟩ := List.mem_map.mp h
    exact (hv entry (mem_distinct.mp he)).2
  have haliases : ((distinct (u.mentions.filterMap (wholeOf u.name))).map unitAlias).Nodup := by
    refine List.Nodup.map_on (fun one ho other hother he => ?_) (nodup_distinct _)
    exact hw one (mem_distinct.mp ho) other (mem_distinct.mp hother) he
  rw [((binds_fileImports_perm hd style).append_right _).nodup_iff]
  simp only [List.nodup_append', List.disjoint_append_right, List.disjoint_append_left]
  constructor
  · rintro ⟨⟨_, _, _, hla⟩, _, hld, _, had⟩
    constructor
    · exact fun name hl ha => hla (mem_distinct.mpr hl) (mem_aliases.mpr ha)
    · exact fun name hl => hld (mem_distinct.mpr hl)
    · exact fun name ha => had (mem_aliases.mpr ha)
  · intro h
    refine ⟨⟨nodup_distinct _, ⟨htaken, haliases, ?_⟩, ?_, ?_⟩, hn, ?_, ?_, ?_⟩
    · exact fun name ht ha => (hmem ht).2.1 (mem_aliases.mp ha)
    · exact fun name hl ht => (hmem ht).1 (mem_distinct.mp hl)
    · exact fun name hl ha => h.libraries_aliases name (mem_distinct.mp hl) (mem_aliases.mp ha)
    · exact fun name hl => h.libraries_decls name (mem_distinct.mp hl)
    · exact fun name ht => (hmem ht).2.2
    · exact fun name ha => h.aliases_decls name (mem_aliases.mp ha)

end Files

end LexiconCompiler.TypeScript
