import LexiconCompiler.Proofs.Emission.LexiconsUnit
import LexiconCompiler.Proofs.Emission.Resolved
import LexiconCompiler.Proofs.Emission.Server
import LexiconCompiler.Proofs.TokenGroups
import LexiconCompiler.Proofs.TypeScript.Identifier

set_option autoImplicit false
set_option relaxedAutoImplicit false

/-!
The names that units declare. Those of definitions come from words, which may start with a digit;
those of the server come from identifiers, whose segments start with letters.
-/

namespace LexiconCompiler

open LexiconCompiler.Code LexiconCompiler.Text LexiconCompiler.TypeScript

/-- The name of a definition starts with a digit. -/
def Definition.StartsWithDigit (definition : Definition) : Prop :=
  definition.name.toList.head?.any isAsciiDigit = true

instance (definition : Definition) : Decidable definition.StartsWithDigit :=
  inferInstanceAs (Decidable (_ = true))

def Definition.ownName (definition : Definition) : String :=
  if definition.type.kind == .token then Casing.screaming definition.name
  else Emission.typeName definition.name definition.type.kind

namespace Emission

/-- A name of letters, digits and underscores that is no reserved word. -/
structure Plain (name : String) (first : Char) : Prop extends Worded name first where
  unreserved : name ∉ reservedWords

theorem Plain.declaredName {name : String} {first : Char} (h : Plain name first) :
    declaredName name = name :=
  declaredName_eq_self h.unreserved

section Forms

variable {s : String} {first : Char}

private theorem plain_of_capital {name : String} (h : Worded name first)
    (hf : first.isLower = false) :
    Plain name first :=
  ⟨h, h.notMem_reservedWords hf⟩

theorem plain_title (h : Casing.Spelled s.toList first) :
    Plain (Casing.title s) (toUpper first) :=
  plain_of_capital (worded_title h) (isLower_toUpper h.alnum)

private theorem plain_screaming (h : Casing.Spelled s.toList first) :
    Plain (Casing.screaming s) (toUpper first) :=
  plain_of_capital (worded_screaming h) (isLower_toUpper h.alnum)

private theorem plain_className (h : Casing.Spelled s.toList first) :
    Plain (className s) (toUpper first) := by
  have hend : Worded "NS" 'N' := worded_of_isWorded (by decide)
  exact plain_of_capital ((worded_title h).append hend.chars) (isLower_toUpper h.alnum)

private theorem reservedWords_front : ∀ word ∈ reservedWords,
    startsWith word.toList ['i', 's'] = false ∧ startsWith word.toList ['v', 'a', 'l'] = false := by
  decide +kernel

private theorem plain_guardName (h : Worded s first) : Plain (guardName s) 'i' := by
  have his : Worded "is" 'i' := worded_of_isWorded (by decide)
  refine ⟨his.append h.chars, notMem_reservedWords_of_front ['i', 's']
    (fun word hw => (reservedWords_front word hw).1) ?_⟩
  simp [guardName]

private theorem plain_validateName (h : Worded s first) : Plain (validateName s) 'v' := by
  have hvalidate : Worded "validate" 'v' := worded_of_isWorded (by decide)
  refine ⟨hvalidate.append h.chars, notMem_reservedWords_of_front ['v', 'a', 'l']
    (fun word hw => (reservedWords_front word hw).2) ?_⟩
  simp [validateName]

/-- Names that are given and not derived, with their first letters. -/
def givenNames : List (String × Char) :=
  [("Record", 'R'), ("Main", 'M'), ("createServer", 'c'), ("Server", 'S'), ("schemaDict", 's'),
    ("schemas", 's'), ("lexicons", 'l'), ("ids", 'i')]

private theorem plain_given {name : String} (h : (name, first) ∈ givenNames) :
    Plain name first := by
  have hall : (givenNames.all fun entry =>
      isWorded entry.1 entry.2 && !reservedWords.contains entry.1) = true := by
    decide +kernel
  have hname := List.all_eq_true.mp hall (name, first) h
  simp only [Bool.and_eq_true, Bool.not_eq_true', List.contains_eq_mem,
    decide_eq_false_iff_not] at hname
  exact ⟨worded_of_isWorded hname.1, hname.2⟩

end Forms

section Definitions

def contractNames : List String :=
  ["QueryParams", "InputSchema", "OutputSchema", "HandlerInput", "HandlerSuccess", "HandlerError",
    "HandlerOutput", "HandlerContext", "Handler"]

variable {s : Scope} {skipGuards : Bool} {definition : Definition}

private theorem name_of_mem_schemaDecls {name : String} {body : Option (Body SchemaType)}
    {decl : Decl} (h : decl ∈ s.schemaDecls name body) : decl.name = name := by
  unfold Scope.schemaDecls at h
  split at h
  · split at h
    · cases h
    · rw [List.mem_singleton.mp h, Decl.name_ofType]
  · cases h

private theorem name_of_mem_contractDecls {description : String} {contract : Method SchemaType}
    {decl : Decl} (h : decl ∈ s.contractDecls description contract) :
    decl.name ∈ contractNames := by
  have hsuccess : ∀ doc type, ∀ d ∈ successDecls doc type, d.name = "HandlerSuccess" := by
    intro doc type d hd
    unfold successDecls at hd
    split at hd
    · cases hd
    · rw [List.mem_singleton.mp hd, Decl.name_ofType]
  simp only [Scope.contractDecls, List.cons_append, List.append_assoc, List.mem_cons,
    List.mem_append, List.not_mem_nil, or_false] at h
  rcases h with rfl | h | h | rfl | h | rfl | rfl | rfl | rfl
  · exact show "QueryParams" ∈ contractNames by decide
  · rw [name_of_mem_schemaDecls h]
    decide
  · rw [name_of_mem_schemaDecls h]
    decide
  · rw [Decl.name_ofType]
    decide
  · rw [hsuccess _ _ _ h]
    decide
  · exact show "HandlerError" ∈ contractNames by decide
  · exact show "HandlerOutput" ∈ contractNames by decide
  · exact show "HandlerContext" ∈ contractNames by decide
  · exact show "Handler" ∈ contractNames by decide

theorem plain_of_mem_contractNames {name : String} (h : name ∈ contractNames) :
    ∃ first, Plain name first ∧ first.isLower = false ∧ isAsciiDigit first = false := by
  have hall : ∀ name ∈ contractNames, ((name.toList.head?.filter fun first =>
      isWorded name first && !first.isLower && !isAsciiDigit first).isSome) = true := by
    decide +kernel
  obtain ⟨first, hfirst⟩ := Option.isSome_iff_exists.mp (hall name h)
  simp only [Option.filter_eq_some_iff, Bool.and_eq_true, Bool.not_eq_true'] at hfirst
  obtain ⟨_, ⟨hworded, hcapital⟩, hdigit⟩ := hfirst
  exact ⟨first, plain_of_capital (worded_of_isWorded hworded) hcapital, hcapital, hdigit⟩

theorem spelled_name (hw : definition.WellFormed) :
    ∃ first, Casing.Spelled definition.name.toList first := by
  have hword := hw.name
  simp only [isAlnumWord, Bool.and_eq_true, List.all_eq_true] at hword
  cases hcs : definition.name.toList with
  | nil =>
    have hempty : definition.name = "" := String.toList_eq_nil_iff.mp hcs
    simp [hempty] at hword
  | cons c rest =>
    rw [hcs] at hword
    exact ⟨c, rfl, hword.2 c List.mem_cons_self, fun d hd => Or.inl (hword.2 d hd)⟩

private theorem plain_typeName {name : String} {first : Char} (h : Casing.Spelled name.toList first)
    (kind : Kind) : ∃ front, Plain (typeName name kind) front ∧ front.isLower = false ∧
      isAsciiDigit front = isAsciiDigit first := by
  unfold typeName
  split
  · rename_i hmain
    obtain rfl : name = mainDef := eq_of_beq hmain
    obtain rfl : 'm' = first := Option.some.inj h.front
    split
    · exact ⟨'R', plain_given (by decide), by decide, by decide⟩
    · exact ⟨'M', plain_given (by decide), by decide, by decide⟩
  · exact ⟨_, plain_title h, isLower_toUpper h.alnum, isAsciiDigit_toUpper h.alnum⟩

theorem plain_ownName {first : Char} (h : Casing.Spelled definition.name.toList first) :
    ∃ front, Plain definition.ownName front ∧ front.isLower = false ∧
      isAsciiDigit front = isAsciiDigit first := by
  unfold Definition.ownName
  split
  · exact ⟨_, plain_screaming h, isLower_toUpper h.alnum, isAsciiDigit_toUpper h.alnum⟩
  · exact plain_typeName h definition.type.kind

theorem ownName_object (name : String) (o : ObjectType SchemaType) :
    Definition.ownName ⟨name, .object o⟩ = typeName name (SchemaType.object o).kind := by
  have hkind : (SchemaType.object o).kind ≠ .token := by
    cases hp : o.params <;> simp [SchemaType.kind, ObjectType.kind, hp]
  rw [Definition.ownName, if_neg (by simpa using hkind)]

theorem name_of_mem_bareDecls {decl : Decl} (h : decl ∈ s.definitionDecls true definition) :
    decl.name = definition.ownName ∨ decl.name ∈ contractNames := by
  rcases definition with ⟨name, t⟩
  cases t with
  | object o =>
    rw [List.mem_singleton.mp h, ownName_object]
    exact Or.inl rfl
  | method d kind contract => exact Or.inr (name_of_mem_contractDecls h)
  | _ =>
    rw [List.mem_singleton.mp h]
    exact Or.inl rfl

private theorem name_of_mem_guardDecls {decl : Decl} (h : decl ∈ s.guardDecls definition) :
    decl.name = guardName (typeName definition.name definition.type.kind) ∨
      decl.name = validateName (typeName definition.name definition.type.kind) := by
  rw [Scope.guardDecls] at h
  split at h
  · simp only [List.mem_cons, List.not_mem_nil, or_false] at h
    rcases h with rfl | rfl
    · exact Or.inl rfl
    · exact Or.inr rfl
  · cases h

private theorem name_of_mem_definitionDecls {decl : Decl}
    (h : decl ∈ s.definitionDecls skipGuards definition) :
    decl.name = definition.ownName ∨ decl.name ∈ contractNames ∨
      decl.name = guardName (typeName definition.name definition.type.kind) ∨
      decl.name = validateName (typeName definition.name definition.type.kind) := by
  cases skipGuards with
  | true => exact (name_of_mem_bareDecls h).imp_right Or.inl
  | false =>
    rw [Scope.definitionDecls_false, List.mem_append] at h
    rcases h with hbare | hguard
    · exact (name_of_mem_bareDecls hbare).imp_right Or.inl
    · exact Or.inr (Or.inr (name_of_mem_guardDecls hguard))

private theorem exists_definitionDecls (s : Scope) (skipGuards : Bool) {definition : Definition}
    (hm : definition.type.kind.isMethod = false) :
    ∃ decl ∈ s.definitionDecls skipGuards definition, decl.name = definition.ownName := by
  rcases definition with ⟨name, t⟩
  cases t with
  | method d kind contract => cases kind <;> cases hm
  | object o => exact ⟨_, List.mem_cons_self, (ownName_object name o).symm⟩
  | _ => exact ⟨_, List.mem_cons_self, rfl⟩

theorem plain_of_mem_definitionDecls (hw : definition.WellFormed) {decl : Decl}
    (h : decl ∈ s.definitionDecls skipGuards definition) :
    ∃ first, Plain decl.name first ∧ (first.isLower = false ∨ first = 'i' ∨ first = 'v') ∧
      (isAsciiDigit first = true → definition.StartsWithDigit) := by
  obtain ⟨front, hspelled⟩ := spelled_name hw
  obtain ⟨_, htype, _⟩ := plain_typeName hspelled definition.type.kind
  rcases name_of_mem_definitionDecls h with hname | hname | hname | hname
  · obtain ⟨first, hplain, hcapital, hdigit⟩ := plain_ownName hspelled
    rw [hname]
    refine ⟨first, hplain, Or.inl hcapital, fun hd => ?_⟩
    rw [Definition.StartsWithDigit, hspelled.front, Option.any_some, ← hdigit, hd]
  · obtain ⟨first, hplain, hcapital, hdigit⟩ := plain_of_mem_contractNames hname
    exact ⟨first, hplain, Or.inl hcapital, by simp [hdigit]⟩
  · rw [hname]
    exact ⟨'i', plain_guardName htype.toWorded, Or.inr (Or.inl rfl),
      fun hd => absurd hd (by decide)⟩
  · rw [hname]
    exact ⟨'v', plain_validateName htype.toWorded, Or.inr (Or.inr rfl),
      fun hd => absurd hd (by decide)⟩

private theorem isPrincipal_of_isMethod {t : SchemaType} (h : t.kind.isMethod = true) :
    t.IsPrincipal := by
  cases t with
  | record | method => trivial
  | object o =>
    cases hp : o.params <;> simp [SchemaType.kind, ObjectType.kind, hp, Kind.isMethod] at h
  | _ => cases h

theorem exists_digit_definitionDecls (s : Scope) (skipGuards : Bool) {definition : Definition}
    (hw : definition.WellFormed) (hd : definition.StartsWithDigit) :
    ∃ decl ∈ s.definitionDecls skipGuards definition, ∃ first,
      Plain decl.name first ∧ isAsciiDigit first = true := by
  simp only [Definition.StartsWithDigit, Option.any_eq_true] at hd
  obtain ⟨c, hc, hdigit⟩ := hd
  have hmethod : definition.type.kind.isMethod = false := by
    by_contra hm
    rw [hw.placed (isPrincipal_of_isMethod (by simpa using hm))] at hc
    obtain rfl : 'm' = c := Option.some.inj hc
    exact absurd hdigit (by decide)
  obtain ⟨first, hspelled⟩ := spelled_name hw
  obtain rfl : first = c := Option.some.inj (hspelled.front.symm.trans hc)
  obtain ⟨decl, hmem, hname⟩ := exists_definitionDecls s skipGuards hmethod
  obtain ⟨front, hplain, _, hfront⟩ := plain_ownName hspelled
  refine ⟨decl, hmem, front, ?_, by rw [hfront, hdigit]⟩
  rw [hname]
  exact hplain

end Definitions

section Batches

variable {documents : List Document}

theorem names_lexiconsUnit {registry : Registry} {v : SourceUnit}
    (h : lexiconsUnit registry = .ok v) :
    v.decls.map Decl.name = ["schemaDict", "schemas", "lexicons", "ids"] := by
  simp only [lexiconsUnit, Outcome.bind_eq_ok, Outcome.pure_eq_ok] at h
  obtain ⟨schemas, _, rfl⟩ := h
  rfl

private theorem spelled_of_mem_authorityPrefixes (hid : Identified documents) {p : List String}
    (hp : p ∈ NamespaceTree.authorityPrefixes documents) :
    ∃ first, isAsciiLetter first = true ∧ Casing.Spelled (joinWith "." p).toList first :=
  Casing.spelled_joinWith (NamespaceTree.mem_authorityPrefixes.mp hp).1
    (NamespaceTree.isSegment_of_mem_authorityPrefixes hid hp)

theorem plain_of_mem_indexDecls (hid : Identified documents) {decl : Decl}
    (h : decl ∈ indexDecls (.census documents) (.ofDocuments documents)) :
    ∃ first, Plain decl.name first ∧ (first.isLower = false ∨ first = 'c') ∧
      isAsciiDigit first = false := by
  have hname := List.mem_map_of_mem h (f := Decl.name)
  rw [names_indexDecls, List.mem_append, List.mem_cons, List.mem_cons] at hname
  rcases hname with hgroup | hcreate | hserver | hclass
  · obtain ⟨_, hg, hname⟩ := List.mem_map.mp hgroup
    obtain ⟨document, hd, rfl⟩ := TokenGroups.exists_of_mem_groups hg
    obtain ⟨first, hletter, hspelled⟩ :=
      spelled_of_mem_authorityPrefixes hid (NamespaceTree.authoritySegments_mem hid hd)
    refine ⟨toUpper first, hname ▸ plain_screaming hspelled, Or.inl ?_, ?_⟩
    · exact isLower_toUpper hspelled.alnum
    · exact isAsciiDigit_of_isAsciiLetter (isAsciiLetter_toUpper hletter)
  · rw [hcreate]
    exact ⟨'c', plain_given (by decide), Or.inr rfl, by decide⟩
  · rw [hserver]
    exact ⟨'S', plain_given (by decide), Or.inl (by decide), by decide⟩
  · obtain ⟨_, hmet, hname⟩ := List.mem_map.mp hclass
    obtain ⟨⟨n, d⟩, hwalk, rfl⟩ := List.mem_map.mp hmet
    have hmem := NamespaceTree.mem_namespaces_of_mem_walk hwalk
    obtain ⟨first, hletter, hspelled⟩ :=
      spelled_of_mem_authorityPrefixes hid (NamespaceTree.segments_mem_of_mem_census hmem)
    refine ⟨toUpper first, hname ▸ plain_className hspelled, Or.inl ?_, ?_⟩
    · exact isLower_toUpper hspelled.alnum
    · exact isAsciiDigit_of_isAsciiLetter (isAsciiLetter_toUpper hletter)

theorem plain_of_mem_lexiconsUnit {registry : Registry} {v : SourceUnit}
    (h : lexiconsUnit registry = .ok v) {decl : Decl} (hd : decl ∈ v.decls) :
    ∃ first, Plain decl.name first ∧ isAsciiDigit first = false := by
  have hname := List.mem_map_of_mem hd (f := Decl.name)
  rw [names_lexiconsUnit h] at hname
  simp only [List.mem_cons, List.not_mem_nil, or_false] at hname
  rcases hname with hname | hname | hname | hname
  · exact ⟨'s', hname ▸ plain_given (by decide), by decide⟩
  · exact ⟨'s', hname ▸ plain_given (by decide), by decide⟩
  · exact ⟨'l', hname ▸ plain_given (by decide), by decide⟩
  · exact ⟨'i', hname ▸ plain_given (by decide), by decide⟩

end Batches

end Emission

end LexiconCompiler
