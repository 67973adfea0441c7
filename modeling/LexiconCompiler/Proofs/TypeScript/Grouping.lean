import LexiconCompiler.Proofs.Casing
import LexiconCompiler.Proofs.Markup.JsonText
import LexiconCompiler.Proofs.TypeScript.Identifier
import LexiconCompiler.Proofs.TypeScript.TypeGrammar
import LexiconCompiler.TypeScript.Printer

set_option autoImplicit false
set_option relaxedAutoImplicit false

/-!
How types are grouped. The text of a type is read in exactly one way, and that gives back which
arrays, unions and leaves the type consists of. A union of one member that is not open is the same
as its member.
-/

namespace LexiconCompiler.TypeScript

open LexiconCompiler.Code LexiconCompiler.Text

/-- The arrays, unions and leaves of a type. A leaf is known by its text, and an open union by that
of its base. -/
inductive Grouping where
  | leaf (text : String)
  | array (element : Grouping)
  | union (members : List Grouping) (base : Option String)
  deriving Repr

namespace Grouping

def ofUnion (members : List Grouping) : Option String -> Grouping
  | some base => .union members (some base)
  | none =>
    match members with
    | [member] => member
    | members => .union members none

end Grouping

section Reading

def TypeTree.openBase? : TypeTree -> Option String
  | .intersection [.leaf base, .emptyObject] => some base
  | _ => none

mutual

def TypeTree.grouping? : TypeTree -> Option Grouping
  | .leaf text => some (.leaf text)
  | .emptyObject => none
  | .array element => element.grouping?.map .array
  | .union alternatives =>
    (alternativesGrouping? alternatives).map fun (members, base) => .union members base
  | .intersection parts => (TypeTree.intersection parts).openBase?.map fun base =>
    .union [] (some base)

def alternativesGrouping? : List TypeTree -> Option (List Grouping × Option String)
  | [] => some ([], none)
  | alternative :: rest =>
    match rest, alternative.openBase? with
    | [], some base => some ([], some base)
    | _, _ =>
      alternative.grouping?.bind fun member =>
        (alternativesGrouping? rest).map fun (members, base) => (member :: members, base)

end

/-- The text of a type says how it is grouped. -/
def Groups (text : String) (grouping : Grouping) : Prop :=
  ∃ tree, Parses text tree ∧ tree.grouping? = some grouping

private theorem Groups.unique {text : String} {grouping other : Grouping} (h : Groups text grouping)
    (k : Groups text other) : grouping = other := by
  obtain ⟨tree, htree, hgrouping⟩ := h
  obtain ⟨_, hsame, hother⟩ := k
  obtain rfl := htree.unique hsame
  exact Option.some.inj (hgrouping.symm.trans hother)

end Reading

section Types

def isUnion : TypeExpr -> Bool
  | .union _ _ _ => true
  | _ => false

/-- The types of fields and aliases: leaves, and arrays and unions of them. Names are words, units
are identifiers, and a union has an alternative and no unions among its members. -/
inductive Groupable : TypeExpr -> Prop
  | scalar (kind : ScalarKind) : Groupable (.scalar kind)
  | literal (value : Literal) : Groupable (.literal value)
  | blob (variant : String) (accept : List String) (maxSize : Option Int) :
      Groupable (.blob variant accept maxSize)
  | ref {unit : Option String} {name : String} (hname : isAlnumWord name = true)
      (hunit : ∀ u ∈ unit, Nsid.isValid u = true) : Groupable (.ref unit name)
  | bytes : Groupable .bytes
  | void : Groupable .void
  | array {element : TypeExpr} (helement : Groupable element) : Groupable (.array element)
  | union {members : List TypeExpr} {isOpen : Bool} {base : Option ScalarKind}
      (hsome : members ≠ [] ∨ isOpen = true) (hmembers : ∀ m ∈ members, Groupable m)
      (hflat : ∀ m ∈ members, isUnion m = false) : Groupable (.union members isOpen base)

def leafText (site : Site) : TypeExpr -> String
  | .scalar kind => scalarText kind
  | .literal value => value.text
  | .blob _ _ _ => "BlobRef"
  | .ref none name => declaredName name
  | .ref (some unit) name =>
    if unit == site.unit then declaredName name else unitAlias unit ++ "." ++ name
  | .bytes => "Uint8Array"
  | .void => "undefined"
  | _ => ""

mutual

/-- The arrays, unions and leaves that a type consists of. -/
def groupingOf (site : Site) : TypeExpr -> Grouping
  | .array element => .array (groupingOf site element)
  | .union members isOpen base =>
    .ofUnion (memberGroupings site members)
      (if isOpen then some (scalarText (base.getD .string)) else none)
  | type => .leaf (leafText site type)

def memberGroupings (site : Site) : List TypeExpr -> List Grouping
  | [] => []
  | member :: rest =>
    (if isVoid member then .leaf "void" else groupingOf site member) ::
      memberGroupings site rest

end

def openTrees (isOpen : Bool) (base : Option ScalarKind) : List TypeTree :=
  if isOpen then [.intersection [.leaf (scalarText (base.getD .string)), .emptyObject]] else []

mutual

def treeOf (site : Site) : TypeExpr -> TypeTree
  | .array element => .array (treeOf site element)
  | .union members isOpen base => unionOf (memberTrees site members ++ openTrees isOpen base)
  | type => .leaf (leafText site type)

def memberTrees (site : Site) : List TypeExpr -> List TypeTree
  | [] => []
  | member :: rest =>
    (if isVoid member then .leaf "void" else treeOf site member) :: memberTrees site rest

end

end Types

section Leaves

def IsWord (text : String) : Prop := text ≠ "" ∧ text.toList.all isWordChar = true

instance (text : String) : Decidable (IsWord text) := inferInstanceAs (Decidable (_ ∧ _))

private theorem IsWord.lexed {text : String} (h : IsWord text) : Lexed text.toList
    [.atom text] := by
  have hne : text.toList ≠ [] := fun hnil => h.1 (String.toList_eq_nil_iff.mp hnil)
  have hlexed := lexed_word hne (List.all_eq_true.mp h.2)
  rwa [String.ofList_toList] at hlexed

private theorem IsWord.append {text more : String} (h : IsWord text)
    (hm : more.toList.all isWordChar = true) : IsWord (text ++ more) := by
  refine ⟨fun hnil => h.1 (String.append_eq_empty_iff.mp hnil).1, ?_⟩
  rw [String.toList_append, List.all_append, h.2, hm]
  rfl

private theorem isWordChar_of_isAsciiAlnum {c : Char} (h : isAsciiAlnum c = true) :
    isWordChar c = true := by
  rw [isWordChar, h, Bool.true_or]

private theorem all_isWordChar_of_isDigits {ds : List Char} (h : IsDigits ds) :
    ds.all isWordChar = true := by
  refine List.all_eq_true.mpr fun c hc => isWordChar_of_isAsciiAlnum ?_
  rw [isAsciiAlnum, h.2 c hc, Bool.or_true]

private theorem all_isWordChar_of_jsonMagnitude {cs : List Char} (h : JsonMagnitude cs) :
    cs ≠ [] ∧ cs.all isWordChar = true := by
  obtain ⟨hwhole, hfraction, hexponent⟩ := h
  rename_i whole fraction exponent
  have hw : whole ≠ [] ∧ whole.all isWordChar = true := by
    cases hwhole with
    | zero => decide
    | digits hdigits _ => exact ⟨hdigits.1, all_isWordChar_of_isDigits hdigits⟩
  have hf : fraction.all isWordChar = true := by
    cases hfraction with
    | none => rfl
    | digits hdigits =>
      rw [List.all_cons, all_isWordChar_of_isDigits hdigits]
      rfl
  have he : exponent.all isWordChar = true := by
    cases hexponent with
    | none => rfl
    | digits hmark hsign hdigits =>
      rw [List.all_cons, List.all_append, all_isWordChar_of_isDigits hdigits, Bool.and_true]
      rcases hmark with rfl | rfl <;> rcases hsign with rfl | rfl | rfl <;> rfl
  refine ⟨fun hnil => hw.1 ?_, ?_⟩
  · exact (List.append_eq_nil_iff.mp (List.append_eq_nil_iff.mp hnil).1).1
  · rw [List.all_append, List.all_append, hw.2, hf, he]
    rfl

private theorem isWord_of_jsonWord {text : String} (h : JsonWord text.toList) : IsWord text := by
  have hchars {cs : List Char} (k : JsonWord cs) : cs ≠ [] ∧ cs.all isWordChar = true := by
    cases k with
    | true | false | null => decide
    | positive hmagnitude => exact all_isWordChar_of_jsonMagnitude hmagnitude
    | negative hmagnitude =>
      refine ⟨List.cons_ne_nil _ _, ?_⟩
      rw [List.all_cons, (all_isWordChar_of_jsonMagnitude hmagnitude).2]
      rfl
  exact ⟨fun hnil => (hchars h).1 (String.toList_eq_nil_iff.mpr hnil), (hchars h).2⟩

private theorem isWord_text (x : Binary64) : IsWord x.text := by
  cases x with
  | nan =>
    have htext : Binary64.text .nan = "NaN" := rfl
    rw [htext]
    decide
  | infinite negative =>
    cases negative <;> decide
  | finite negative mantissa exponent =>
    exact isWord_of_jsonWord (jsonWord_format .general negative mantissa exponent)

private theorem lexed_literal (value : Literal) : Lexed value.text.toList [.atom value.text] := by
  cases value with
  | str s => exact (closed_quote s).lexed
  | int i => exact (isWord_of_jsonWord (jsonWord_toString i)).lexed
  | float x => exact (isWord_text x).lexed
  | bool b =>
    refine IsWord.lexed ?_
    cases b <;> decide

private theorem isWord_scalarText (kind : ScalarKind) : IsWord (scalarText kind) := by
  cases kind <;> decide

private theorem isWord_declaredName {name : String} (h : isAlnumWord name = true) :
    IsWord name ∧ IsWord (declaredName name) := by
  simp only [isAlnumWord, Bool.and_eq_true, Bool.not_eq_true', String.isEmpty_eq_false_iff,
    List.all_eq_true] at h
  have hname : IsWord name :=
    ⟨h.1, List.all_eq_true.mpr fun c hc => isWordChar_of_isAsciiAlnum (h.2 c hc)⟩
  refine ⟨hname, ?_⟩
  unfold declaredName
  split
  · exact hname.append (by decide)
  · exact hname

private theorem isWord_of_worded {name : String} {first : Char} (h : Worded name first) :
    IsWord name := by
  refine ⟨?_, List.all_eq_true.mpr fun c hc => ?_⟩
  · rintro rfl
    cases h.front
  · rcases h.chars c hc with halnum | rfl
    · exact isWordChar_of_isAsciiAlnum halnum
    · rfl

private theorem isWord_unitAlias {unit : String} (h : Nsid.isValid unit = true) :
    IsWord (unitAlias unit) := by
  obtain ⟨nsid, hn⟩ := (Nsid.isValid_iff unit).mp h
  obtain ⟨first, _, hspelled⟩ := Casing.spelled_of_parse hn
  exact isWord_of_worded (worded_title hspelled)

end Leaves

section Grammar

/-- A text is one operand, which brackets of an array may follow. -/
def Operand (text : String) (tree : TypeTree) : Prop :=
  ∃ tokens, Lexed text.toList tokens ∧ Postfix tokens tree

/-- A text lists alternatives. -/
def Listed (text : String) (trees : List TypeTree) : Prop :=
  ∃ tokens, Lexed text.toList tokens ∧ Alternatives tokens trees

variable {text more : String} {tree : TypeTree} {trees : List TypeTree}

private theorem Listed.parses (h : Listed text trees) : Parses text (unionOf trees) := by
  obtain ⟨tokens, hlexed, htrees⟩ := h
  exact ⟨tokens, trees, hlexed.typeTokens?, htrees, rfl⟩

private theorem Operand.listed (h : Operand text tree) : Listed text [tree] := by
  obtain ⟨tokens, hlexed, htree⟩ := h
  exact ⟨tokens, hlexed, .one (.one htree)⟩

private theorem operand_leaf (h : Lexed text.toList [.atom text]) : Operand text (.leaf text) :=
  ⟨_, h, .primary (.atom text)⟩

private theorem Operand.array (h : Operand text tree) : Operand (text ++ "[]") (.array tree) := by
  obtain ⟨tokens, hlexed, htree⟩ := h
  have hmarks : Closed ['[', ']'] [.openBracket, .closeBracket] :=
    (closed_mark (c := '[') rfl).append (closed_mark (c := ']') rfl)
  refine ⟨_, ?_, .array htree⟩
  rw [String.toList_append]
  exact (hlexed.append_closed (by decide) hmarks).lexed

private theorem Listed.inParens (h : Listed text trees) : Operand ("(" ++ text ++ ")")
    (unionOf trees) := by
  obtain ⟨tokens, hlexed, htrees⟩ := h
  refine ⟨_, ?_, .primary (.parens htrees)⟩
  have hopen : Closed ['('] [.openParen] := closed_mark rfl
  have hclose : Closed [')'] [.closeParen] := closed_mark rfl
  have hall := (hopen.append_lexed hlexed).append_closed (by decide) hclose
  simpa using hall.lexed

private theorem Operand.cons (h : Operand text tree) (k : Listed more trees) :
    Listed (text ++ " | " ++ more) (tree :: trees) := by
  obtain ⟨tokens, hlexed, htree⟩ := h
  obtain ⟨others, hmore, htrees⟩ := k
  have hbar : Closed [' ', '|', ' '] [.bar] :=
    (closed_blank.append (closed_mark (c := '|') rfl)).append closed_blank
  refine ⟨_, ?_, .more (.one htree) htrees⟩
  have hall := (hlexed.append_closed (by decide) hbar).append_lexed hmore
  simpa using hall

private theorem listed_joinWith {texts : List String} (h : List.Forall₂ Operand texts trees)
    (hne : texts ≠ []) : Listed (joinWith " | " texts) trees := by
  induction h with
  | nil => exact absurd rfl hne
  | cons hoperand hrest ih =>
    cases hrest with
    | nil => exact hoperand.listed
    | cons _ _ => exact hoperand.cons (ih (List.cons_ne_nil _ _))

private theorem listed_alternatives {texts : List String} (h : List.Forall₂ Operand texts trees)
    (hne : trees ≠ []) : Listed (alternatives texts) trees := by
  cases h with
  | nil => exact absurd rfl hne
  | cons hoperand hrest =>
    exact listed_joinWith (.cons hoperand hrest) (List.cons_ne_nil _ _)

private theorem operand_alternatives {texts : List String} (h : List.Forall₂ Operand texts trees)
    (hlength : trees.length = 1) : Operand (alternatives texts) (unionOf trees) := by
  obtain ⟨tree, rfl⟩ := List.length_eq_one_iff.mp hlength
  obtain ⟨text, _, hoperand, hnil, rfl⟩ := List.forall₂_cons_right_iff.mp h
  cases hnil
  exact hoperand

private theorem operand_open {base : String} (h : IsWord base) :
    Operand ("(" ++ base ++ " & \x7b\x7d)") (.intersection [.leaf base, .emptyObject]) := by
  have hopen : Closed ['('] [.openParen] := closed_mark rfl
  have hand : Closed [' ', '&', ' '] [.ampersand] :=
    (closed_blank.append (closed_mark (c := '&') rfl)).append closed_blank
  have hbraces : Closed ['\x7b', '\x7d'] [.openBrace, .closeBrace] :=
    (closed_mark (c := '\x7b') rfl).append (closed_mark (c := '\x7d') rfl)
  have hclose : Closed [')'] [.closeParen] := closed_mark rfl
  have hparts : Parts [.atom base, .ampersand, .openBrace, .closeBrace]
      [.leaf base, .emptyObject] :=
    .more (.primary (.atom base)) (.one (.primary .braces))
  refine ⟨_, ?_, .primary (.parens (.one hparts))⟩
  have htail := (hand.append hbraces).append hclose
  have hall := (hopen.append_lexed h.lexed).append_closed (by decide) htail
  simpa using hall.lexed

end Grammar

section Steps

variable {α β : Type} {P : α -> Prop} {Q : β -> Prop}

/-- Something can be written wherever it stands, and then is of some kind. -/
def Yields (print : Print α) (P : α -> Prop) : Prop :=
  ∀ i, ∃ a j, print i = .ok (a, j) ∧ P a

private theorem yields_pure {a : α} (h : P a) : Yields (pure a) P := fun i => ⟨a, i, rfl, h⟩

private theorem Yields.bind {first : Print α} {rest : α -> Print β} (h : Yields first P)
    (k : ∀ a, P a -> Yields (rest a) Q) : Yields (first >>= rest) Q := by
  intro i
  obtain ⟨a, j, hfirst, ha⟩ := h i
  have hrun : (first >>= rest) i = (first i >>= fun r => rest r.1 r.2) := rfl
  rw [hrun, hfirst]
  exact k a ha j

private theorem Yields.map {print : Print α} (h : Yields print P) {f : α -> β}
    (k : ∀ a, P a -> Q (f a)) :
    Yields (print >>= fun a => pure (f a)) Q :=
  h.bind fun a ha => yields_pure (k a ha)

end Steps

section Writing

variable {site : Site} {type : TypeExpr} {text : String}

/-- The text of a type consists of the tree of the type, and is one operand where it is not put in
brackets. -/
structure Writes (site : Site) (type : TypeExpr) (text : String) : Prop where
  listed : ∃ trees, Listed text trees ∧ unionOf trees = treeOf site type
  operand : needsBrackets type = false -> Operand text (treeOf site type)

private theorem Operand.writes (h : Operand text (treeOf site type)) : Writes site type text :=
  ⟨⟨_, h.listed, rfl⟩, fun _ => h⟩

private theorem operand_word (h : IsWord text) : Operand text (.leaf text) := operand_leaf h.lexed

private theorem Groupable.bracketFunction_eq (h : Groupable type) (text : String) :
    bracketFunction type text = text := by
  cases h <;> rfl

private theorem Groupable.needsBrackets_eq_false (h : Groupable type)
    (hflat : isUnion type = false) :
    needsBrackets type = false := by
  cases h with
  | union _ _ _ => cases hflat
  | _ => rfl

private theorem memberTexts_yields {members : List TypeExpr} (hmembers : ∀ m ∈ members, Groupable m)
    (hflat : ∀ m ∈ members, isUnion m = false) (depth : Nat)
    (hw : ∀ m ∈ members, Yields (typeText site m depth) (Writes site m)) :
    Yields (memberTexts site members depth) fun texts =>
      List.Forall₂ Operand texts (memberTrees site members) := by
  induction members with
  | nil =>
    rw [memberTexts]
    exact yields_pure .nil
  | cons member rest ih =>
    rw [List.forall_mem_cons] at hmembers hflat hw
    have hrest := ih hmembers.2 hflat.2 hw.2
    simp only [memberTexts, memberTrees, hmembers.1.bracketFunction_eq]
    cases hv : isVoid member with
    | true =>
      have hvoid : Operand "void" (.leaf "void") := operand_word (by decide)
      have hyields := yields_pure (P := fun text => Operand text (.leaf "void")) hvoid
      exact hyields.bind fun _ htext => hrest.map fun _ => .cons htext
    | false =>
      have hoperand := hmembers.1.needsBrackets_eq_false hflat.1
      exact hw.1.bind fun _ htext => hrest.map fun _ => .cons (htext.operand hoperand)

private theorem forall₂_openTrees (isOpen : Bool) (base : Option ScalarKind) :
    List.Forall₂ Operand (openAlternative isOpen base) (openTrees isOpen base) := by
  cases isOpen with
  | false => exact .nil
  | true => exact .cons (operand_open (isWord_scalarText _)) .nil

private theorem trees_ne_nil (site : Site) {members : List TypeExpr} {isOpen : Bool}
    (hsome : members ≠ [] ∨ isOpen = true) (base : Option ScalarKind) :
    memberTrees site members ++ openTrees isOpen base ≠ [] := by
  rcases hsome with hne | rfl
  · obtain ⟨member, rest, rfl⟩ := List.exists_cons_of_ne_nil hne
    rw [memberTrees]
    exact List.cons_ne_nil _ _
  · simp [openTrees]

private theorem length_memberTrees (site : Site) (members : List TypeExpr) :
    (memberTrees site members).length = members.length := by
  induction members with
  | nil => rfl
  | cons member rest ih => rw [memberTrees, List.length_cons, List.length_cons, ih]

private theorem length_trees (site : Site) (members : List TypeExpr) (isOpen : Bool)
    (base : Option ScalarKind) :
    (memberTrees site members ++ openTrees isOpen base).length =
      members.length + if isOpen then 1 else 0 := by
  rw [List.length_append, length_memberTrees]
  cases isOpen <;> rfl

/-- A type that the grammar has a place for has a text at every depth. -/
private theorem Groupable.yields (h : Groupable type) (depth : Nat) :
    Yields (typeText site type depth) (Writes site type) := by
  induction h with
  | scalar kind =>
    rw [typeText]
    exact yields_pure (operand_word (isWord_scalarText kind)).writes
  | literal value =>
    rw [typeText]
    exact yields_pure (operand_leaf (lexed_literal value)).writes
  | blob variant accept maxSize =>
    intro i
    exact ⟨"BlobRef", _, rfl, (operand_word (by decide)).writes⟩
  | @ref unit name hname hunit =>
    obtain ⟨hword, hdeclared⟩ := isWord_declaredName hname
    cases unit with
    | none =>
      rw [typeText]
      exact yields_pure (operand_word hdeclared).writes
    | some unit =>
      have halias : IsWord (unitAlias unit ++ "." ++ name) :=
        ((isWord_unitAlias (hunit unit rfl)).append (by decide)).append hword.2
      have hleaf : IsWord (leafText site (.ref (some unit) name)) := by
        simp only [leafText]
        split
        · exact hdeclared
        · exact halias
      intro i
      refine ⟨_, if unit == site.unit then i else i.useWhole unit, ?_,
        (operand_word hleaf).writes⟩
      rw [typeText, leafText]
      split <;> rfl
  | bytes =>
    rw [typeText]
    exact yields_pure (operand_word (by decide)).writes
  | void =>
    rw [typeText]
    exact yields_pure (operand_word (by decide)).writes
  | @array element h ih =>
    rw [typeText]
    refine ih.map fun text htext => Operand.writes (Operand.array ?_)
    cases hb : needsBrackets element with
    | true =>
      obtain ⟨trees, hlisted, htree⟩ := htext.listed
      rw [← htree]
      exact hlisted.inParens
    | false => exact htext.operand hb
  | @union members isOpen base hsome hmembers hflat ih =>
    rw [typeText]
    refine (memberTexts_yields hmembers hflat depth ih).map fun texts hoperands => ?_
    have hall := List.rel_append hoperands (forall₂_openTrees isOpen base)
    have hne := trees_ne_nil site hsome base
    refine ⟨⟨_, listed_alternatives hall hne, rfl⟩, fun hb => operand_alternatives hall ?_⟩
    have hlength := length_trees site members isOpen base
    have hpos := List.length_pos_of_ne_nil hne
    simp only [needsBrackets, decide_eq_false_iff_not] at hb
    omega

end Writing

section Recovery

variable {site : Site}

private theorem grouping?_of_openBase? {tree : TypeTree} {base : String}
    (h : tree.openBase? = some base) : tree.grouping? = some (.union [] (some base)) := by
  cases tree with
  | intersection parts =>
    rw [TypeTree.grouping?, h]
    rfl
  | _ => cases h

private theorem alternativesGrouping?_last {tree : TypeTree} {base : String}
    (h : tree.openBase? = some base) : alternativesGrouping? [tree] = some ([], some base) := by
  simp [alternativesGrouping?, h]

private theorem alternativesGrouping?_cons (tree : TypeTree) {rest : List TypeTree}
    (h : rest ≠ [] ∨ tree.openBase? = none) :
    alternativesGrouping? (tree :: rest) =
      tree.grouping?.bind fun member =>
        (alternativesGrouping? rest).map fun (members, base) => (member :: members, base) := by
  rw [alternativesGrouping?]
  intro base hrest hopen
  rcases h with hne | hnone
  · exact hne hrest
  · rw [hnone] at hopen
    cases hopen

private theorem ne_nil_of_alternativesGrouping? {trees : List TypeTree} {members : List Grouping}
    (hne : trees ≠ []) (h : alternativesGrouping? trees = some (members, none)) :
    members ≠ [] := by
  obtain ⟨tree, rest, rfl⟩ := List.exists_cons_of_ne_nil hne
  by_cases hlast : rest = [] ∧ tree.openBase? ≠ none
  · obtain ⟨rfl, hopen⟩ := hlast
    obtain ⟨base, hbase⟩ := Option.ne_none_iff_exists'.mp hopen
    rw [alternativesGrouping?_last hbase] at h
    cases h
  · rw [alternativesGrouping?_cons tree (by tauto)] at h
    obtain ⟨member, _, hrest⟩ := Option.bind_eq_some_iff.mp h
    obtain ⟨_, _, he⟩ := Option.map_eq_some_iff.mp hrest
    rw [← (Prod.mk.inj he).1]
    exact List.cons_ne_nil _ _

private theorem grouping?_unionOf {trees : List TypeTree} {members : List Grouping}
    {base : Option String} (hne : trees ≠ [])
    (h : alternativesGrouping? trees = some (members, base)) :
    (unionOf trees).grouping? = some (.ofUnion members base) := by
  cases trees with
  | nil => exact absurd rfl hne
  | cons tree rest =>
    cases rest with
    | nil =>
      cases hopen : tree.openBase? with
      | some found =>
        rw [alternativesGrouping?_last hopen] at h
        obtain ⟨rfl, rfl⟩ := Prod.mk.inj (Option.some.inj h)
        exact grouping?_of_openBase? hopen
      | none =>
        rw [alternativesGrouping?_cons tree (Or.inr hopen)] at h
        obtain ⟨member, hmember, hrest⟩ := Option.bind_eq_some_iff.mp h
        cases hrest
        exact hmember
    | cons next rest =>
      have hunion : unionOf (tree :: next :: rest) = .union (tree :: next :: rest) := rfl
      rw [hunion, TypeTree.grouping?, h]
      rw [alternativesGrouping?_cons tree (Or.inl (List.cons_ne_nil _ _))] at h
      obtain ⟨member, hmember, hrest⟩ := Option.bind_eq_some_iff.mp h
      obtain ⟨⟨others, found⟩, hothers, he⟩ := Option.map_eq_some_iff.mp hrest
      obtain ⟨rfl, rfl⟩ := Prod.mk.inj he
      cases found with
      | some found => rfl
      | none =>
        have hothers := ne_nil_of_alternativesGrouping? (List.cons_ne_nil _ _) hothers
        obtain ⟨other, more, rfl⟩ := List.exists_cons_of_ne_nil hothers
        rfl

private theorem alternativesGrouping?_append {trees : List TypeTree} {members : List Grouping}
    (h : List.Forall₂ (fun tree member => tree.grouping? = some member ∧ tree.openBase? = none)
      trees members) (isOpen : Bool) (base : Option ScalarKind) :
    alternativesGrouping? (trees ++ openTrees isOpen base) =
      some (members, if isOpen then some (scalarText (base.getD .string)) else none) := by
  induction h with
  | nil => cases isOpen <;> rfl
  | cons h hrest ih =>
    rw [List.cons_append, alternativesGrouping?_cons _ (Or.inr h.2), h.1, ih]
    rfl

private theorem memberTrees_recovered {members : List TypeExpr}
    (hflat : ∀ m ∈ members, isUnion m = false)
    (h : ∀ m ∈ members, (treeOf site m).grouping? = some (groupingOf site m) ∧
      (isUnion m = false -> (treeOf site m).openBase? = none)) :
    List.Forall₂ (fun tree member => tree.grouping? = some member ∧ tree.openBase? = none)
      (memberTrees site members) (memberGroupings site members) := by
  induction members with
  | nil => exact .nil
  | cons member rest ih =>
    rw [List.forall_mem_cons] at hflat h
    rw [memberTrees, memberGroupings]
    refine .cons ?_ (ih hflat.2 h.2)
    split
    · exact ⟨rfl, rfl⟩
    · exact ⟨h.1.1, h.1.2 hflat.1⟩

private theorem Groupable.recovered {type : TypeExpr} (h : Groupable type) :
    (treeOf site type).grouping? = some (groupingOf site type) ∧
      (isUnion type = false -> (treeOf site type).openBase? = none) := by
  induction h with
  | scalar | literal | blob | ref | bytes | void => exact ⟨rfl, fun _ => rfl⟩
  | array _ ih =>
    rw [treeOf, groupingOf, TypeTree.grouping?, ih.1]
    exact ⟨rfl, fun _ => rfl⟩
  | @union members isOpen base hsome hmembers hflat ih =>
    have hall := alternativesGrouping?_append (memberTrees_recovered hflat ih) isOpen base
    have hne := trees_ne_nil site hsome base
    rw [treeOf, groupingOf, grouping?_unionOf hne hall]
    exact ⟨rfl, nofun⟩

end Recovery

/-- The text of a type has one reading, and that gives back how the type is grouped. -/
theorem grouping_recovered (site : Site) {type : TypeExpr} (h : Groupable type) (depth : Nat)
    (i : Imports) :
    ∃ text j, typeText site type depth i = .ok (text, j) ∧
      ∀ grouping, Groups text grouping ↔ grouping = groupingOf site type := by
  obtain ⟨text, j, hrun, hwrites⟩ := h.yields depth i
  obtain ⟨trees, hlisted, htree⟩ := hwrites.listed
  have hgroups : Groups text (groupingOf site type) :=
    ⟨_, hlisted.parses, htree ▸ h.recovered.1⟩
  refine ⟨text, j, hrun, fun grouping => ⟨fun hg => hg.unique hgroups, ?_⟩⟩
  rintro rfl
  exact hgroups

/-- An array of an open union, with marks inside of a literal. -/
theorem grouping_recovered_array :
    typeText ⟨⟨2, false, "", ""⟩, "com.example.thing"⟩
        (.array (.union [.literal (.str "a | b]"), .array (.array .bytes)] true none)) 0 .none =
      .ok ("(\"a | b]\" | Uint8Array[][] | (string & \x7b\x7d))[]", .none) ∧
    ∀ grouping, Groups "(\"a | b]\" | Uint8Array[][] | (string & \x7b\x7d))[]" grouping ↔
      grouping = .array (.union [.leaf "\"a | b]\"", .array (.array (.leaf "Uint8Array"))]
        (some "string")) := by
  let members : List TypeExpr := [.literal (.str "a | b]"), .array (.array .bytes)]
  have hmembers : ∀ m ∈ members, Groupable m :=
    List.forall_mem_cons.mpr ⟨.literal _, List.forall_mem_singleton.mpr (.array (.array .bytes))⟩
  have h : Groupable (.array (.union members true none)) :=
    .array (.union (Or.inr rfl) hmembers (by decide))
  obtain ⟨text, j, hrun, hgroups⟩ :=
    grouping_recovered ⟨⟨2, false, "", ""⟩, "com.example.thing"⟩ h 0 .none
  cases hrun
  exact ⟨rfl, hgroups⟩

end LexiconCompiler.TypeScript
