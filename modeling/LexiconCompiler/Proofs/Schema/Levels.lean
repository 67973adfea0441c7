import LexiconCompiler.Proofs.Markup.Unfolding
import LexiconCompiler.Proofs.Schema.Reading
import LexiconCompiler.Schema.Reader

set_option autoImplicit false
set_option relaxedAutoImplicit false

/-!
How many levels of a tree the readers look at. The items of a type, the properties of an object, the
schema of a body and the definitions of a document each add two, one for what stands there and one
for an alias in its place.
-/

namespace LexiconCompiler

open LexiconCompiler.Markup

variable {a b : Node} {f g : Fields} {n : Nat}

section Leaves

private theorem describe_agree (h : a.Agree (n + 1) b) : describe (some a) = describe (some b) := by
  cases h <;> rfl

private theorem readString_agree (h : a.Agree (n + 1) b) (path : String) :
    readString a path = readString b path := by
  cases h <;> rfl

private theorem readBoolean_agree (h : a.Agree (n + 1) b) (path : String) :
    readBoolean a path = readBoolean b path := by
  cases h <;> rfl

private theorem readInteger_agree (h : a.Agree (n + 1) b) (path : String) :
    readInteger a path = readInteger b path := by
  cases h <;> rfl

private theorem readNumber_agree (h : a.Agree (n + 1) b) (path : String) :
    readNumber a path = readNumber b path := by
  cases h <;> rfl

private theorem forall₂_bare {items others : List Node}
    (h : List.Forall₂ (Node.Agree (n + 1)) items others) :
    List.Forall₂ (Node.Agree n) (items.map Node.bare) (others.map Node.bare) := by
  rw [List.forall₂_map_left_iff, List.forall₂_map_right_iff]
  exact h.imp fun _ _ => Node.Agree.bare

private theorem readItems_agree {α : Type} {read : Node → String → Reviewed (Option α)}
    (hread : ∀ a b : Node, a.Agree n b → ∀ path, read a path = read b path)
    {items others : List Node} (h : List.Forall₂ (Node.Agree n) items others) (path : String)
    (index : Nat) : readItems read path index items = readItems read path index others := by
  induction h generalizing index with
  | nil => rfl
  | cons hitem _ ih => rw [readItems, readItems, hread _ _ hitem, ih]

private theorem readStrings_agree (h : a.Agree (n + 3) b) (path : String) :
    readStrings a path = readStrings b path := by
  cases h with
  | sequence hitems =>
    exact readItems_agree (fun _ _ h => readString_agree h) (forall₂_bare hitems) path 0
  | scalar | mapping | reference => rfl

end Leaves

/-- The same keys in the same order, with values that are alike down to some levels. -/
inductive EntriesAgree (n : Nat) : List (String × Node) → List (String × Node) → Prop
  | nil : EntriesAgree n [] []
  | cons (key : String) {a b : Node} {entries others : List (String × Node)} : a.Agree n b →
      EntriesAgree n entries others → EntriesAgree n ((key, a) :: entries) ((key, b) :: others)

private theorem EntriesAgree.mono {m : Nat} {entries others : List (String × Node)}
    (h : EntriesAgree n entries others) (hm : m ≤ n) : EntriesAgree m entries others := by
  induction h with
  | nil => exact .nil
  | cons key hvalue _ ih => exact .cons key (hvalue.mono hm) ih

private theorem EntriesAgree.lookup_cases {entries others : List (String × Node)}
    (h : EntriesAgree n entries others) (key : String) :
    (entries.lookup key = none ∧ others.lookup key = none) ∨
      ∃ a b, entries.lookup key = some a ∧ others.lookup key = some b ∧ a.Agree n b := by
  induction h with
  | nil => exact Or.inl ⟨rfl, rfl⟩
  | cons name hvalue _ ih =>
    rw [List.lookup_cons, List.lookup_cons]
    cases key == name with
    | true => exact Or.inr ⟨_, _, rfl, rfl, hvalue⟩
    | false => exact ih

/-- The fields of two mappings at one place, with values that are alike down to some levels. -/
structure Fields.Agree (n : Nat) (f g : Fields) : Prop where
  path : f.path = g.path
  entries : EntriesAgree n f.entries g.entries

private theorem place_of_path (h : f.path = g.path) (key : String) : f.place key = g.place key := by
  rw [Fields.place, Fields.place, h]

namespace Fields.Agree

variable {α : Type} {read : Node → String → Reviewed (Option α)}

private theorem mono {m : Nat} (h : f.Agree n g) (hm : m ≤ n) : f.Agree m g :=
  ⟨h.path, h.entries.mono hm⟩

private theorem get?_cases (h : f.Agree n g) (key : String) :
    (f.get? key = none ∧ g.get? key = none) ∨
      ∃ a b, f.get? key = some a ∧ g.get? key = some b ∧ a.Agree n b :=
  h.entries.lookup_cases key

private theorem place (h : f.Agree n g) (key : String) : f.place key = g.place key :=
  place_of_path h.path key

private theorem isSome (h : f.Agree n g) (key : String) :
    (f.get? key).isSome = (g.get? key).isSome := by
  obtain ⟨hf, hg⟩ | ⟨a, b, hf, hg, -⟩ := h.get?_cases key
  all_goals simp only [hf, hg, Option.isSome]

private theorem describe (h : f.Agree (n + 1) g) (key : String) :
    LexiconCompiler.describe (f.get? key) = LexiconCompiler.describe (g.get? key) := by
  obtain ⟨hf, hg⟩ | ⟨a, b, hf, hg, hagree⟩ := h.get?_cases key
  · rw [hf, hg]
  · rw [hf, hg, describe_agree hagree]

private theorem optional (h : f.Agree n g)
    (hread : ∀ a b : Node, a.Agree n b → ∀ path, read a path = read b path) (key : String) :
    f.optional read key = g.optional read key := by
  unfold Fields.optional
  rw [h.place]
  obtain ⟨hf, hg⟩ | ⟨a, b, hf, hg, hagree⟩ := h.get?_cases key
  · rw [hf, hg]
  · rw [hf, hg]
    exact hread a b hagree _

private theorem requiredString (h : f.Agree (n + 1) g) (key : String) :
    f.requiredString key = g.requiredString key := by
  unfold Fields.requiredString
  rw [h.place]
  obtain ⟨hf, hg⟩ | ⟨a, b, hf, hg, hagree⟩ := h.get?_cases key
  · rw [hf, hg]
  · rw [hf, hg]
    exact readString_agree hagree _

private theorem textOr (h : f.Agree (n + 1) g) (key : String) : f.textOr key = g.textOr key := by
  unfold Fields.textOr
  rw [h.optional fun _ _ => readString_agree]

private theorem length (h : f.Agree (n + 1) g) (key : String) : f.length key = g.length key := by
  unfold Fields.length
  rw [h.optional fun _ _ => readInteger_agree, h.place, h.describe]

private theorem strings (h : f.Agree (n + 3) g) (key : String) :
    f.strings key = g.strings key := by
  unfold Fields.strings
  rw [h.place]
  obtain ⟨hf, hg⟩ | ⟨a, b, hf, hg, hagree⟩ := h.get?_cases key
  · rw [hf, hg]
  · rw [hf, hg]
    exact readStrings_agree hagree _

private theorem list?_cases (h : f.Agree (n + 2) g) (key : String) :
    (∃ items others, f.list? key = pure (some items) ∧ g.list? key = pure (some others) ∧
      List.Forall₂ (Node.Agree n) items others) ∨ f.list? key = g.list? key := by
  unfold Fields.list?
  rw [h.place]
  obtain ⟨hf, hg⟩ | ⟨a, b, hf, hg, hagree⟩ := h.get?_cases key
  · rw [hf, hg]
    exact Or.inr rfl
  · rw [hf, hg]
    cases hagree with
    | sequence hitems => exact Or.inl ⟨_, _, rfl, rfl, forall₂_bare hitems⟩
    | scalar | mapping | reference => exact Or.inr rfl

private theorem values (h : f.Agree (n + 2) g)
    (hread : ∀ a b : Node, a.Agree n b → ∀ path, read a path = read b path) (key : String) :
    f.values read key = g.values read key := by
  unfold Fields.values
  rw [h.place]
  obtain ⟨items, others, hf, hg, hitems⟩ | hsame := h.list?_cases key
  · rw [hf, hg]
    exact Reviewed.pure_bind_congr (readItems_agree hread hitems _ _)
  · rw [hsame]

end Fields.Agree

section Rules

variable {α : Type} {read : Node → String → Reviewed (Option α)}

private theorem readNumericRules_agree (h : f.Agree (n + 3) g)
    (hread : ∀ m (a b : Node), a.Agree (m + 1) b → ∀ path, read a path = read b path) :
    readNumericRules read f = readNumericRules read g := by
  have hoptional := h.optional (hread (n + 2))
  have hvalues := h.values (hread n)
  simp only [readNumericRules, hoptional, hvalues]

private theorem readStringRules_agree (h : f.Agree (n + 3) g) :
    readStringRules f = readStringRules g := by
  have hoptional := h.optional fun _ _ => readString_agree
  simp only [readStringRules, hoptional, h.length, h.strings]

private theorem readBlobRules_agree (h : f.Agree (n + 3) g) (variant : BlobVariant) :
    readBlobRules f variant = readBlobRules g variant := by
  have hoptional := h.optional fun _ _ => readInteger_agree
  simp only [readBlobRules, readBound, refuseBound, hoptional, h.strings, h.place, h.isSome]

private theorem readUnion_agree (h : f.Agree (n + 3) g) (description : String) :
    readUnion f description = readUnion g description := by
  unfold readUnion
  rw [h.place, h.strings]
  obtain ⟨hf, hg⟩ | ⟨a, b, hf, hg, -⟩ := h.get?_cases "refs"
  all_goals rw [hf, hg]

private theorem readLeaf_agree (h : f.Agree (n + 3) g) (kind : Kind) (description : String) :
    readLeaf f kind description = readLeaf g kind description := by
  have hboolean := h.optional fun _ _ => readBoolean_agree
  cases kind with
  | boolean => simp only [readLeaf, hboolean]
  | number => simp only [readLeaf, readNumericRules_agree h fun _ _ _ => readNumber_agree]
  | integer => simp only [readLeaf, readNumericRules_agree h fun _ _ _ => readInteger_agree]
  | string => simp only [readLeaf, readStringRules_agree h]
  | blob variant => simp only [readLeaf, readBlobRules_agree h]
  | ref => simp only [readLeaf, h.requiredString]
  | union => exact readUnion_agree h description
  | datetime | unknown | token => rfl
  | array | object | record | query | procedure | params => rfl

end Rules

section Typed

private theorem textEntries_agree {entries others : List (Key × Node)}
    (h : List.Forall₂ (fun entry other => entry.1 = other.1 ∧ entry.2.Agree (n + 1) other.2)
      entries others) : EntriesAgree n (Node.textEntries entries) (Node.textEntries others) := by
  induction h with
  | nil => exact .nil
  | @cons entry other _ _ hentry _ ih =>
    obtain ⟨key, a⟩ := entry
    obtain ⟨_, b⟩ := other
    obtain ⟨rfl, hvalue⟩ := hentry
    exact .cons key.text hvalue.bare ih

private theorem readFields_agree {α : Type} {k l : Option Fields → Reviewed α} {path : String}
    (h : a.Agree (n + 2) b) (hnone : k none = l none)
    (hsome : ∀ f g : Fields, f.Agree n g → k (some f) = l (some g)) :
    readFields a path >>= k = readFields b path >>= l := by
  cases h with
  | mapping hentries =>
    exact Reviewed.pure_bind_congr (hsome _ _ ⟨rfl, textEntries_agree hentries⟩)
  | scalar | sequence | reference => exact Reviewed.bind_congr hnone

private theorem readTyped_agree (position : Position) (read : KindReader) (h : a.Agree (n + 3) b)
    (hread : ∀ f g : Fields, f.Agree (n + 1) g → ∀ kind d, read f kind d = read g kind d)
    (path : String) : readTyped position read a path = readTyped position read b path := by
  unfold readTyped
  cases h with
  | scalar => rfl
  | sequence hitems =>
    have hstrings := readStrings_agree (.sequence hitems) path
    cases position.shorthand with
    | true => simp only [hstrings]
    | false => rfl
  | mapping hentries =>
    -- A mapping is no shorthand, whether the place has one or not.
    cases position.shorthand
    all_goals
      refine readFields_agree (.mapping hentries) rfl fun f g hfields => ?_
      simp only [hfields.requiredString, hfields.place, hfields.describe, hfields.textOr,
        hread f g hfields]
  | reference => cases position.shorthand <;> rfl

private theorem readRequired_agree (position : Position) (read : KindReader) (h : f.Agree (n + 3) g)
    (hread : ∀ f g : Fields, f.Agree (n + 1) g → ∀ kind d, read f kind d = read g kind d)
    (key path : String) : readRequired position read (f.get? key) path =
      readRequired position read (g.get? key) path := by
  obtain ⟨hf, hg⟩ | ⟨a, b, hf, hg, hagree⟩ := h.get?_cases key
  · rw [hf, hg]
  · rw [hf, hg]
    exact readTyped_agree position read hagree hread path

private theorem readShallow_agree (position : Position) (h : f.Agree 5 g) (kind : Kind)
    (d : String) : readShallow position f kind d = readShallow position g kind d := by
  by_cases harray : kind = .array
  · subst harray
    have hitems :=
      readRequired_agree position.ofItems readLeaf h (fun _ _ => readLeaf_agree) "items"
    simp only [readShallow, hitems, h.place, h.length]
  · rw [readShallow_of_ne harray, readShallow_of_ne harray, readLeaf_agree h]

private theorem readProperties_agree (position : Position) (hpath : f.path = g.path)
    {pairs others : List (String × Node)} (h : EntriesAgree 7 pairs others) :
    readProperties position f pairs = readProperties position g others := by
  induction h with
  | nil => rfl
  | cons name hvalue _ ih =>
    have hnode := readTyped_agree position (readShallow position) hvalue
      fun _ _ => readShallow_agree position
    simp only [readProperties, place_of_path hpath, hnode, ih]

private theorem pairsFrom_agree {seen : List String} (hpath : f.path = g.path)
    {entries others : List (String × Node)} (h : EntriesAgree n entries others) :
    (f.pairsFrom seen entries).issues = (g.pairsFrom seen others).issues ∧
      (f.pairsFrom seen entries).warnings = (g.pairsFrom seen others).warnings ∧
      EntriesAgree n (f.pairsFrom seen entries).value (g.pairsFrom seen others).value := by
  induction h generalizing seen with
  | nil => exact ⟨rfl, rfl, .nil⟩
  | cons name hvalue _ ih =>
    rw [Fields.pairsFrom, Fields.pairsFrom, place_of_path hpath]
    cases seen.contains name with
    | true =>
      obtain ⟨hissues, hwarnings, hpairs⟩ := @ih seen
      simp only [if_true]
      exact ⟨congrArg (List.cons _) hissues, hwarnings, hpairs⟩
    | false =>
      obtain ⟨hissues, hwarnings, hpairs⟩ := @ih (name :: seen)
      exact ⟨congrArg (· ++ []) hissues, congrArg (· ++ []) hwarnings, .cons name hvalue hpairs⟩

private theorem pairs_agree {α : Type} {k l : List (String × Node) → Reviewed α} (h : f.Agree n g)
    (hk : ∀ pairs others, EntriesAgree n pairs others → k pairs = l others) :
    f.pairs >>= k = g.pairs >>= l := by
  obtain ⟨hissues, hwarnings, hpairs⟩ := pairsFrom_agree h.path h.entries
  exact Reviewed.bind_congr_of_alike hissues hwarnings (hk _ _ hpairs)

private theorem readObject_agree (h : f.Agree 9 g) (d : String) (params : Bool) :
    readObject f d params = readObject g d params := by
  unfold readObject
  rw [h.strings]
  refine Reviewed.bind_congr ?_
  rw [h.place]
  obtain ⟨hf, hg⟩ | ⟨a, b, hf, hg, hagree⟩ := h.get?_cases "properties"
  · rw [hf, hg]
  · rw [hf, hg]
    refine readFields_agree hagree rfl fun props others hprops => ?_
    refine pairs_agree hprops fun pairs entries hpairs => ?_
    rw [readProperties_agree _ hprops.path hpairs]

private theorem readObjectAs_agree (h : a.Agree 11 b) (kinds : List (Kind × Bool)) (path : String) :
    readObjectAs kinds a path = readObjectAs kinds b path := by
  refine readFields_agree h rfl fun f g hfields => ?_
  simp only [hfields.requiredString, hfields.place, hfields.describe, hfields.textOr,
    readObject_agree hfields]

end Typed

section Methods

private theorem readSchema_agree (h : f.Agree 9 g) (kind : Kind) (d : String) :
    readSchema f kind d = readSchema g kind d := by
  by_cases hobject : kind = .object
  · subst hobject
    simp only [readSchema, readObject_agree h]
  · rw [readSchema_of_ne hobject, readSchema_of_ne hobject, readLeaf_agree h]

private theorem readEncoding_agree (h : f.Agree (n + 3) g) (document : String) :
    readEncoding document f = readEncoding document g := by
  unfold readEncoding
  rw [h.place, h.isSome]
  obtain ⟨hf, hg⟩ | ⟨a, b, hf, hg, hagree⟩ := h.get?_cases "encoding"
  · rw [hf, hg]
  · rw [hf, hg]
    cases hagree with
    | @sequence items others hitems =>
      cases hitems with
      | nil => rfl
      | cons hitem hrest =>
        have hstrings := readStrings_agree (.sequence (.cons hitem hrest)) (g.place "encoding")
        simp only [hstrings]
    | scalar | mapping | reference => rfl

private theorem readBody_agree (document : String) (h : a.Agree 13 b) (path : String) :
    readBody document a path = readBody document b path := by
  refine readFields_agree h rfl fun f g hfields => ?_
  have hschema := hfields.optional fun _ _ h =>
    readTyped_agree .schema readSchema h fun _ _ => readSchema_agree
  simp only [hfields.textOr, readEncoding_agree hfields, hschema]

private theorem readErrors_agree {items others : List Node}
    (h : List.Forall₂ (Node.Agree (n + 3)) items others) (path : String) (seen : List String)
    (index : Nat) : readErrors path seen index items = readErrors path seen index others := by
  induction h generalizing seen index with
  | nil => rfl
  | cons hitem _ ih =>
    rw [readErrors, readErrors]
    refine readFields_agree hitem (ih seen (index + 1)) fun f g hfields => ?_
    simp only [hfields.requiredString, hfields.textOr, hfields.place, ih]

private theorem readErrorList_agree (h : f.Agree (n + 5) g) :
    readErrorList f = readErrorList g := by
  unfold readErrorList
  rw [h.place]
  obtain ⟨items, others, hf, hg, hitems⟩ | hsame := h.list?_cases "errors"
  · rw [hf, hg]
    exact Reviewed.pure_bind_congr (readErrors_agree hitems _ _ _)
  · rw [hsame]

private theorem readMethod_agree (document : String) (h : f.Agree 13 g) (kind : MethodKind) :
    readMethod document f kind = readMethod document g kind := by
  have hparameters := h.optional fun _ _ hnode =>
    readObjectAs_agree (hnode.mono (by decide)) [(.params, true), (.object, false)]
  have hbody := h.optional fun _ _ => readBody_agree document
  have hinput : readInput document f kind = readInput document g kind := by
    cases kind with
    | query => rfl
    | procedure => exact hbody "input"
  simp only [readMethod, hparameters, hinput, hbody, readErrorList_agree h]

end Methods

section Documents

private theorem readPayload_agree (h : f.Agree 11 g) : readPayload f = readPayload g := by
  unfold readPayload
  rw [h.place]
  obtain ⟨hf, hg⟩ | ⟨a, b, hf, hg, hagree⟩ := h.get?_cases "record"
  · rw [hf, hg]
  · rw [hf, hg]
    exact readObjectAs_agree hagree _ _

private theorem readDefinition_agree (document : String) (h : f.Agree 13 g) (kind : Kind)
    (d : String) : readDefinition document f kind d = readDefinition document g kind d := by
  cases kind with
  | object => simp only [readDefinition, readObject_agree (h.mono (by decide))]
  | record => simp only [readDefinition, h.textOr, readPayload_agree (h.mono (by decide))]
  | query => simp only [readDefinition, readMethod_agree document h]
  | procedure => simp only [readDefinition, readMethod_agree document h]
  | _ => simp only [readDefinition, readShallow_agree .definition (h.mono (by decide))]

private theorem readDefinitions_agree (document : String) {pairs others : List (String × Node)}
    (h : EntriesAgree 15 pairs others) :
    readDefinitions document pairs = readDefinitions document others := by
  induction h with
  | nil => rfl
  | cons name hvalue _ ih =>
    have hnode := readTyped_agree .definition (readDefinition document) hvalue
      fun _ _ => readDefinition_agree document
    simp only [readDefinitions, hnode, ih]

private theorem readDefs_agree (document : String) (h : f.Agree 17 g) :
    readDefs document f = readDefs document g := by
  unfold readDefs
  obtain ⟨hf, hg⟩ | ⟨a, b, hf, hg, hagree⟩ := h.get?_cases "defs"
  · rw [hf, hg]
  · rw [hf, hg]
    refine readFields_agree hagree rfl fun defs others hdefs => ?_
    exact pairs_agree hdefs fun pairs entries hpairs => readDefinitions_agree document hpairs

private theorem readDraft_agree (h : a.Agree 19 b) : readDraft a = readDraft b := by
  refine readFields_agree h rfl fun f g hfields => ?_
  have hinteger := hfields.optional fun _ _ => readInteger_agree
  simp only [hinteger, hfields.textOr, readDefs_agree _ hfields]

/-- A document is read alike from two trees that are alike down to as many levels as it has. -/
theorem reviewDraft_agree (h : a.Agree innerDepth b) : reviewDraft a.bare = reviewDraft b.bare := by
  rw [reviewDraft, reviewDraft, readDraft_agree h.bare]

end Documents

/-- How far the aliases of a text are written out does not show: neither in the document that is
read from it, with its issues and warnings, nor in its JSON form. -/
theorem Markup.TextGraph.depth_irrelevant {graph : TextGraph} {d e : Nat}
    (hd : graph.named.length + innerDepth ≤ d) (he : graph.named.length + innerDepth ≤ e) :
    reviewDraft (graph.unfold d).bare = reviewDraft (graph.unfold e).bare ∧
      (graph.unfold d).toJson = (graph.unfold e).toJson :=
  ⟨reviewDraft_agree (graph.unfold_agree (by omega) (by omega)),
    graph.toJson_unfold (by omega) (by omega)⟩

end LexiconCompiler
