import LexiconCompiler.Proofs.Markup.Repeats
import LexiconCompiler.Proofs.Schema.Reading
import LexiconCompiler.Proofs.Schema.Roles
import LexiconCompiler.Schema.Reader

set_option autoImplicit false
set_option relaxedAutoImplicit false

/-!
Reading a tree whose mappings were thinned. A choice of entries that keeps the first entry of each
key, and all entries where all are read, leaves what is read as it is: the readers find the same
values and report the same issues and warnings.
-/

namespace LexiconCompiler

open LexiconCompiler.Markup

variable {choose : Choice} {f g : Fields}

section Leaves

variable (choose)

private theorem readString_thin (node : Node) (path : String) :
    readString (node.thin choose) path = readString node path := by
  rcases node with ⟨tag, text⟩ | items | entries | ⟨name, _ | target⟩
  · rfl
  all_goals simp [readString, Node.thin, describe]

private theorem integerOf?_thin (node : Node) : integerOf?
    (node.thin choose) = integerOf? node := by
  rcases node with ⟨tag, text⟩ | items | entries | ⟨name, _ | target⟩
  · rfl
  all_goals simp [integerOf?, Node.thin]

private theorem numberOf?_thin (node : Node) :
    LexiconCompiler.numberOf? (node.thin choose) = LexiconCompiler.numberOf? node := by
  rcases node with ⟨tag, text⟩ | items | entries | ⟨name, _ | target⟩
  · rfl
  all_goals simp [LexiconCompiler.numberOf?, Node.thin]

private theorem readInteger_thin (node : Node) (path : String) :
    readInteger (node.thin choose) path = readInteger node path := by
  have hdescribe := describe_thin choose (some node)
  rw [Option.map_some] at hdescribe
  rw [readInteger, readInteger, integerOf?_thin, hdescribe]

private theorem readNumber_thin (node : Node) (path : String) :
    readNumber (node.thin choose) path = readNumber node path := by
  have hdescribe := describe_thin choose (some node)
  rw [Option.map_some] at hdescribe
  rw [readNumber, readNumber, numberOf?_thin, hdescribe]

private theorem readBoolean_thin (node : Node) (path : String) :
    readBoolean (node.thin choose) path = readBoolean node path := by
  rcases node with ⟨tag, text⟩ | items | entries | ⟨name, _ | target⟩
  · rfl
  all_goals simp [readBoolean, Node.thin, describe]

private theorem map_bare_thinItems (items : List Node) :
    (thinItems choose items).map Node.bare = (items.map Node.bare).map (Node.thin choose) := by
  rw [thinItems_eq_map, List.map_map, List.map_map]
  exact List.map_congr_left fun node _ => bare_thin choose node

private theorem readItems_thin {α : Type} {read : Node → String → Reviewed (Option α)}
    {items : List Node}
    (hread : ∀ node ∈ items, ∀ path, read (node.thin choose) path = read node path) (path : String)
    (index : Nat) :
    readItems read path index (items.map (Node.thin choose)) = readItems read path index items := by
  induction items generalizing index with
  | nil => rfl
  | cons node rest ih =>
    rw [List.forall_mem_cons] at hread
    rw [List.map_cons, readItems, readItems, hread.1, ih hread.2]

private theorem readStrings_thin (node : Node) (path : String) :
    readStrings (node.thin choose) path = readStrings node path := by
  rcases node with ⟨tag, text⟩ | items | entries | ⟨name, _ | target⟩
  · rfl
  · simp only [Node.thin, readStrings, map_bare_thinItems]
    exact readItems_thin choose (fun node _ => readString_thin choose node) path 0
  all_goals simp [readStrings, Node.thin, describe]

end Leaves

namespace Fields

abbrev of (entries : List (Key × Node)) (path : String) : Fields := ⟨Node.textEntries entries, path⟩

abbrev thinned (choose : Choice) (entries : List (Key × Node)) (path : String) : Fields :=
  .of (choose (thinEntries choose entries)) path

/-- The fields of a mapping that was thinned, at the same place. -/
structure Thins (choose : Choice) (g f : Fields) : Prop where
  path : g.path = f.path
  get? : ∀ key, g.get? key = (f.get? key).map (Node.thin choose)

private theorem get?_of_requiredString {key text : String}
    (h : (f.requiredString key).value = some text) :
    f.get? key = some (.scalar .str text) := by
  unfold Fields.requiredString at h
  split at h
  · cases h
  · rename_i node hnode
    unfold readString at h
    split at h
    · obtain rfl := Option.some.inj h
      exact hnode
    · cases h

private theorem pairsFrom_of_distinct {seen : List String} {entries : List (String × Node)}
    (h : (entries.map Prod.fst).Nodup) (hseen : ∀ entry ∈ entries, entry.1 ∉ seen) :
    f.pairsFrom seen entries = pure entries := by
  induction entries generalizing seen with
  | nil => rfl
  | cons entry rest ih =>
    obtain ⟨key, node⟩ := entry
    rw [List.map_cons, List.nodup_cons] at h
    rw [List.forall_mem_cons] at hseen
    have hnew : seen.contains key = false := by simpa using hseen.1
    have hrest : ∀ entry ∈ rest, entry.1 ∉ key :: seen := by
      intro entry he hmem
      rcases List.mem_cons.mp hmem with hkey | hmem
      · exact h.1 (List.mem_map.mpr ⟨entry, he, hkey⟩)
      · exact hseen.2 entry he hmem
    rw [pairsFrom, hnew, if_neg (by decide), ih h.2 hrest]
    rfl

private theorem pairs_of_distinct (h : (f.entries.map Prod.fst).Nodup) : f.pairs = pure f.entries :=
  pairsFrom_of_distinct h fun _ _ => List.not_mem_nil

namespace Thins

variable {α : Type} {read : Node → String → Reviewed (Option α)} {key : String}

private theorem place (h : g.Thins choose f) (key : String) : g.place key = f.place key := by
  rw [Fields.place, Fields.place, h.path]

private theorem describe (h : g.Thins choose f) (key : String) :
    LexiconCompiler.describe (g.get? key) = LexiconCompiler.describe (f.get? key) := by
  rw [h.get?, describe_thin]

private theorem optional (h : g.Thins choose f)
    (hread : ∀ node, f.get? key = some node →
      ∀ path, read (node.thin choose) path = read node path) :
    g.optional read key = f.optional read key := by
  unfold Fields.optional
  rw [h.get?, h.place]
  cases hnode : f.get? key with
  | none => rfl
  | some node => exact hread node hnode _

private theorem requiredString (h : g.Thins choose f) (key : String) :
    g.requiredString key = f.requiredString key := by
  unfold Fields.requiredString
  rw [h.get?, h.place]
  cases f.get? key with
  | none => rfl
  | some node => exact readString_thin choose node _

private theorem textOr (h : g.Thins choose f) (key : String) : g.textOr key = f.textOr key := by
  unfold Fields.textOr
  rw [h.optional fun node _ => readString_thin choose node]

private theorem length (h : g.Thins choose f) (key : String) : g.length key = f.length key := by
  unfold Fields.length
  rw [h.optional fun node _ => readInteger_thin choose node, h.place, h.describe]

private theorem strings (h : g.Thins choose f) (key : String) : g.strings key = f.strings key := by
  unfold Fields.strings
  rw [h.get?, h.place]
  cases f.get? key with
  | none => rfl
  | some node => exact readStrings_thin choose node _

private theorem list?_cases (h : g.Thins choose f) (key : String) :
    (∃ items, f.get? key = some (.sequence items) ∧
      g.list? key = pure (some ((items.map Node.bare).map (Node.thin choose))) ∧
      f.list? key = pure (some (items.map Node.bare))) ∨
    (g.list? key = f.list? key ∧ (f.list? key).value = none) := by
  have hdescribe := h.describe key
  unfold Fields.list?
  rw [h.get?] at hdescribe ⊢
  rw [h.place]
  rcases f.get? key with _ | ⟨tag, text⟩ | items | entries | ⟨name, _ | target⟩
  · exact Or.inr ⟨rfl, rfl⟩
  · exact Or.inr ⟨rfl, rfl⟩
  · refine Or.inl ⟨items, rfl, ?_, rfl⟩
    simp only [Option.map_some, Node.thin, map_bare_thinItems]
  · exact Or.inr ⟨rfl, rfl⟩
  · exact Or.inr ⟨rfl, rfl⟩
  · exact Or.inr ⟨rfl, rfl⟩

private theorem values (h : g.Thins choose f)
    (hread : ∀ node path, read (node.thin choose) path = read node path) (key : String) :
    g.values read key = f.values read key := by
  unfold Fields.values
  rcases h.list?_cases key with ⟨items, -, hg, hf⟩ | ⟨hsame, hnone⟩
  · rw [hg, hf, h.place]
    exact Reviewed.pure_bind_congr
      (readItems_thin choose (fun node _ => hread node) _ _)
  · rw [hsame]
    refine Reviewed.bind_congr ?_
    rw [hnone]

end Thins

end Fields

section Rules

private theorem readNumericRules_thin {α : Type} {read : Node → String → Reviewed (Option α)}
    (h : g.Thins choose f) (hread : ∀ node path, read (node.thin choose) path = read node path) :
    readNumericRules read g = readNumericRules read f := by
  have hoptional (key : String) : g.optional read key = f.optional read key :=
    h.optional fun node _ => hread node
  simp only [readNumericRules, hoptional, h.values hread]

private theorem readStringRules_thin (h : g.Thins choose f) :
    readStringRules g = readStringRules f := by
  have hoptional (key : String) : g.optional readString key = f.optional readString key :=
    h.optional fun node _ => readString_thin choose node
  simp only [readStringRules, hoptional, h.length, h.strings]

private theorem readBlobRules_thin (h : g.Thins choose f) (variant : BlobVariant) :
    readBlobRules g variant = readBlobRules f variant := by
  have hoptional (key : String) : g.optional readInteger key = f.optional readInteger key :=
    h.optional fun node _ => readInteger_thin choose node
  simp only [readBlobRules, readBound, refuseBound, hoptional, h.strings, h.get?, h.place,
    Option.isSome_map]

private theorem readUnion_thin (h : g.Thins choose f) (d : String) :
    readUnion g d = readUnion f d := by
  unfold readUnion
  rw [h.get?, h.place, h.strings]
  cases f.get? "refs" with
  | none => rfl
  | some node => rfl

private theorem readLeaf_thin (h : g.Thins choose f) (kind : Kind) (d : String) :
    readLeaf g kind d = readLeaf f kind d := by
  have hboolean (key : String) : g.optional readBoolean key = f.optional readBoolean key :=
    h.optional fun node _ => readBoolean_thin choose node
  cases kind with
  | boolean => simp only [readLeaf, hboolean]
  | number => simp only [readLeaf, readNumericRules_thin h (readNumber_thin choose)]
  | integer => simp only [readLeaf, readNumericRules_thin h (readInteger_thin choose)]
  | string => simp only [readLeaf, readStringRules_thin h]
  | blob variant => simp only [readLeaf, readBlobRules_thin h]
  | ref => simp only [readLeaf, h.requiredString]
  | union => exact readUnion_thin h d
  | datetime | unknown | token => rfl
  | array | object | record | query | procedure | params => rfl

end Rules

section Settled

/-- What is read of a mapping stays the same when its entries are chosen: the first entry of a key
is kept, and every entry where all are read. -/
structure Spares (choose : Choice) (role : Role) (entries : List (Key × Node)) : Prop where
  fields : ∀ key, Node.fieldOf (choose (thinEntries choose entries)) key =
    Node.fieldOf (thinEntries choose entries) key
  whole : role.lists = true → choose (thinEntries choose entries) = thinEntries choose entries
  distinct : role.lists = true → (entries.map (·.1.text)).Nodup

/-- Every mapping that is read of a tree is spared. -/
def Settled (choose : Choice) (role : Role) (node : Node) : Prop :=
  ∀ found entries, node.Reads role found entries → Spares choose found entries

variable {role next : Role} {entries : List (Key × Node)} {key path : String} {child : Node}

private theorem Settled.field (h : Settled choose role (.mapping entries))
    (hleads : role.Leads (Node.kindOf? entries) key next)
    (hf : Node.fieldOf entries key = some child) : Settled choose next child :=
  fun found fields hreads => h found fields (.field hleads hf hreads)

private theorem Settled.thins (h : Settled choose role (.mapping entries)) (path : String) :
    (Fields.thinned choose entries path).Thins choose (.of entries path) := by
  refine ⟨rfl, fun key => ?_⟩
  have hfields := (h role entries .self).fields key
  rw [Node.fieldOf, Node.fieldOf, textEntries_thinEntries, lookup_map_value] at hfields
  exact hfields

private theorem Settled.pairs (h : Settled choose role (.mapping entries))
    (hlists : role.lists = true) (path : String) :
    (Fields.of entries path).pairs = pure (Node.textEntries entries) ∧
    (Fields.thinned choose entries path).pairs =
      pure ((Node.textEntries entries).map fun entry => (entry.1, entry.2.thin choose)) := by
  have hspares := h role entries .self
  have hdistinct := hspares.distinct hlists
  have hwhole : Node.textEntries (choose (thinEntries choose entries)) =
      (Node.textEntries entries).map fun entry => (entry.1, entry.2.thin choose) := by
    rw [hspares.whole hlists, textEntries_thinEntries]
  constructor
  · apply Fields.pairs_of_distinct
    show ((Node.textEntries entries).map Prod.fst).Nodup
    rw [keys_textEntries]
    exact hdistinct
  · rw [← hwhole]
    apply Fields.pairs_of_distinct
    show ((Node.textEntries (choose (thinEntries choose entries))).map Prod.fst).Nodup
    rw [hspares.whole hlists, keys_textEntries, keys_thinEntries]
    exact hdistinct

private theorem Settled.entry (h : Settled choose role (.mapping entries))
    (hlists : role.lists = true) {entry : String × Node} (he : entry ∈ Node.textEntries entries)
    (hleads : ∀ kind, role.Leads kind entry.1 next) : Settled choose next entry.2 := by
  have hdistinct := (h role entries .self).distinct hlists
  rw [← keys_textEntries] at hdistinct
  exact h.field (hleads _) (Text.lookup_of_mem hdistinct he)

private theorem readFields_thin {β : Type} {k l : Option Fields → Reviewed β}
    (hnone : k none = l none) (hsome : ∀ entries, child = .mapping entries →
      k (some (.thinned choose entries path)) = l (some (.of entries path))) :
    readFields (child.thin choose) path >>= k = readFields child path >>= l := by
  rcases child with ⟨tag, text⟩ | items | entries | ⟨name, _ | target⟩
  · exact Reviewed.bind_congr hnone
  · exact Reviewed.bind_congr hnone
  · rw [Node.thin]
    exact Reviewed.pure_bind_congr (hsome entries rfl)
  · exact Reviewed.bind_congr hnone
  · exact Reviewed.bind_congr hnone

private theorem kindOf?_of_requiredString {name : String}
    (h : ((Fields.of entries path).requiredString "type").value = some name) :
    Node.kindOf? entries = Kind.ofName? name := by
  have htype : Node.fieldOf entries "type" = some (.scalar .str name) :=
    Fields.get?_of_requiredString h
  simp only [Node.kindOf?, htype]

private theorem readTyped_thin {position : Position} {read : KindReader}
    (h : Settled choose (.type position) child)
    (hread : ∀ entries path kind d, child = .mapping entries → Node.kindOf? entries = some kind →
      read (.thinned choose entries path) kind d = read (.of entries path) kind d)
    (path : String) :
    readTyped position read (child.thin choose) path = readTyped position read child path := by
  rcases child with ⟨tag, text⟩ | items | entries | ⟨name, _ | target⟩
  · rfl
  · unfold readTyped
    cases position.shorthand with
    | true =>
      have hstrings := readStrings_thin choose (.sequence items) path
      rw [Node.thin] at hstrings ⊢
      simp only [hstrings]
    | false => rfl
  · have hthins := h.thins path
    unfold readTyped
    -- A mapping is no shorthand, whether the place has one or not.
    cases position.shorthand
    all_goals
      simp only [Node.thin, readFields]
      refine Reviewed.pure_bind_congr ?_
      simp only [hthins.requiredString, hthins.place, hthins.describe, hthins.textOr]
      refine Reviewed.bind_congr ?_
      cases hname : ((Fields.of entries path).requiredString "type").value with
      | none => rfl
      | some name =>
        cases hkind : Kind.ofName? name with
        | none => simp only [hkind]
        | some kind =>
          have hkindOf := (kindOf?_of_requiredString hname).trans hkind
          simp only [hkind, hread entries path kind _ rfl hkindOf]
  · cases position <;> rfl
  · cases position <;> rfl

private theorem readRequired_thin {position : Position} {read : KindReader} {node : Option Node}
    (hread : ∀ child, node = some child → ∀ path,
      readTyped position read (child.thin choose) path = readTyped position read child path)
    (path : String) :
    readRequired position read (node.map (Node.thin choose)) path =
      readRequired position read node path := by
  cases node with
  | none => rfl
  | some child => exact hread child rfl path

private theorem readShallow_thin {position : Position} {kind : Kind}
    (h : Settled choose (.type position) (.mapping entries))
    (hkind : Node.kindOf? entries = some kind) (path d : String) :
    readShallow position (.thinned choose entries path) kind d =
      readShallow position (.of entries path) kind d := by
  have hthins := h.thins path
  by_cases harray : kind = .array
  · subst harray
    simp only [readShallow, hthins.get?, hthins.place, hthins.length]
    rw [readRequired_thin]
    intro items hitems itemPath
    refine readTyped_thin (h.field ?_ hitems) (fun _ _ _ _ hmapping _ => ?_) itemPath
    · rw [hkind]
      exact .items
    · subst hmapping
      have hitem : Settled choose (.type position.ofItems) (.mapping _) :=
        h.field (by rw [hkind]; exact .items) hitems
      exact readLeaf_thin (hitem.thins _) _ _
  · rw [readShallow_of_ne harray, readShallow_of_ne harray, readLeaf_thin hthins]

private theorem readProperties_thin {position : Position} {pairs : List (String × Node)}
    (hpath : g.path = f.path) (hs : ∀ entry ∈ pairs, Settled choose (.type position) entry.2) :
    readProperties position g (pairs.map fun entry => (entry.1, entry.2.thin choose)) =
      readProperties position f pairs := by
  induction pairs with
  | nil => rfl
  | cons entry rest ih =>
    obtain ⟨name, node⟩ := entry
    rw [List.forall_mem_cons] at hs
    have hplace : g.place name = f.place name := by rw [Fields.place, Fields.place, hpath]
    have hnode := readTyped_thin hs.1 fun entries path kind d hmapping hkind =>
      readShallow_thin (hmapping ▸ hs.1) hkind path d
    simp only [List.map_cons, readProperties, hplace, hnode, ih hs.2]

private theorem readObject_thin {params : Bool} (h : g.Thins choose f)
    (hs : ∀ node, f.get? "properties" = some node → Settled choose (.properties params) node)
    (d : String) : readObject g d params = readObject f d params := by
  unfold readObject
  rw [h.strings]
  refine Reviewed.bind_congr ?_
  rw [h.get?, h.place]
  cases hnode : f.get? "properties" with
  | none => rfl
  | some node =>
    refine readFields_thin rfl fun entries hmapping => ?_
    subst hmapping
    have hsettled := hs _ hnode
    obtain ⟨hpairs, hthinned⟩ := hsettled.pairs rfl (f.place "properties")
    simp only [hpairs, hthinned]
    refine Reviewed.pure_bind_congr ?_
    have hproperties (entry : String × Node) (he : entry ∈ Node.textEntries entries) :
        Settled choose (.type (memberPosition params)) entry.2 :=
      hsettled.entry rfl he fun _ => .property
    have hsame := readProperties_thin (g := .thinned choose entries (f.place "properties"))
      (f := .of entries (f.place "properties")) rfl hproperties
    rw [hsame]

private theorem readObjectAs_thin (h : Settled choose .object child) {kinds : List (Kind × Bool)}
    (hkinds : ∀ kind ∈ kinds, kind.1 = if kind.2 then .params else .object) (path : String) :
    readObjectAs kinds (child.thin choose) path = readObjectAs kinds child path := by
  refine readFields_thin rfl fun entries hmapping => ?_
  subst hmapping
  have hthins := h.thins path
  simp only [hthins.requiredString, hthins.place, hthins.describe, hthins.textOr]
  refine Reviewed.bind_congr ?_
  cases hname : ((Fields.of entries path).requiredString "type").value with
  | none => rfl
  | some name =>
    cases hfind : kinds.find? fun kind => kind.1.name == name with
    | none => simp only [hfind]
    | some found =>
      obtain ⟨kind, params⟩ := found
      have hkind : kind = if params then .params else .object :=
        hkinds _ (List.mem_of_find?_eq_some hfind)
      have hname' : Kind.ofName? name = some kind := by
        rw [Kind.ofName?_eq_some]
        simpa using List.find?_some hfind
      have hkindOf := (kindOf?_of_requiredString hname).trans hname'
      have hproperties (node : Node)
          (hnode : (Fields.of entries path).get? "properties" = some node) :
          Settled choose (.properties params) node := by
        refine h.field ?_ hnode
        rw [hkindOf, hkind]
        exact .members params
      simp only [hfind, readObject_thin hthins hproperties]

private theorem readSchema_thin {kind : Kind}
    (h : Settled choose (.type .schema) (.mapping entries))
    (hkind : Node.kindOf? entries = some kind) (path d : String) :
    readSchema (.thinned choose entries path) kind d =
      readSchema (.of entries path) kind d := by
  have hthins := h.thins path
  by_cases hobject : kind = .object
  · subst hobject
    simp only [readSchema]
    rw [readObject_thin hthins]
    intro node hnode
    refine h.field ?_ hnode
    rw [hkind]
    exact .fields
  · rw [readSchema_of_ne hobject, readSchema_of_ne hobject, readLeaf_thin hthins]

private theorem readEncoding_thin (h : g.Thins choose f) (document : String) :
    readEncoding document g = readEncoding document f := by
  unfold readEncoding
  rw [h.get?, h.get?, h.place, Option.isSome_map]
  rcases f.get? "encoding" with _ | ⟨tag, text⟩ | (_ | ⟨node, rest⟩) | entries |
    ⟨name, _ | target⟩
  · rfl
  · rfl
  · rfl
  · have hstrings := readStrings_thin choose (.sequence (node :: rest)) (f.place "encoding")
    rw [Node.thin, thinItems] at hstrings
    simp only [Option.map_some, Node.thin, thinItems, hstrings]
  · rfl
  · rfl
  · rfl

private theorem readBody_thin (h : Settled choose .body child) (document path : String) :
    readBody document (child.thin choose) path = readBody document child path := by
  refine readFields_thin rfl fun entries hmapping => ?_
  subst hmapping
  have hthins := h.thins path
  have hschema :
      (Fields.thinned choose entries path).optional (readTyped .schema readSchema) "schema" =
        (Fields.of entries path).optional (readTyped .schema readSchema) "schema" := by
    refine hthins.optional fun node hnode schemaPath => ?_
    have hsettled : Settled choose (.type .schema) node := h.field .schema hnode
    exact readTyped_thin hsettled (fun fields place kind d hmapping hkind =>
      readSchema_thin (hmapping ▸ hsettled) hkind place d) schemaPath
  simp only [hthins.textOr, readEncoding_thin hthins, hschema]

private theorem readErrors_thin {items : List Node}
    (h : ∀ item ∈ items, Settled choose .failure item) (path : String) (seen : List String)
    (index : Nat) :
    readErrors path seen index (items.map (Node.thin choose)) =
      readErrors path seen index items := by
  induction items generalizing seen index with
  | nil => rfl
  | cons item rest ih =>
    rw [List.forall_mem_cons] at h
    have hrest := ih h.2
    rw [List.map_cons, readErrors, readErrors]
    refine readFields_thin (hrest _ _) fun entries hmapping => ?_
    subst hmapping
    have hthins := h.1.thins (indexPath path index)
    simp only [hthins.requiredString, hthins.textOr, hthins.place, hrest]

section Methods

variable {position : Position} {kind : MethodKind}

private theorem Settled.failures (h : Settled choose (.type position) (.mapping entries))
    (hkind : Node.kindOf? entries = some kind.kind) {items : List Node}
    (hf : Node.fieldOf entries "errors" = some (.sequence items)) {item : Node}
    (hi : item ∈ items.map Node.bare) : Settled choose .failure item := by
  intro found fields hreads
  cases hreads with
  | self => exact h .failure fields (.failure kind hkind hf hi)
  | field hleads => cases hleads

private theorem readErrorList_thin (h : Settled choose (.type position) (.mapping entries))
    (hkind : Node.kindOf? entries = some kind.kind) (path : String) :
    readErrorList (.thinned choose entries path) = readErrorList (.of entries path) := by
  have hthins := h.thins path
  unfold readErrorList
  rcases hthins.list?_cases "errors" with ⟨items, hitems, hg, hf⟩ | ⟨hsame, hnone⟩
  · rw [hg, hf, hthins.place]
    exact Reviewed.pure_bind_congr
      (readErrors_thin (fun item hi => h.failures hkind hitems hi) _ _ _)
  · rw [hsame]
    refine Reviewed.bind_congr ?_
    rw [hnone]

private theorem readMethod_thin (h : Settled choose (.type position) (.mapping entries))
    (hkind : Node.kindOf? entries = some kind.kind) (document path : String) :
    readMethod document (.thinned choose entries path) kind =
      readMethod document (.of entries path) kind := by
  have hthins := h.thins path
  have hparameters : (Fields.thinned choose entries path).optional
        (readObjectAs [(.params, true), (.object, false)]) "parameters" =
      (Fields.of entries path).optional
        (readObjectAs [(.params, true), (.object, false)]) "parameters" := by
    refine hthins.optional fun node hnode => readObjectAs_thin ?_ (by simp)
    exact h.field (by rw [hkind]; exact .parameters kind) hnode
  have hinput : readInput document (.thinned choose entries path) kind =
      readInput document (.of entries path) kind := by
    cases kind with
    | query => rfl
    | procedure =>
      refine hthins.optional fun node hnode => readBody_thin ?_ document
      exact h.field (by rw [hkind]; exact .input) hnode
  have houtput : (Fields.thinned choose entries path).optional (readBody document) "output" =
      (Fields.of entries path).optional (readBody document) "output" := by
    refine hthins.optional fun node hnode => readBody_thin ?_ document
    exact h.field (by rw [hkind]; exact .output kind) hnode
  simp only [readMethod, hparameters, hinput, houtput, readErrorList_thin h hkind]

end Methods

private theorem readPayload_thin (h : Settled choose (.type .definition) (.mapping entries))
    (hkind : Node.kindOf? entries = some .record) (path : String) :
    readPayload (.thinned choose entries path) = readPayload (.of entries path) := by
  have hthins := h.thins path
  unfold readPayload
  rw [hthins.get?, hthins.place]
  cases hnode : (Fields.of entries path).get? "record" with
  | none => rfl
  | some node =>
    have hsettled : Settled choose .object node :=
      h.field (by rw [hkind]; exact .payload) hnode
    exact readObjectAs_thin hsettled (by simp) _

private theorem readDefinition_thin {kind : Kind}
    (h : Settled choose (.type .definition) (.mapping entries))
    (hkind : Node.kindOf? entries = some kind) (document path d : String) :
    readDefinition document (.thinned choose entries path) kind d =
      readDefinition document (.of entries path) kind d := by
  have hthins := h.thins path
  cases kind with
  | object =>
    have hproperties (node : Node)
        (hnode : (Fields.of entries path).get? "properties" = some node) :
        Settled choose (.properties false) node :=
      h.field (by rw [hkind]; exact .fields) hnode
    simp only [readDefinition, readObject_thin hthins hproperties]
  | record => simp only [readDefinition, hthins.textOr, readPayload_thin h hkind]
  | query =>
    have hquery : Node.kindOf? entries = some MethodKind.query.kind := hkind
    simp only [readDefinition, readMethod_thin h hquery]
  | procedure =>
    have hprocedure : Node.kindOf? entries = some MethodKind.procedure.kind := hkind
    simp only [readDefinition, readMethod_thin h hprocedure]
  | _ => exact readShallow_thin h hkind path d

private theorem readDefinitions_thin {document : String} {pairs : List (String × Node)}
    (h : ∀ entry ∈ pairs, Settled choose (.type .definition) entry.2) :
    readDefinitions document (pairs.map fun entry => (entry.1, entry.2.thin choose)) =
      readDefinitions document pairs := by
  induction pairs with
  | nil => rfl
  | cons entry rest ih =>
    obtain ⟨name, node⟩ := entry
    rw [List.forall_mem_cons] at h
    have hnode := readTyped_thin h.1 fun entries path kind d hmapping hkind =>
      readDefinition_thin (hmapping ▸ h.1) hkind document path d
    simp only [List.map_cons, readDefinitions, hnode, ih h.2]

private theorem readDefs_thin (h : Settled choose .document (.mapping entries))
    (document path : String) :
    readDefs document (.thinned choose entries path) =
      readDefs document (.of entries path) := by
  have hthins := h.thins path
  unfold readDefs
  rw [hthins.get?]
  cases hnode : (Fields.of entries path).get? "defs" with
  | none => rfl
  | some node =>
    refine readFields_thin rfl fun fields hmapping => ?_
    subst hmapping
    have hsettled : Settled choose .definitions (.mapping fields) := h.field .definitions hnode
    obtain ⟨hpairs, hthinned⟩ := hsettled.pairs rfl "defs"
    simp only [hpairs, hthinned]
    refine Reviewed.pure_bind_congr ?_
    exact readDefinitions_thin fun entry he => hsettled.entry rfl he fun _ => .definition

/-- A choice that spares what is read changes neither the document nor the findings. -/
theorem readDraft_thin {node : Node} (h : Settled choose .document node) :
    readDraft (node.thin choose) = readDraft node := by
  refine readFields_thin rfl fun entries hmapping => ?_
  subst hmapping
  have hthins := h.thins ""
  have hinteger (key : String) :
      (Fields.thinned choose entries "").optional readInteger key =
        (Fields.of entries "").optional readInteger key :=
    hthins.optional fun node _ => readInteger_thin choose node
  simp only [hinteger, hthins.textOr, readDefs_thin h]

end Settled

end LexiconCompiler
