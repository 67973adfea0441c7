import LexiconCompiler.Proofs.Schema.Roles

set_option autoImplicit false
set_option relaxedAutoImplicit false

/-!
Which keys of a mapping are read. That depends on what the mapping is read as and, for a type, on
its kind. Trees that differ in the order of entries and in entries that are not read say the same.
-/

namespace LexiconCompiler

open LexiconCompiler.Markup

/-- What a tree is read as: one of the mappings of a document, the list of the declared failures of
a method, or a plain value. -/
inductive Slot where
  | document
  | definitions
  | type (position : Position)
  | properties (params : Bool)
  | payload
  | parameters
  | body
  | failures
  | failure
  | plain
  deriving DecidableEq, Repr

def plainly (keys : List String) : List (String × Slot) := keys.map fun key => (key, .plain)

def Kind.fields (position : Position) : Kind -> List (String × Slot)
  | .boolean => plainly ["default", "const"]
  | .number | .integer => plainly ["default", "const", "minimum", "maximum", "enum"]
  | .string =>
    plainly ["default", "const", "minLength", "maxLength", "enum", "knownValues"]
  | .datetime | .unknown | .token | .params => []
  | .blob _ => plainly ["accept", "maxSize", "maxWidth", "maxHeight", "maxLength"]
  | .array => ("items", .type position.ofItems) :: plainly ["minLength", "maxLength"]
  | .object => [("required", .plain), ("properties", .properties false)]
  | .record => [("key", .plain), ("record", .payload)]
  | .query => [("parameters", .parameters), ("output", .body), ("errors", .failures)]
  | .procedure =>
    [("parameters", .parameters), ("input", .body), ("output", .body), ("errors", .failures)]
  | .ref => plainly ["ref"]
  | .union => plainly ["refs"]

def objectSlots (params : Bool) : List (String × Slot) :=
  plainly ["type", "description", "required"] ++ [("properties", .properties params)]

namespace Slot

def entry? : Slot -> Option Slot
  | .definitions => some (.type .definition)
  | .properties params => some (.type (memberPosition params))
  | .failures | .plain => some .plain
  | _ => none

/-- The keys that are read of a mapping of a kind where not all of them count. Of a type whose kind
is unknown or does not belong where it stands only the kind is read. -/
def fields : Slot -> Option Kind -> List (String × Slot)
  | .document, _ =>
    plainly ["lexicon", "id", "revision", "description"] ++ [("defs", .definitions)]
  | .type position, some kind =>
    if position.allows kind then plainly ["type", "description"] ++ kind.fields position
    else plainly ["type"]
  | .payload, some .object => objectSlots false
  | .parameters, some .object => objectSlots false
  | .parameters, some .params => objectSlots true
  | .type _, none | .payload, _ | .parameters, _ => plainly ["type"]
  | .body, _ => plainly ["description", "encoding"] ++ [("schema", .type .schema)]
  | .failure, _ => plainly ["name", "description"]
  | _, _ => []

def field? (slot : Slot) (kind : Option Kind) (key : String) : Option Slot :=
  (slot.fields kind).lookup key

/-- What stands under a key. Nothing is read of what stands under a key that is not read. -/
def under (slot : Slot) (kind : Option Kind) (key : String) : Slot :=
  (slot.entry?.or (slot.field? kind key)).getD .plain

def item : Slot -> Slot
  | .failures => .failure
  | _ => .plain

end Slot

namespace Markup.Node

def Distinct (entries : List (Key × Node)) : Prop := (entries.map (·.1.text)).Nodup

instance (entries : List (Key × Node)) : Decidable (Distinct entries) :=
  inferInstanceAs (Decidable (entries.map (·.1.text)).Nodup)

/-- One change of a tree at any depth that nothing depends on: entries of a mapping are put in
another order, or an entry is added or taken away under a key that is not read there. -/
inductive Change : Slot -> Node -> Node -> Prop
  | permute {slot : Slot} {entries others : List (Key × Node)} : Distinct entries →
      entries.Perm others → Change slot (.mapping entries) (.mapping others)
  | add {slot : Slot} {front back : List (Key × Node)} {entry : Key × Node} :
      Distinct (front ++ entry :: back) → slot.entry? = none →
      slot.field? (kindOf? (front ++ back)) entry.1.text = none →
      Change slot (.mapping (front ++ back)) (.mapping (front ++ entry :: back))
  | remove {slot : Slot} {front back : List (Key × Node)} {entry : Key × Node} :
      Distinct (front ++ entry :: back) → slot.entry? = none →
      slot.field? (kindOf? (front ++ entry :: back)) entry.1.text = none →
      Change slot (.mapping (front ++ entry :: back)) (.mapping (front ++ back))
  | entry {slot : Slot} {front back : List (Key × Node)} {key : Key} {node other : Node} :
      Distinct (front ++ (key, node) :: back) →
      Change (slot.under (kindOf? (front ++ (key, node) :: back)) key.text) node other →
      Change slot (.mapping (front ++ (key, node) :: back))
        (.mapping (front ++ (key, other) :: back))
  | item {slot : Slot} {front back : List Node} {node other : Node} :
      Change slot.item node other →
      Change slot (.sequence (front ++ node :: back)) (.sequence (front ++ other :: back))
  | target {slot : Slot} {name : String} {target other : Node} :
      Change slot target other → Change slot (.alias name (some target)) (.alias name (some other))

/-- Trees that say the same when they are read: the keys that are read lead to trees that say the
same, and where all entries count both mappings have the same keys. -/
inductive Same : Slot -> Node -> Node -> Prop
  | refl (slot : Slot) (node : Node) : Same slot node node
  | name {slot : Slot} {name : String} {target other : Option Node} :
      Same slot (.alias name target) (.alias name other)
  | sequence {slot : Slot} {items others : List Node} : items.length = others.length →
      (∀ node other, (node, other) ∈ items.zip others → Same slot.item node.bare other.bare) →
      Same slot (.sequence items) (.sequence others)
  | fields {slot : Slot} {entries others : List (Key × Node)} : slot.entry? = none →
      (∀ key next, slot.field? (kindOf? entries) key = some next →
        (fieldOf entries key).isSome = (fieldOf others key).isSome) →
      (∀ key next node other, slot.field? (kindOf? entries) key = some next →
        fieldOf entries key = some node → fieldOf others key = some other →
        Same next node other) →
      Same slot (.mapping entries) (.mapping others)
  | entries {slot next : Slot} {entries others : List (Key × Node)} : slot.entry? = some next →
      Distinct entries → Distinct others →
      (∀ key, (fieldOf entries key).isSome = (fieldOf others key).isSome) →
      (∀ key node other, fieldOf entries key = some node → fieldOf others key = some other →
        Same next node other) →
      Same slot (.mapping entries) (.mapping others)

section Lookups

variable {entries others front back : List (Key × Node)} {key : String}

theorem keys_distinct (h : Distinct entries) : ((textEntries entries).map Prod.fst).Nodup := by
  rw [keys_textEntries]
  exact h

private theorem Distinct.remove {entry : Key × Node} (h : Distinct (front ++ entry :: back)) :
    Distinct (front ++ back) := by
  have hsublist : (front ++ back).Sublist (front ++ entry :: back) :=
    (List.Sublist.refl front).append (List.sublist_cons_self entry back)
  exact h.sublist (hsublist.map _)

private theorem fieldOf_perm (hd : Distinct entries) (h : entries.Perm others) :
    fieldOf others = fieldOf entries := by
  have hperm : (textEntries entries).Perm (textEntries others) := h.map _
  have hdistinct := keys_distinct hd
  have hothers : ((textEntries others).map Prod.fst).Nodup :=
    (hperm.map Prod.fst).nodup_iff.mp hdistinct
  funext key
  cases hfound : fieldOf entries key with
  | some node => exact Text.lookup_of_mem hothers (hperm.mem_iff.mp (mem_of_fieldOf hfound))
  | none =>
    rw [fieldOf, Text.lookup_eq_none_iff_notMem] at hfound ⊢
    rwa [← (hperm.map Prod.fst).mem_iff]

private theorem textEntries_append (front back : List (Key × Node)) :
    textEntries (front ++ back) = textEntries front ++ textEntries back := List.map_append

private theorem fieldOf_insert {entry : Key × Node} (hkey : key ≠ entry.1.text) :
    fieldOf (front ++ entry :: back) key = fieldOf (front ++ back) key := by
  have hother : (key == entry.1.text) = false := by simpa using hkey
  have hcons : (textEntries (entry :: back)).lookup key = (textEntries back).lookup key := by
    rw [textEntries, List.map_cons, List.lookup_cons, hother]
    rfl
  rw [fieldOf, fieldOf, textEntries_append, textEntries_append, List.lookup_append,
    List.lookup_append, hcons]

private theorem fieldOf_entry {k : Key} {node : Node} (hd : Distinct (front ++ (k, node) :: back)) :
    fieldOf (front ++ (k, node) :: back) k.text = some node.bare := by
  have hmem : (k.text, node.bare) ∈ textEntries (front ++ (k, node) :: back) := by
    rw [textEntries, List.mem_map]
    exact ⟨(k, node), by simp, rfl⟩
  exact Text.lookup_of_mem (keys_distinct hd) hmem

end Lookups

section Changes

variable {slot : Slot} {entries others : List (Key × Node)} {node other : Node}

private theorem same_of_fieldOf (hd : Distinct entries) (hdistinct : Distinct others)
    (h : ∀ key, (slot.entry?.or (slot.field? (kindOf? entries) key)).isSome = true →
      fieldOf others key = fieldOf entries key) :
    Same slot (.mapping entries) (.mapping others) := by
  have hsame {key : String} {next : Slot} {n m : Node}
      (hkey : fieldOf others key = fieldOf entries key) (hn : fieldOf entries key = some n)
      (hm : fieldOf others key = some m) : Same next n m := by
    rw [hkey, hn] at hm
    obtain rfl := Option.some.inj hm
    exact .refl next n
  cases hentry : slot.entry? with
  | some next =>
    have hall (key : String) : fieldOf others key = fieldOf entries key := h key (by simp [hentry])
    exact .entries hentry hd hdistinct (fun key => by rw [hall]) fun key _ _ => hsame (hall key)
  | none =>
    have hread {key : String} {next : Slot}
        (hnext : slot.field? (kindOf? entries) key = some next) :
        fieldOf others key = fieldOf entries key := h key (by simp [hentry, hnext])
    exact .fields hentry (fun key _ hnext => by rw [hread hnext])
      fun key _ _ _ hnext => hsame (hread hnext)

private theorem same_of_entry {front back : List (Key × Node)} {key : Key}
    (hd : Distinct (front ++ (key, node) :: back))
    (hothers : Distinct (front ++ (key, other) :: back))
    (h : Same (slot.under (kindOf? (front ++ (key, node) :: back)) key.text)
      node.bare other.bare) :
    Same slot (.mapping (front ++ (key, node) :: back))
      (.mapping (front ++ (key, other) :: back)) := by
  have hsome (k : String) : (fieldOf (front ++ (key, node) :: back) k).isSome =
      (fieldOf (front ++ (key, other) :: back) k).isSome := by
    by_cases hk : k = key.text
    · rw [hk, fieldOf_entry hd, fieldOf_entry hothers]
      rfl
    · rw [fieldOf_insert hk, fieldOf_insert hk]
  have hsame {k : String} {next : Slot} {n m : Node}
      (hnext : k = key.text → Same next node.bare other.bare)
      (hn : fieldOf (front ++ (key, node) :: back) k = some n)
      (hm : fieldOf (front ++ (key, other) :: back) k = some m) : Same next n m := by
    by_cases hk : k = key.text
    · rw [hk, fieldOf_entry hd] at hn
      rw [hk, fieldOf_entry hothers] at hm
      obtain rfl := Option.some.inj hn
      obtain rfl := Option.some.inj hm
      exact hnext hk
    · rw [fieldOf_insert hk] at hn hm
      obtain rfl := Option.some.inj (hn.symm.trans hm)
      exact .refl next n
  cases hentry : slot.entry? with
  | some next =>
    refine .entries hentry hd hothers hsome fun k n m => hsame fun _ => ?_
    simpa [Slot.under, hentry] using h
  | none =>
    refine .fields hentry (fun k _ _ => hsome k) fun k next n m hnext => hsame fun hk => ?_
    rw [hk] at hnext
    simpa [Slot.under, hentry, hnext] using h

private theorem eq_of_mem_zip_self {α : Type} {items : List α} {a b : α}
    (h : (a, b) ∈ items.zip items) : a = b := by
  obtain ⟨i, hi, he⟩ := List.getElem_of_mem h
  rw [List.getElem_zip] at he
  obtain ⟨rfl, rfl⟩ := Prod.mk.inj he
  rfl

theorem Change.same (h : Change slot node other) :
    Same slot node other ∧ Same slot node.bare other.bare := by
  induction h with
  | @permute slot entries others hd hperm =>
    have hothers : Distinct others := (hperm.map _).nodup_iff.mp hd
    have hsame : Same slot (.mapping entries) (.mapping others) :=
      same_of_fieldOf hd hothers fun key _ => congrFun (fieldOf_perm hd hperm) key
    exact ⟨hsame, hsame⟩
  | @add slot front back entry hd hentry hkey =>
    have hrest := hd.remove
    have hsame : Same slot (.mapping (front ++ back)) (.mapping (front ++ entry :: back)) := by
      refine same_of_fieldOf hrest hd fun key hread => fieldOf_insert ?_
      rintro rfl
      simp [hentry, hkey] at hread
    exact ⟨hsame, hsame⟩
  | @remove slot front back entry hd hentry hkey =>
    have hrest := hd.remove
    have hsame : Same slot (.mapping (front ++ entry :: back)) (.mapping (front ++ back)) := by
      refine same_of_fieldOf hd hrest fun key hread => (fieldOf_insert ?_).symm
      rintro rfl
      simp [hentry, hkey] at hread
    exact ⟨hsame, hsame⟩
  | @entry slot front back key node other hd hchange ih =>
    have hothers : Distinct (front ++ (key, other) :: back) := by
      simpa [Distinct] using hd
    have hsame := same_of_entry hd hothers ih.2
    exact ⟨hsame, hsame⟩
  | @item slot front back node other hchange ih =>
    have hsame : Same slot (.sequence (front ++ node :: back))
        (.sequence (front ++ other :: back)) := by
      refine .sequence (by simp) fun n m hmem => ?_
      rw [List.zip_append rfl, List.zip_cons_cons, List.mem_append, List.mem_cons] at hmem
      rcases hmem with hfront | hitem | hback
      · rw [eq_of_mem_zip_self hfront]
        exact .refl _ _
      · obtain ⟨rfl, rfl⟩ := Prod.mk.inj hitem
        exact ih.2
      · rw [eq_of_mem_zip_self hback]
        exact .refl _ _
    exact ⟨hsame, hsame⟩
  | target hchange ih => exact ⟨.name, ih.1⟩

end Changes

section Looks

variable {slot : Slot} {entries others : List (Key × Node)} {node other : Node}

theorem Same.scalar {tag : Tag} {text : String} (h : Same slot (.scalar tag text) other) :
    other = .scalar tag text := by
  cases h with
  | refl => rfl

theorem Same.mapping (h : Same slot (.mapping entries) other) :
    ∃ others, other = .mapping others := by
  cases h with
  | refl => exact ⟨entries, rfl⟩
  | fields => exact ⟨_, rfl⟩
  | entries => exact ⟨_, rfl⟩

theorem Same.items {items : List Node} (h : Same slot (.sequence items) other) :
    ∃ others, other = .sequence others ∧
      List.Forall₂ (fun node other => Same slot.item node other)
        (items.map Node.bare) (others.map Node.bare) := by
  cases h with
  | refl =>
    refine ⟨items, rfl, ?_⟩
    exact List.forall₂_same.mpr fun node _ => .refl _ node
  | @sequence _ _ others hlength hitems =>
    refine ⟨others, rfl, ?_⟩
    rw [List.forall₂_map_left_iff, List.forall₂_map_right_iff, List.forall₂_iff_zip]
    exact ⟨hlength, fun hmem => hitems _ _ hmem⟩

private theorem rel_of_isSome {R : Node → Node → Prop} {a b : Option Node}
    (hsome : a.isSome = b.isSome) (h : ∀ n m, a = some n → b = some m → R n m) :
    Option.Rel R a b := by
  cases a with
  | none =>
    cases b with
    | none => exact .none
    | some m => cases hsome
  | some n =>
    cases b with
    | none => cases hsome
    | some m => exact .some (h n m rfl rfl)

private theorem rel_refl (slot : Slot) (node : Option Node) : Option.Rel (Same slot) node node := by
  cases node with
  | none => exact .none
  | some node => exact .some (.refl slot node)

theorem Same.look (h : Same slot (.mapping entries) (.mapping others)) (hentry : slot.entry? = none)
    (key : String) {next : Slot} (hnext : slot.field? (kindOf? entries) key = some next) :
    Option.Rel (Same next) (fieldOf entries key) (fieldOf others key) := by
  cases h with
  | refl => exact rel_refl next _
  | fields _ hsome hsame => exact rel_of_isSome (hsome key next hnext) (hsame key next · · hnext)
  | entries hsome =>
    rw [hentry] at hsome
    cases hsome

theorem Same.whole (h : Same slot (.mapping entries) (.mapping others)) {next : Slot}
    (hentry : slot.entry? = some next) (hd : Distinct entries) :
    Distinct others ∧ ∀ key, Option.Rel (Same next) (fieldOf entries key) (fieldOf others key) := by
  cases h with
  | refl => exact ⟨hd, fun key => rel_refl next _⟩
  | fields hnone =>
    rw [hentry] at hnone
    cases hnone
  | entries hsome _ hothers hkeys hsame =>
    obtain rfl := Option.some.inj (hentry.symm.trans hsome)
    exact ⟨hothers, fun key => rel_of_isSome (hkeys key) (hsame key)⟩

private theorem kindOf?_eq_of_rel
    (h : Option.Rel (Same .plain) (fieldOf entries "type") (fieldOf others "type")) :
    kindOf? others = kindOf? entries := by
  unfold kindOf?
  generalize fieldOf entries "type" = a at h ⊢
  generalize fieldOf others "type" = b at h ⊢
  rcases h with hsame | _
  · cases hsame with
    | refl | name | sequence | fields | entries => rfl
  · rfl

private theorem Same.fields_eq (h : Same slot (.mapping entries) (.mapping others))
    (hentry : slot.entry? = none) :
    slot.fields (kindOf? others) = slot.fields (kindOf? entries) := by
  have hkind (htype : ∀ kind, slot.field? kind "type" = some .plain) :
      slot.fields (kindOf? others) = slot.fields (kindOf? entries) := by
    rw [kindOf?_eq_of_rel (h.look hentry _ (htype _))]
  cases slot with
  | type position =>
    refine hkind fun kind => ?_
    cases kind with
    | none => rfl
    | some kind =>
      cases hallows : position.allows kind <;> simp [Slot.field?, Slot.fields, plainly, hallows]
  | payload | parameters =>
    refine hkind fun kind => ?_
    rcases kind with _ | kind
    · rfl
    · cases kind <;> rfl
  | document | body | failure | failures | definitions | properties | plain => rfl

theorem Same.symm (h : Same slot node other) : Same slot other node := by
  induction h with
  | refl slot node => exact .refl slot node
  | name => exact .name
  | sequence hlength _ ih =>
    refine .sequence hlength.symm fun node other hmem => ih other node ?_
    rw [← List.zip_swap]
    exact List.mem_map.mpr ⟨(node, other), hmem, rfl⟩
  | @fields slot entries others hentry hsome hsame ih =>
    have hfields := (Same.fields hentry hsome hsame).fields_eq hentry
    have hfield (key : String) :
        slot.field? (kindOf? others) key = slot.field? (kindOf? entries) key := by
      rw [Slot.field?, Slot.field?, hfields]
    refine .fields hentry (fun key next hnext => ?_)
      fun key next node other hnext hnode hother => ?_
    · rw [hfield] at hnext
      exact (hsome key next hnext).symm
    · rw [hfield] at hnext
      exact ih key next other node hnext hother hnode
  | entries hentry hd hothers hsome hsame ih =>
    exact .entries hentry hothers hd (fun key => (hsome key).symm)
      fun key node other hnode hother => ih key other node hother hnode

end Looks

end Markup.Node

end LexiconCompiler
