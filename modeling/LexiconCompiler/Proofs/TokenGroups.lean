import LexiconCompiler.Proofs.Registry
import LexiconCompiler.Proofs.Text.Distinct
import LexiconCompiler.TokenTable
import Mathlib.Data.List.Induction

set_option autoImplicit false
set_option relaxedAutoImplicit false

/-!
The grouped tokens of a batch in closed form: the tokens of its documents, each once. They can be
written as constants exactly if the constants of the groups differ, and so do the names in each
group. Neither depends on the order of the documents.
-/

namespace LexiconCompiler

open LexiconCompiler.Text

private theorem Token.key_inj {a b : Token} (ha : '\x00' ∉ a.group.toList)
    (hb : '\x00' ∉ b.group.toList) (h : a.key = b.key) : a = b := by
  have hkey (token : Token) :
      token.key.toList = token.group.toList ++ '\x00' :: token.name.toList := by
    simp [Token.key]
  have hcut : cutList '\x00' a.key.toList = cutList '\x00' b.key.toList := by rw [h]
  rw [hkey, hkey, cutList_append ha, cutList_append hb, Option.some.injEq, Prod.mk.injEq,
    String.toList_inj, String.toList_inj] at hcut
  rcases a with ⟨group, name⟩
  obtain ⟨rfl, rfl⟩ := hcut
  rfl

namespace TokenGroups

/-- No group holds the mark between group and name. -/
def Separated (tokens : List Token) : Prop := ∀ token ∈ tokens, '\x00' ∉ token.group.toList

theorem contains_distinct {front : List Token} {token : Token} (h : Separated front)
    (htoken : '\x00' ∉ token.group.toList) :
    (TokenGroups.mk (distinct front)).contains token = true ↔ token ∈ front := by
  rw [contains, List.any_eq_true]
  constructor
  · rintro ⟨other, ho, hkey⟩
    rw [mem_distinct] at ho
    exact Token.key_inj (h other ho) htoken (eq_of_beq hkey) ▸ ho
  · intro hm
    exact ⟨token, mem_distinct.mpr hm, beq_self_eq_true _⟩

theorem foldl_add_eq {tokens : List Token} (h : Separated tokens) :
    tokens.foldl add empty = ⟨distinct tokens⟩ := by
  induction tokens using List.reverseRecOn with
  | nil => rfl
  | append_singleton front token ih =>
    have hfront : Separated front := fun other ho => h other (List.mem_append_left _ ho)
    have htoken : '\x00' ∉ token.group.toList := h token (by simp)
    have hcontains := contains_distinct hfront htoken
    rw [List.foldl_append, ih hfront, List.foldl_cons, List.foldl_nil, add]
    by_cases hm : token ∈ front
    · rw [if_pos (hcontains.mpr hm), distinct_append_of_mem hm]
    · rw [if_neg fun hc => hm (hcontains.mp hc), distinct_append_of_notMem hm]

/-- What decides whether two names of a group are one. -/
def nameKey (name : String) : String := lower (Casing.title name)

def Writable (g : TokenGroups) : Prop :=
  (g.groups.map Casing.screaming).Nodup ∧
    ∀ group ∈ g.groups, ((g.names group).map nameKey).Nodup

private theorem nameClash?_eq_none {group : String} {taken : List (String × String)}
    {names : List String} :
    nameClash? group taken names = none ↔ Fresh (taken.map Prod.fst) (names.map nameKey) := by
  induction names generalizing taken with
  | nil => simp [nameClash?]
  | cons name rest ih =>
    rw [List.map_cons, fresh_cons, ← lookup_eq_none_iff_notMem, nameClash?]
    cases hl : taken.lookup (nameKey name) with
    | some other =>
      have hkey : taken.lookup (lower (Casing.title name)) = some other := hl
      simp [hkey]
    | none =>
      have hkey : taken.lookup (lower (Casing.title name)) = none := hl
      rw [hkey, and_iff_right rfl]
      exact ih

theorem clashAmong?_eq_none {constant : String → String} {names : String → List String}
    {taken : List (String × String)} {groups : List String} :
    TokenTable.clashAmong? constant names taken groups = none ↔
      Fresh (taken.map Prod.fst) (groups.map constant) ∧
        ∀ group ∈ groups, ((names group).map nameKey).Nodup := by
  have hnames (group : String) : nameClash? group [] (names group) = none ↔
      ((names group).map nameKey).Nodup := by simp [nameClash?_eq_none, Fresh]
  induction groups generalizing taken with
  | nil => simp [TokenTable.clashAmong?]
  | cons group rest ih =>
    rw [List.map_cons, fresh_cons, ← lookup_eq_none_iff_notMem, TokenTable.clashAmong?,
      List.forall_mem_cons]
    cases hl : taken.lookup (constant group) with
    | some other => simp
    | none =>
      simp only [Option.or_eq_none_iff, hnames, ih, List.map_cons, true_and]
      exact and_left_comm

theorem clash?_eq_clashAmong? (g : TokenGroups) (taken : List (String × String))
    (groups : List String) :
    g.clash? taken groups = TokenTable.clashAmong? Casing.screaming g.names taken groups := by
  induction groups generalizing taken with
  | nil => rfl
  | cons group rest ih =>
    cases hl : taken.lookup (Casing.screaming group) with
    | some other => simp [clash?, TokenTable.clashAmong?, hl]
    | none => simp [clash?, TokenTable.clashAmong?, hl, ih]

private theorem problem?_eq_none {g : TokenGroups} : g.problem? = none ↔ g.Writable := by
  rw [problem?, clash?_eq_clashAmong?, clashAmong?_eq_none, Writable]
  simp [Fresh]

def pairs (g : TokenGroups) : List Token :=
  g.groups.flatMap fun group => (g.names group).map (Token.mk group)

/-- Grouping loses no token and gives none twice. -/
theorem pairs_perm (g : TokenGroups) : g.pairs.Perm g.tokens := by
  have hnames : g.pairs =
      g.groups.flatMap fun group => g.tokens.filter fun token => token.group == group := by
    refine List.flatMap_congr fun group _ => ?_
    rw [names, List.map_map]
    refine (List.map_congr_left fun token ht => ?_).trans (List.map_id _)
    rw [Function.comp_apply, ← eq_of_beq (List.mem_filter.mp ht).2]
    rfl
  rw [hnames]
  refine flatMap_filter_perm Token.group (nodup_distinct _) fun token ht => ?_
  exact mem_distinct.mpr (List.mem_map_of_mem ht)

section Order

variable {g g' : TokenGroups}

theorem groups_perm (h : g.tokens.Perm g'.tokens) : g.groups.Perm g'.groups :=
  distinct_perm fun _ => (h.map Token.group).mem_iff

private theorem names_perm (h : g.tokens.Perm g'.tokens) (group : String) :
    (g.names group).Perm (g'.names group) :=
  (h.filter _).map _

theorem Writable.of_perm (h : g.tokens.Perm g'.tokens) (hw : g.Writable) : g'.Writable := by
  have hgroups := groups_perm h
  refine ⟨(hgroups.map Casing.screaming).nodup_iff.mp hw.1, fun group hg => ?_⟩
  exact ((names_perm h group).map nameKey).nodup_iff.mp (hw.2 group (hgroups.mem_iff.mpr hg))

end Order

section Documents

variable {documents : List Document}

def ofDocuments (documents : List Document) : TokenGroups :=
  ⟨distinct (documents.flatMap ofDocument)⟩

private theorem separated_of_identified (hid : Identified documents) :
    Separated (documents.flatMap ofDocument) := by
  intro token ht hnul
  obtain ⟨document, hd, ht⟩ := List.mem_flatMap.mp ht
  obtain ⟨definition, _, rfl⟩ := List.mem_map.mp ht
  have htext := Nsid.text_of_parse (hid document hd)
  rw [Nsid.text_eq (Nsid.authoritySegments_ne_nil (hid document hd))] at htext
  have hchar := Nsid.chars_of_isValid (hid.isValid hd) '\x00' (by simp [← htext, hnul])
  exact absurd hchar (by decide)

theorem build_eq_ok_iff (hid : Identified documents) {g : TokenGroups} :
    build documents = .ok g ↔ (ofDocuments documents).Writable ∧ g = ofDocuments documents := by
  rw [build, foldl_add_eq (separated_of_identified hid), ← ofDocuments, ← problem?_eq_none]
  cases (ofDocuments documents).problem? with
  | some problem => simp
  | none => simp [eq_comm]

theorem exists_of_mem_groups {group : String} (h : group ∈ (ofDocuments documents).groups) :
    ∃ document ∈ documents, document.nsid.authority = group := by
  rw [groups, mem_distinct, List.mem_map] at h
  obtain ⟨token, ht, rfl⟩ := h
  rw [ofDocuments, mem_distinct] at ht
  obtain ⟨document, hd, ht⟩ := List.mem_flatMap.mp ht
  obtain ⟨definition, _, rfl⟩ := List.mem_map.mp ht
  exact ⟨document, hd, rfl⟩

theorem ofDocuments_perm {permuted : List Document} (h : documents.Perm permuted) :
    (ofDocuments documents).tokens.Perm (ofDocuments permuted).tokens :=
  distinct_perm fun _ => (h.flatMap_right _).mem_iff

end Documents

end TokenGroups

end LexiconCompiler
