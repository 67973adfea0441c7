import LexiconCompiler.Proofs.TokenGroups
import Mathlib.Algebra.GroupWithZero.Nat

set_option autoImplicit false
set_option relaxedAutoImplicit false

/-!
A table of tokens is a set of pairs in order of insertion. Its three parts stay those of one list of
tokens, whatever is added, so that all it is asked for comes from the tokens that were added, each
counted where it came first.
-/

namespace LexiconCompiler

open LexiconCompiler.Text

namespace TokenGroups

private theorem mem_groups {g : TokenGroups} {group : String} :
    group ∈ g.groups ↔ ∃ token ∈ g.tokens, token.group = group := by
  rw [groups, mem_distinct, List.mem_map]

private theorem names_of_notMem {g : TokenGroups} {group : String} (h : group ∉ g.groups) :
    g.names group = [] := by
  rw [names, List.map_eq_nil_iff, List.filter_eq_nil_iff]
  intro token ht he
  exact h (mem_groups.mpr ⟨token, ht, eq_of_beq he⟩)

private theorem groups_append (tokens : List Token) (token : Token) :
    groups ⟨tokens ++ [token]⟩ =
      if token.group ∈ groups ⟨tokens⟩ then groups ⟨tokens⟩
      else groups ⟨tokens⟩ ++ [token.group] := by
  simp only [groups, mem_distinct, List.map_append, List.map_singleton]
  split
  · rename_i hm
    exact distinct_append_of_mem hm
  · rename_i hm
    exact distinct_append_of_notMem hm

private theorem mem_groups_append {tokens : List Token} {token : Token} {group : String} :
    group ∈ groups ⟨tokens ++ [token]⟩ ↔ group ∈ groups ⟨tokens⟩ ∨ group = token.group := by
  simp [groups]

private theorem names_append (tokens : List Token) (token : Token) (group : String) :
    names ⟨tokens ++ [token]⟩ group =
      names ⟨tokens⟩ group ++ if token.group = group then [token.name] else [] := by
  by_cases h : token.group = group <;> simp [names, h]

end TokenGroups

namespace TokenTable

/-- The parts of a table are those of one list of tokens. -/
structure Mirrors (t : TokenTable) (g : TokenGroups) : Prop where
  keys : t.keys = g.tokens.map Token.key
  groups : t.groups = g.groups
  lookup : ∀ group, t.namesOf.lookup group =
    if group ∈ g.groups then some (g.names group) else none

section Step

variable {t : TokenTable} {g : TokenGroups}

private theorem mirrors_empty : Mirrors empty TokenGroups.empty := ⟨rfl, rfl, fun _ => rfl⟩

private theorem Mirrors.names (h : Mirrors t g) (group : String) :
    t.names group = g.names group := by
  rw [TokenTable.names, h.lookup]
  split
  · rfl
  · rename_i hm
    exact (TokenGroups.names_of_notMem hm).symm

private theorem Mirrors.count (h : Mirrors t g) : t.count = g.count := by
  rw [TokenTable.count, h.keys, List.length_map, TokenGroups.count]

private theorem Mirrors.problem? (h : Mirrors t g) : t.problem? Casing.snakeList = g.problem? := by
  rw [TokenTable.problem?, TokenGroups.problem?, TokenGroups.clash?_eq_clashAmong?, h.groups,
    funext h.names]
  rfl

private theorem Mirrors.contains (h : Mirrors t g) (token : Token) :
    t.keys.contains token.key = g.contains token := by
  rw [h.keys, Bool.eq_iff_iff, List.contains_iff_mem, TokenGroups.contains, List.any_eq_true,
    List.mem_map]
  simp only [beq_iff_eq]

private theorem lookup_insertName (group name other : String)
    (entries : List (String × List String)) :
    (insertName group name entries).lookup other =
      if other = group then some ((entries.lookup group).getD [] ++ [name])
      else entries.lookup other := by
  induction entries with
  | nil => by_cases ho : other = group <;> simp [insertName, ho]
  | cons entry rest ih =>
    obtain ⟨first, names⟩ := entry
    by_cases hfirst : first = group
    · subst hfirst
      by_cases ho : other = first
      · simp [insertName, ho]
      · have hother : (other == first) = false := by simpa using ho
        simp [insertName, List.lookup_cons, hother, ho]
    · have hgroup : (group == first) = false := by simpa using Ne.symm hfirst
      rw [insertName, if_neg (by simpa using hfirst), List.lookup_cons, List.lookup_cons,
        List.lookup_cons, ih, hgroup]
      by_cases ho : other = first
      · simp [ho, hfirst]
      · have hother : (other == first) = false := by simpa using ho
        simp [hother]

/-- One addition keeps the parts together, and tells whether the token is new. -/
private theorem Mirrors.add (h : Mirrors t g) (token : Token) :
    Mirrors (t.add token).1 (g.add token) ∧ (t.add token).2 = !g.contains token := by
  rw [TokenTable.add, TokenGroups.add, h.contains]
  cases hc : g.contains token with
  | true => exact ⟨h, rfl⟩
  | false =>
    refine ⟨⟨?_, ?_, fun group => ?_⟩, rfl⟩
    · simp [h.keys]
    · have hknown : (t.namesOf.lookup token.group).isSome = true ↔ token.group ∈ g.groups := by
        rw [h.lookup]
        split <;> simp_all
      simp only [Bool.false_eq_true, if_false, TokenGroups.groups_append, hknown, h.groups]
    · have hnames : (t.namesOf.lookup token.group).getD [] = g.names token.group := h.names _
      simp only [Bool.false_eq_true, if_false, lookup_insertName, hnames,
        TokenGroups.mem_groups_append, TokenGroups.names_append]
      by_cases hg : group = token.group
      · simp [hg]
      · have hg' : ¬ token.group = group := Ne.symm hg
        simp only [hg, hg', if_false, or_false, List.append_nil]
        exact h.lookup group

end Step

section Run

variable {t : TokenTable} {g : TokenGroups}

/-- Any additions keep the parts together. -/
private theorem Mirrors.addAll (h : Mirrors t g) (tokens : List Token) :
    Mirrors (t.addAll tokens).1 (tokens.foldl TokenGroups.add g) := by
  induction tokens generalizing t g with
  | nil => exact h
  | cons token rest ih => exact ih (h.add token).1

private theorem length_addAll (t : TokenTable) (tokens : List Token) :
    (t.addAll tokens).2.length = tokens.length := by
  induction tokens generalizing t with
  | nil => rfl
  | cons token rest ih => exact congrArg Nat.succ (ih _)

private theorem getElem?_addAll (t : TokenTable) (front back : List Token) (token : Token) :
    (t.addAll (front ++ token :: back)).2[front.length]? =
      some ((t.addAll front).1.add token).2 := by
  induction front generalizing t with
  | nil => rfl
  | cons first rest ih => exact ih (t.add first).1

end Run

/-- Tokens that cannot be told apart as constants: their groups have one constant, or their names
one key in a group of both. -/
def Ambiguous (constant : String → String) (tokens : List Token) : Prop :=
  ∃ a ∈ tokens, ∃ b ∈ tokens,
    (a.group ≠ b.group ∧ constant a.group = constant b.group) ∨
      (a.group = b.group ∧ a.name ≠ b.name ∧
        TokenGroups.nameKey a.name = TokenGroups.nameKey b.name)

section Closed

variable {tokens : List Token}

private theorem groups_distinct (tokens : List Token) :
    TokenGroups.groups ⟨distinct tokens⟩ = distinct (tokens.map Token.group) :=
  distinct_map_distinct Token.group tokens

private theorem names_distinct (tokens : List Token) (group : String) :
    TokenGroups.names ⟨distinct tokens⟩ group =
      distinct ((tokens.filter fun token => token.group == group).map Token.name) := by
  rw [TokenGroups.names, filter_distinct]
  refine distinct_map fun a ha b hb hname => ?_
  have hgroup : a.group = b.group :=
    (eq_of_beq (List.mem_filter.mp ha).2).trans (eq_of_beq (List.mem_filter.mp hb).2).symm
  rcases a with ⟨group, name⟩
  rcases b with ⟨other, label⟩
  obtain rfl : group = other := hgroup
  obtain rfl : name = label := hname
  rfl

private theorem sum_names (g : TokenGroups) :
    (g.groups.map fun group => (g.names group).length).sum = g.count := by
  have hlength := g.pairs_perm.length_eq
  simpa [TokenGroups.pairs, List.length_flatMap, TokenGroups.count] using hlength

private theorem clashAmong?_eq_none_iff (constant : String → String) (tokens : List Token) :
    clashAmong? constant (TokenGroups.names ⟨distinct tokens⟩) []
      (TokenGroups.groups ⟨distinct tokens⟩) = none ↔ ¬ Ambiguous constant tokens := by
  have hgroups : ((TokenGroups.groups ⟨distinct tokens⟩).map constant).Nodup ↔
      ∀ a ∈ tokens, ∀ b ∈ tokens, constant a.group = constant b.group → a.group = b.group := by
    rw [groups_distinct, List.nodup_map_iff_inj_on (nodup_distinct _)]
    simp only [mem_distinct, List.forall_mem_map]
  have hnames (group : String) :
      ((TokenGroups.names ⟨distinct tokens⟩ group).map TokenGroups.nameKey).Nodup ↔
      ∀ a ∈ tokens, a.group = group → ∀ b ∈ tokens, b.group = group →
        TokenGroups.nameKey a.name = TokenGroups.nameKey b.name → a.name = b.name := by
    rw [names_distinct, List.nodup_map_iff_inj_on (nodup_distinct _)]
    simp only [mem_distinct, List.forall_mem_map, List.mem_filter, beq_iff_eq, and_imp]
  rw [TokenGroups.clashAmong?_eq_none]
  simp only [Fresh, List.map_nil, List.not_mem_nil, not_false_eq_true, implies_true, and_true,
    hgroups, hnames]
  constructor
  · rintro ⟨hconstants, hkeys⟩ ⟨a, ha, b, hb, ⟨hne, heq⟩ | ⟨hgroup, hne, heq⟩⟩
    · exact hne (hconstants a ha b hb heq)
    · have hmem : b.group ∈ TokenGroups.groups ⟨distinct tokens⟩ :=
        TokenGroups.mem_groups.mpr ⟨b, mem_distinct.mpr hb, rfl⟩
      exact hne (hkeys b.group hmem a ha hgroup b hb rfl heq)
  · intro h
    refine ⟨fun a ha b hb heq => ?_, fun group _ a ha hgroup b hb hother heq => ?_⟩
    · by_contra hne
      exact h ⟨a, ha, b, hb, Or.inl ⟨hne, heq⟩⟩
    · by_contra hne
      exact h ⟨a, ha, b, hb, Or.inr ⟨hgroup.trans hother.symm, hne, heq⟩⟩

end Closed

/-- What a table and the answers it gave say of the tokens that were added: each was new exactly
where it came first, and groups and names are listed in order of first occurrence and counted once.
-/
structure Records (t : TokenTable) (answers : List Bool) (tokens : List Token) : Prop where
  answered : answers.length = tokens.length
  firstOnly : ∀ front token back, tokens = front ++ token :: back →
    answers[front.length]? = some (decide (token ∉ front))
  groups : t.groups = distinct (tokens.map Token.group)
  names : ∀ group, t.names group =
    distinct ((tokens.filter fun token => token.group == group).map Token.name)
  noNames : ∀ group, group ∉ t.groups → t.names group = []
  count : t.count = (distinct tokens).length
  sum : t.count = (t.groups.map fun group => (t.names group).length).sum

/-- After any additions of tokens whose groups do not hold the mark between group and name, a table
is the set of the added tokens in order of insertion. However parts are cut into words, it has a
problem exactly if two of its groups have one constant, or two names of a group are the same once
they are capitalised and written small. It is the problem that grouping tokens of a batch has. -/
theorem addAll_records {tokens : List Token} (h : TokenGroups.Separated tokens) :
    Records (empty.addAll tokens).1 (empty.addAll tokens).2 tokens ∧
      (∀ snake, ((empty.addAll tokens).1.problem? snake).isSome = true ↔
        Ambiguous (Casing.screamingWith snake) tokens) ∧
      (empty.addAll tokens).1.problem? Casing.snakeList =
        (tokens.foldl TokenGroups.add TokenGroups.empty).problem? := by
  have hmirrors {added : List Token} (hadded : TokenGroups.Separated added) :
      Mirrors (empty.addAll added).1 ⟨distinct added⟩ := by
    rw [← TokenGroups.foldl_add_eq hadded]
    exact mirrors_empty.addAll added
  have hlast := hmirrors h
  have hnames : (empty.addAll tokens).1.names = TokenGroups.names ⟨distinct tokens⟩ :=
    funext hlast.names
  refine ⟨⟨length_addAll empty tokens, ?_, ?_, fun group => ?_, fun group hg => ?_, ?_, ?_⟩,
    fun snake => ?_, (mirrors_empty.addAll tokens).problem?⟩
  · rintro front token back rfl
    have hfront : TokenGroups.Separated front := fun other ho => h other (List.mem_append_left _ ho)
    have hcontains := TokenGroups.contains_distinct hfront (h token (by simp))
    have hknown : TokenGroups.contains ⟨distinct front⟩ token = decide (token ∈ front) :=
      Bool.eq_iff_iff.mpr (hcontains.trans decide_eq_true_iff.symm)
    rw [getElem?_addAll, ((hmirrors hfront).add token).2, hknown, decide_not]
  · rw [hlast.groups, groups_distinct]
  · rw [hnames, names_distinct]
  · rw [hlast.groups] at hg
    rw [hnames, TokenGroups.names_of_notMem hg]
  · exact hlast.count
  · rw [hlast.count, hlast.groups, hnames, sum_names]
  · rw [problem?, hlast.groups, hnames, Option.isSome_iff_ne_none, Ne, clashAmong?_eq_none_iff,
      not_not]

def reasons : List Token :=
  [⟨"com.example", "spam"⟩, ⟨"org.example", "rude"⟩, ⟨"com.example", "spam"⟩,
    ⟨"com.example", "Spam"⟩]

theorem addAll_records_reasons :
    TokenGroups.Separated reasons ∧
      (empty.addAll reasons).2 = [true, true, false, true] ∧
      (empty.addAll reasons).1.groups = ["com.example", "org.example"] ∧
      ((empty.addAll reasons).1.problem? Casing.snakeList).isSome = true ∧
      Records (empty.addAll reasons).1 (empty.addAll reasons).2 reasons := by
  have h : TokenGroups.Separated reasons := by
    unfold TokenGroups.Separated
    decide
  have hambiguous : Ambiguous (Casing.screamingWith Casing.snakeList) reasons :=
    ⟨⟨"com.example", "spam"⟩, by decide, ⟨"com.example", "Spam"⟩, by decide,
      Or.inr ⟨rfl, by decide, by decide +kernel⟩⟩
  obtain ⟨hrecords, hproblem, _⟩ := addAll_records h
  exact ⟨h, by decide +kernel, by decide +kernel, (hproblem _).mpr hambiguous, hrecords⟩

end TokenTable

end LexiconCompiler
