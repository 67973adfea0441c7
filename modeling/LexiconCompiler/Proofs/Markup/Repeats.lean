import LexiconCompiler.Proofs.Markup.JsonImage
import LexiconCompiler.Proofs.Text.Distinct
import LexiconCompiler.Schema.Reviewed
import Mathlib.Data.List.Pairwise

set_option autoImplicit false
set_option relaxedAutoImplicit false

/-!
Mappings that repeat a key. A reader of the first entries sees one tree, a reader of the last ones
perhaps another, and the JSON form of a tree is seen as the tree is.
-/

namespace LexiconCompiler

open LexiconCompiler.Markup LexiconCompiler.Text

section Entries

variable {α β : Type}

def firsts (name : α → String) : List α → List α
  | [] => []
  | entry :: rest => entry :: (firsts name rest).filter fun other => name other != name entry

/-- The last entry of each name. -/
def lasts (name : α → String) : List α → List α :=
  List.pwFilter fun entry other => name entry ≠ name other

theorem firsts_eq_self {name : α → String} {entries : List α} (h : (entries.map name).Nodup) :
    firsts name entries = entries := by
  induction entries with
  | nil => rfl
  | cons entry rest ih =>
    rw [List.map_cons, List.nodup_cons] at h
    have hrest : rest.filter (fun other => name other != name entry) = rest := by
      rw [List.filter_eq_self]
      intro other ho
      have hne : name other ≠ name entry := fun he => h.1 (List.mem_map.mpr ⟨other, ho, he⟩)
      simpa using hne
    rw [firsts, ih h.2, hrest]

theorem lasts_eq_self {name : α → String} {entries : List α} (h : (entries.map name).Nodup) :
    lasts name entries = entries :=
  List.pwFilter_eq_self.mpr (List.pairwise_map.mp h)

theorem lookup_firsts (entries : List (String × α)) (key : String) :
    (firsts Prod.fst entries).lookup key = entries.lookup key := by
  induction entries with
  | nil => rfl
  | cons entry rest ih =>
    obtain ⟨name, value⟩ := entry
    rw [firsts, List.lookup_cons, List.lookup_cons]
    by_cases hname : key = name
    · rw [beq_iff_eq.mpr hname]
    · have hne : (key == name) = false := by simpa using hname
      rw [hne, lookup_filter_ne, if_neg hname, ih]

theorem lookup_map_value {κ : Type} [BEq κ] (f : α → β) (entries : List (κ × α)) (key : κ) :
    (entries.map fun entry => (entry.1, f entry.2)).lookup key = (entries.lookup key).map f := by
  induction entries with
  | nil => rfl
  | cons entry rest ih =>
    rw [List.map_cons, List.lookup_cons, List.lookup_cons, ih]
    cases key == entry.1 <;> rfl

theorem firsts_map {name : β → String} (f : α → β) (entries : List α) :
    firsts name (entries.map f) = (firsts (name ∘ f) entries).map f := by
  induction entries with
  | nil => rfl
  | cons entry rest ih =>
    rw [List.map_cons, firsts, firsts, List.map_cons, ih, List.filter_map]
    rfl

theorem lookup_lasts (entries : List (String × α)) (key : String) :
    (lasts Prod.fst entries).lookup key = entries.reverse.lookup key := by
  induction entries with
  | nil => rfl
  | cons entry rest ih =>
    obtain ⟨name, value⟩ := entry
    rw [List.reverse_cons, List.lookup_append, ← ih]
    by_cases hkept : ∀ other ∈ lasts Prod.fst rest, name ≠ other.1
    · have hcons : lasts Prod.fst ((name, value) :: rest) = (name, value) :: lasts Prod.fst rest :=
        List.pwFilter_cons_of_pos hkept
      rw [hcons, List.lookup_cons, List.lookup_cons]
      by_cases hname : key = name
      · subst hname
        have hnone : (lasts Prod.fst rest).lookup key = none := by
          rw [List.lookup_eq_none_iff]
          intro other ho
          simpa using hkept other ho
        simp [hnone]
      · have hne : (key == name) = false := by simpa using hname
        simp [hne]
    · have hcons : lasts Prod.fst ((name, value) :: rest) = lasts Prod.fst rest :=
        List.pwFilter_cons_of_neg hkept
      rw [hcons]
      cases hlook : (lasts Prod.fst rest).lookup key with
      | some found => rfl
      | none =>
        have hne : (key == name) = false := by
          rw [List.lookup_eq_none_iff] at hlook
          simp only [not_forall, not_not] at hkept
          obtain ⟨other, ho, rfl⟩ := hkept
          simpa using hlook other ho
        simp [List.lookup_cons, hne]

private theorem forall₂_lasts {R : α → β → Prop} {name : α → String} {other : β → String}
    {xs : List α} {ys : List β} (h : List.Forall₂ (fun x y => name x = other y ∧ R x y) xs ys) :
    List.Forall₂ (fun x y => name x = other y ∧ R x y) (lasts name xs) (lasts other ys) := by
  induction h with
  | nil => exact .nil
  | @cons x y xs ys hxy _ ih =>
    have hnames : (lasts name xs).map name = (lasts other ys).map other := by
      rw [← List.forall₂_eq_eq_eq, List.forall₂_map_left_iff, List.forall₂_map_right_iff]
      exact ih.imp fun _ _ hr => hr.1
    have hkept : (∀ b ∈ lasts name xs, name x ≠ name b) ↔
        ∀ b ∈ lasts other ys, other y ≠ other b := by
      rw [hxy.1, ← List.forall_mem_map (P := fun n => other y ≠ n), hnames, List.forall_mem_map]
    by_cases hx : ∀ b ∈ lasts name xs, name x ≠ name b
    · rw [lasts, lasts, List.pwFilter_cons_of_pos hx, List.pwFilter_cons_of_pos (hkept.mp hx)]
      exact .cons hxy ih
    · rw [lasts, lasts, List.pwFilter_cons_of_neg hx,
        List.pwFilter_cons_of_neg fun hy => hx (hkept.mpr hy)]
      exact ih

end Entries

namespace Markup

/-- How the entries of a mapping are chosen. -/
abbrev Choice := List (Key × Node) → List (Key × Node)

def firstChoice : Choice := firsts fun entry => entry.1.text

def lastChoice : Choice := lasts fun entry => entry.1.text

mutual

/-- A tree with the chosen entries of its mappings. -/
def Node.thin (choose : Choice) : Node → Node
  | .scalar tag text => .scalar tag text
  | .sequence items => .sequence (thinItems choose items)
  | .mapping entries => .mapping (choose (thinEntries choose entries))
  | .alias name (some target) => .alias name (some (target.thin choose))
  | .alias name none => .alias name none

def thinItems (choose : Choice) : List Node → List Node
  | [] => []
  | node :: rest => node.thin choose :: thinItems choose rest

def thinEntries (choose : Choice) : List (Key × Node) → List (Key × Node)
  | [] => []
  | (key, node) :: rest => (key, node.thin choose) :: thinEntries choose rest

end

section Thin

variable (choose : Choice)

theorem thinItems_eq_map (items : List Node) :
    thinItems choose items = items.map (Node.thin choose) := by
  induction items with
  | nil => rfl
  | cons node rest ih => rw [thinItems, ih, List.map_cons]

private theorem thinEntries_eq_map (entries : List (Key × Node)) :
    thinEntries choose entries = entries.map fun entry => (entry.1, entry.2.thin choose) := by
  induction entries with
  | nil => rfl
  | cons entry rest ih =>
    obtain ⟨key, node⟩ := entry
    rw [thinEntries, ih, List.map_cons]

theorem bare_thin (node : Node) : (node.thin choose).bare = node.bare.thin choose := by
  rcases node with _ | _ | _ | ⟨name, _ | target⟩ <;> simp [Node.thin, Node.bare]

theorem describe_thin (node : Option Node) :
    describe (node.map (Node.thin choose)) = describe node := by
  rcases node with _ | (_ | _ | _ | ⟨name, _ | target⟩) <;> simp [Node.thin, describe]

theorem textEntries_thinEntries (entries : List (Key × Node)) :
    Node.textEntries (thinEntries choose entries) =
      (Node.textEntries entries).map fun entry => (entry.1, entry.2.thin choose) := by
  rw [thinEntries_eq_map]
  simp only [Node.textEntries, List.map_map]
  refine List.map_congr_left fun entry _ => ?_
  rw [Function.comp_apply, Function.comp_apply, bare_thin]

theorem keys_thinEntries (entries : List (Key × Node)) :
    (thinEntries choose entries).map (·.1.text) = entries.map (·.1.text) := by
  rw [thinEntries_eq_map, List.map_map]
  rfl

end Thin

end Markup

namespace Text

mutual

/-- What a reader sees for whom the last entry of a key counts, at any depth. -/
def JsonValue.lastEntries : JsonValue → JsonValue
  | .array items => .array (lastItems items)
  | .object members => .object (lasts Prod.fst (lastMembers members))
  | value => value

def lastItems : List JsonValue → List JsonValue
  | [] => []
  | value :: rest => value.lastEntries :: lastItems rest

def lastMembers : List (String × JsonValue) → List (String × JsonValue)
  | [] => []
  | (key, value) :: rest => (key, value.lastEntries) :: lastMembers rest

end

end Text

namespace Markup

private theorem Scalar.Image.lastEntries {scalar : Scalar} {value : JsonValue}
    (h : scalar.Image value) :
    value.lastEntries = value := by
  cases h <;> rw [JsonValue.lastEntries] <;> simp

section Trees

mutual

theorem Node.Image.lastEntries : {node : Node} → {value : JsonValue} → node.Image value →
    (node.thin lastChoice).Image value.lastEntries
  | .scalar tag text, value, h => by
    cases h with
    | scalar hvalue himage =>
      rw [Node.thin, himage.lastEntries]
      exact .scalar hvalue himage
  | .sequence items, value, h => by
    cases h with
    | sequence hitems =>
      rw [Node.thin, JsonValue.lastEntries]
      exact .sequence (forall₂_lastItems hitems)
  | .mapping entries, value, h => by
    cases h with
    | mapping hkeys hvalues =>
      rw [Node.thin, JsonValue.lastEntries]
      have hlasts := forall₂_lasts (forall₂_lastMembers hkeys hvalues)
      refine .mapping ?_ ?_
      · rw [← List.forall₂_eq_eq_eq, List.forall₂_map_left_iff, List.forall₂_map_right_iff]
        exact hlasts.imp fun _ _ hr => hr.1
      · rw [List.forall₂_map_left_iff, List.forall₂_map_right_iff]
        exact hlasts.imp fun _ _ hr => hr.2
  | .alias name (some target), value, h => by
    cases h with
    | target htarget =>
      rw [Node.thin]
      exact .target htarget.lastEntries
  | .alias _ none, _, h => by
    cases h

private theorem forall₂_lastItems : {items : List Node} → {values : List JsonValue} →
    List.Forall₂ Node.Image items values →
    List.Forall₂ Node.Image (thinItems lastChoice items) (lastItems values)
  | [], values, h => by
    cases h
    rw [thinItems, lastItems]
    exact .nil
  | node :: rest, values, h => by
    obtain ⟨value, others, hnode, hrest, rfl⟩ := List.forall₂_cons_left_iff.mp h
    rw [thinItems, lastItems]
    exact .cons hnode.lastEntries (forall₂_lastItems hrest)

private theorem forall₂_lastMembers : {entries : List (Key × Node)} →
    {members : List (String × JsonValue)} → entries.map (·.1.text) = members.map (·.1) →
    List.Forall₂ Node.Image (entries.map (·.2)) (members.map (·.2)) →
    List.Forall₂ (fun entry member => entry.1.text = member.1 ∧ entry.2.Image member.2)
      (thinEntries lastChoice entries) (lastMembers members)
  | [], members, hkeys, _ => by
    obtain rfl := List.map_eq_nil_iff.mp hkeys.symm
    rw [thinEntries, lastMembers]
    exact .nil
  | (key, node) :: rest, members, hkeys, hvalues => by
    obtain ⟨member, others, rfl, hkey, hothers⟩ := List.map_eq_cons_iff.mp hkeys.symm
    obtain ⟨name, value⟩ := member
    rw [List.map_cons, List.map_cons, List.forall₂_cons] at hvalues
    rw [thinEntries, lastMembers]
    exact .cons ⟨hkey.symm, hvalues.1.lastEntries⟩
      (forall₂_lastMembers hothers.symm hvalues.2)

end

end Trees

end Markup

end LexiconCompiler
