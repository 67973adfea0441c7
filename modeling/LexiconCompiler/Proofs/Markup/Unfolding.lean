import LexiconCompiler.Markup.Json
import LexiconCompiler.Markup.Reader
import LexiconCompiler.Proofs.Markup.Json
import LexiconCompiler.Proofs.Markup.Repeats
import Mathlib.Data.Finset.Card
import Mathlib.Data.List.Forall2
import Mathlib.Logic.Relation
import Mathlib.Order.Monotone.Basic

set_option autoImplicit false
set_option relaxedAutoImplicit false

/-!
How far the aliases of a text are written out makes no difference. Written out to two depths, a text
gives trees that are alike down to the lesser one. Whoever writes all of a tree needs no more levels
than there are trees with names: what has not come to an end by then never does, because a way along
its aliases comes back to where it has been.
-/

namespace LexiconCompiler.Markup

/-- Two trees have the same head, and what stands right below it is related. -/
inductive Node.Alike (below : Node → Node → Prop) : Node → Node → Prop
  | scalar (tag : Tag) (text : String) : Alike below (.scalar tag text) (.scalar tag text)
  | sequence {items others : List Node} : List.Forall₂ below items others →
      Alike below (.sequence items) (.sequence others)
  | mapping {entries others : List (Key × Node)} :
      List.Forall₂ (fun entry other => entry.1 = other.1 ∧ below entry.2 other.2) entries others →
      Alike below (.mapping entries) (.mapping others)
  | reference (name : String) {target other : Option Node} : Option.Rel below target other →
      Alike below (.alias name target) (.alias name other)

/-- Two trees are alike down to a number of levels. An alias is a level of its own. -/
def Node.Agree : Nat → Node → Node → Prop
  | 0 => fun _ _ => True
  | levels + 1 => Alike (Agree levels)

namespace Node

variable {below above : Node → Node → Prop} {a b : Node} {m n : Nat}

private theorem rel_mono {target other : Option Node} (h : Option.Rel below target other)
    (hmono : ∀ x y, below x y → above x y) : Option.Rel above target other := by
  cases h with
  | none => exact .none
  | some h => exact .some (hmono _ _ h)

private theorem Alike.mono (h : a.Alike below b) (hmono : ∀ x y, below x y → above x y) :
    a.Alike above b := by
  cases h with
  | scalar tag text => exact .scalar tag text
  | sequence hitems => exact .sequence (hitems.imp hmono)
  | mapping hentries => exact .mapping (hentries.imp fun _ _ h => h.imp_right (hmono _ _))
  | reference name htargets => exact .reference name (rel_mono htargets hmono)

private theorem Agree.of_succ (h : Agree (n + 1) a b) : Agree n a b := by
  induction n generalizing a b with
  | zero => trivial
  | succ n ih => exact Alike.mono h fun _ _ => ih

theorem Agree.mono (h : Agree n a b) (hm : m ≤ n) : Agree m a b := by
  induction hm with
  | refl => exact h
  | step _ ih => exact ih h.of_succ

theorem Agree.bare (h : Agree (n + 1) a b) : Agree n a.bare b.bare := by
  have hsame : Agree n a b := h.of_succ
  cases h with
  | scalar | sequence | mapping => exact hsame
  | reference name htargets =>
    cases htargets with
    | none => exact hsame
    | some htarget => exact htarget

end Node

section Depths

variable {targets others : List (Nat × Node)} {n : Nat}

/-- The trees that aliases stand for are alike down to a number of levels. -/
def TargetsAgree (n : Nat) (targets others : List (Nat × Node)) : Prop :=
  ∀ number, Option.Rel (Node.Agree n) (targets.lookup number) (others.lookup number)

private theorem TargetsAgree.of_succ (h : TargetsAgree (n + 1) targets others) :
    TargetsAgree n targets others :=
  fun number => Node.rel_mono (h number) fun _ _ hagree => hagree.mono n.le_succ

private theorem itemNodes_eq_map (targets : List (Nat × Node)) (items : List Outline) :
    Outline.itemNodes targets items = items.map (Outline.toNode targets) := by
  induction items with
  | nil => rfl
  | cons item rest ih => rw [Outline.itemNodes, ih, List.map_cons]

private theorem entryNodes_eq_map (targets : List (Nat × Node)) (entries : List (Key × Outline)) :
    Outline.entryNodes targets entries =
      entries.map fun entry => (entry.1, entry.2.toNode targets) := by
  induction entries with
  | nil => rfl
  | cons entry rest ih => rw [Outline.entryNodes, ih, List.map_cons]

private theorem TargetsAgree.toNode_of_inner (h : TargetsAgree n targets others)
    (hinner : ∀ inner : Outline, (inner.toNode targets).Agree n (inner.toNode others))
    (outline : Outline) : (outline.toNode targets).Agree (n + 1) (outline.toNode others) := by
  rcases outline with ⟨tag, text⟩ | items | entries | ⟨name, number⟩
  · exact .scalar tag text
  · simp only [Outline.toNode, itemNodes_eq_map]
    refine .sequence ?_
    rw [List.forall₂_map_left_iff, List.forall₂_map_right_iff]
    exact List.forall₂_same.mpr fun item _ => hinner item
  · simp only [Outline.toNode, entryNodes_eq_map]
    refine .mapping ?_
    rw [List.forall₂_map_left_iff, List.forall₂_map_right_iff]
    exact List.forall₂_same.mpr fun entry _ => ⟨rfl, hinner entry.2⟩
  · exact .reference name (h number)

-- The head of a tree is a level more than what its aliases stand for.
private theorem TargetsAgree.toNode (h : TargetsAgree n targets others) (outline : Outline) :
    (outline.toNode targets).Agree (n + 1) (outline.toNode others) := by
  induction n generalizing outline with
  | zero => exact h.toNode_of_inner (fun _ => trivial) outline
  | succ n ih => exact h.toNode_of_inner (ih h.of_succ) outline

end Depths

namespace TextGraph

variable {g : TextGraph} {d e n : Nat}

private theorem lookup_targets_succ (g : TextGraph) (d number : Nat) :
    (g.targets (d + 1)).lookup number =
      (g.named.lookup number).map (Outline.toNode (g.targets d)) :=
  lookup_map_value _ g.named number

private theorem targetsAgree_succ
    (h : ∀ outline : Outline,
      (outline.toNode (g.targets d)).Agree n (outline.toNode (g.targets e))) :
    TargetsAgree n (g.targets (d + 1)) (g.targets (e + 1)) := by
  intro number
  rw [lookup_targets_succ, lookup_targets_succ]
  cases g.named.lookup number with
  | none => exact .none
  | some outline => exact .some (h outline)

-- The aliases of no levels are not resolved at all, so depths are compared from the first level on.
private theorem targetsAgree (hd : n < d) (he : n < e) :
    TargetsAgree n (g.targets d) (g.targets e) := by
  induction n generalizing d e with
  | zero =>
    obtain ⟨d, rfl⟩ := Nat.exists_eq_add_of_lt hd
    obtain ⟨e, rfl⟩ := Nat.exists_eq_add_of_lt he
    exact targetsAgree_succ fun _ => trivial
  | succ n ih =>
    obtain ⟨d, rfl⟩ := Nat.exists_eq_add_of_lt hd
    obtain ⟨e, rfl⟩ := Nat.exists_eq_add_of_lt he
    exact targetsAgree_succ (ih (by omega) (by omega)).toNode

/-- Written out to two depths, a text gives trees that are alike down to the lesser one. -/
theorem unfold_agree (hd : n ≤ d) (he : n ≤ e) : (g.unfold d).Agree n (g.unfold e) := by
  cases n with
  | zero => trivial
  | succ n => exact (targetsAgree hd he).toNode g.root

end TextGraph

section Json

variable {α β : Type} {targets others : List (Nat × Node)}

/-- Whether a result stays what it is when more of a tree is written out: only that no end was found
may still change. -/
def Settles (result later : Except JsonFault α) : Prop :=
  result = .error .endless ∨ result = later

private theorem Settles.bind {x y : Except JsonFault α} {k l : α → Except JsonFault β}
    (h : Settles x y) (hk : ∀ a, Settles (k a) (l a)) : Settles (x >>= k) (y >>= l) := by
  obtain rfl | rfl := h
  · exact Or.inl rfl
  · cases x with
    | error fault => exact Or.inr rfl
    | ok a => exact hk a

private theorem Settles.antisymm {x y : Except JsonFault α} (h : Settles x y) (h' : Settles y x) :
    x = y := by
  obtain hx | hxy := h
  · obtain hy | hyx := h'
    · exact hx.trans hy.symm
    · exact hyx.symm
  · exact hxy

/-- The JSON form of the tree that an alias stands for. -/
def targetJson (targets : List (Nat × Node)) (number : Nat) : Except JsonFault String :=
  (targets.lookup number).elim (.error .endless) Node.toJson

private theorem toJson_reference (targets : List (Nat × Node)) (name : String) (number : Nat) :
    (Node.alias name (targets.lookup number)).toJson = targetJson targets number := by
  rw [targetJson]
  cases targets.lookup number with
  | none => rfl
  | some node => rw [Node.toJson, Option.elim]

-- Trees are written one after the other, so that one whose end is not found hides all behind it.
mutual

private theorem toJson_settles
    (h : ∀ number, Settles (targetJson targets number) (targetJson others number)) :
    (outline : Outline) →
      Settles (outline.toNode targets).toJson (outline.toNode others).toJson
  | .scalar _ _ => Or.inr rfl
  | .sequence items => by
    simp only [Outline.toNode, Node.toJson]
    exact (itemsJson_settles h items).bind fun _ => Or.inr rfl
  | .mapping entries => by
    simp only [Outline.toNode, Node.toJson]
    exact (entriesJson_settles h entries).bind fun _ => Or.inr rfl
  | .alias name number => by
    simp only [Outline.toNode, toJson_reference]
    exact h number

private theorem itemsJson_settles
    (h : ∀ number, Settles (targetJson targets number) (targetJson others number)) :
    (items : List Outline) →
      Settles (itemsJson (Outline.itemNodes targets items))
        (itemsJson (Outline.itemNodes others items))
  | [] => Or.inr rfl
  | item :: rest => by
    simp only [Outline.itemNodes, itemsJson]
    exact (toJson_settles h item).bind fun _ =>
      (itemsJson_settles h rest).bind fun _ => Or.inr rfl

private theorem entriesJson_settles
    (h : ∀ number, Settles (targetJson targets number) (targetJson others number)) :
    (entries : List (Key × Outline)) →
      Settles (entriesJson (Outline.entryNodes targets entries))
        (entriesJson (Outline.entryNodes others entries))
  | [] => Or.inr rfl
  | (key, value) :: rest => by
    simp only [Outline.entryNodes, entriesJson]
    exact (toJson_settles h value).bind fun _ =>
      (entriesJson_settles h rest).bind fun _ => Or.inr rfl

end

private theorem toJson_congr (h : targetJson targets = targetJson others) (outline : Outline) :
    (outline.toNode targets).toJson = (outline.toNode others).toJson :=
  (toJson_settles (fun _ => Or.inr (congrFun h _)) outline).antisymm
    (toJson_settles (fun _ => Or.inr (congrFun h.symm _)) outline)

end Json

namespace TextGraph

variable {g : TextGraph} {d e : Nat}

def numbers (g : TextGraph) : Finset Nat := (g.named.map Prod.fst).toFinset

private theorem mem_numbers {number : Nat} (h : g.named.lookup number ≠ none) :
    number ∈ g.numbers := by
  rw [numbers, List.mem_toFinset]
  by_contra hnot
  refine h (List.lookup_eq_none_iff.mpr fun entry he => ?_)
  have hne : entry.1 ≠ number := fun heq => hnot (heq ▸ List.mem_map_of_mem he)
  simpa using hne.symm

private theorem card_numbers_le (g : TextGraph) : g.numbers.card ≤ g.named.length := by
  calc g.numbers.card ≤ (g.named.map Prod.fst).length := List.toFinset_card_le _
    _ = g.named.length := List.length_map _

/-- What comes of writing the tree with a number, with so many aliases written out. -/
def jsonOf (g : TextGraph) (d : Nat) : Nat → Except JsonFault String := targetJson (g.targets d)

private theorem jsonOf_succ (g : TextGraph) (d number : Nat) :
    g.jsonOf (d + 1) number =
      (g.named.lookup number).elim (.error .endless)
        fun outline => (outline.toNode (g.targets d)).toJson := by
  rw [jsonOf, targetJson, lookup_targets_succ]
  cases g.named.lookup number <;> rfl

private theorem jsonOf_settles (g : TextGraph) (d number : Nat) :
    Settles (g.jsonOf d number) (g.jsonOf (d + 1) number) := by
  induction d generalizing number with
  | zero => exact Or.inl rfl
  | succ d ih =>
    rw [jsonOf_succ, jsonOf_succ]
    cases g.named.lookup number with
    | none => exact Or.inr rfl
    | some outline => exact toJson_settles ih outline

private theorem jsonOf_step (h : g.jsonOf d = g.jsonOf (d + 1)) :
    g.jsonOf (d + 1) = g.jsonOf (d + 2) := by
  funext number
  rw [jsonOf_succ, jsonOf_succ]
  cases g.named.lookup number with
  | none => rfl
  | some outline => exact toJson_congr h outline

open Classical in
/-- The numbers of the trees whose end is found. -/
noncomputable def ended (g : TextGraph) (d : Nat) : Finset Nat :=
  g.numbers.filter fun number => g.jsonOf d number ≠ .error .endless

private theorem mem_ended {number : Nat} :
    number ∈ g.ended d ↔ g.jsonOf d number ≠ .error .endless := by
  rw [ended, Finset.mem_filter, and_iff_right_iff_imp]
  intro hnumber
  refine mem_numbers fun hnone => hnumber ?_
  cases d with
  | zero => rfl
  | succ d => rw [jsonOf_succ, hnone, Option.elim]

private theorem ended_mono (g : TextGraph) : Monotone g.ended := by
  refine monotone_nat_of_le_succ fun d number hnumber => ?_
  rw [mem_ended] at hnumber ⊢
  rw [← (g.jsonOf_settles d number).resolve_left hnumber]
  exact hnumber

private theorem card_ended_le (g : TextGraph) (d : Nat) : (g.ended d).card ≤ g.named.length :=
  (Finset.card_filter_le _ _).trans g.card_numbers_le

private theorem jsonOf_of_card_eq (h : (g.ended d).card = (g.ended (d + 1)).card) :
    g.jsonOf d = g.jsonOf (d + 1) := by
  have hsame : g.ended d = g.ended (d + 1) :=
    Finset.eq_of_subset_of_card_le (g.ended_mono d.le_succ) h.ge
  funext number
  obtain hendless | heq := g.jsonOf_settles d number
  · by_contra hne
    have hlater : number ∈ g.ended (d + 1) := mem_ended.mpr fun hlater =>
      hne (hendless.trans hlater.symm)
    exact mem_ended.mp (hsame ▸ hlater) hendless
  · exact heq

private theorem card_ended_congr (h : g.jsonOf d = g.jsonOf e) :
    (g.ended d).card = (g.ended e).card := by
  rw [ended, ended, h]

-- Each level on the way finds the end of one more tree, or no level after it finds any.
private theorem jsonOf_eq (hd : g.named.length ≤ d) : g.jsonOf d = g.jsonOf g.named.length := by
  have hcard (e : Nat) (he : g.named.length ≤ e) :
      (g.ended e).card = (g.ended g.named.length).card := by
    refine Nat.stabilises_of_monotone (f := fun e => (g.ended e).card) ?_ g.card_ended_le ?_ he
    · exact fun _ _ hle => Finset.card_le_card (g.ended_mono hle)
    · exact fun e h => card_ended_congr (jsonOf_step (jsonOf_of_card_eq h))
  induction hd with
  | refl => rfl
  | @step e he ih =>
    rw [← ih]
    exact (jsonOf_of_card_eq ((hcard e he).trans (hcard (e + 1) (he.step)).symm)).symm

/-- Writing all of a tree comes to the same from as many levels on as there are trees with names. -/
theorem toJson_unfold (hd : g.named.length ≤ d) (he : g.named.length ≤ e) :
    (g.unfold d).toJson = (g.unfold e).toJson :=
  toJson_congr ((jsonOf_eq hd).trans (jsonOf_eq he).symm) g.root

end TextGraph

/-- An alias in an outline has a number. -/
inductive Outline.Refers (number : Nat) : Outline → Prop
  | reference (name : String) : Refers number (.alias name number)
  | item {items : List Outline} {item : Outline} : item ∈ items → Refers number item →
      Refers number (.sequence items)
  | entry {entries : List (Key × Outline)} {key : Key} {value : Outline} : (key, value) ∈ entries →
      Refers number value → Refers number (.mapping entries)

section Ends

variable {targets : List (Nat × Node)} {number : Nat}

/-- No end is found of what an alias stands for. -/
def EndlessAt (targets : List (Nat × Node)) (number : Nat) : Prop :=
  ∀ node, targets.lookup number = some node → node.Endless

private theorem endless_of_refers {outline : Outline} (hrefers : outline.Refers number)
    (h : EndlessAt targets number) : (outline.toNode targets).Endless := by
  induction hrefers with
  | reference name =>
    rw [Outline.toNode]
    cases hlookup : targets.lookup number with
    | none => exact .hollow
    | some node => exact .target (h node hlookup)
  | item hmem _ ih =>
    rw [Outline.toNode, itemNodes_eq_map]
    exact .item (List.mem_map_of_mem hmem) ih
  | @entry entries key value hmem _ ih =>
    rw [Outline.toNode, entryNodes_eq_map]
    exact .entry (List.mem_map.mpr ⟨_, hmem, rfl⟩) ih

-- One case for each form of an outline, and the same for what stands in a collection.
mutual

private theorem refers_of_endless : (outline : Outline) → (outline.toNode targets).Endless →
    ∃ number, outline.Refers number ∧ EndlessAt targets number
  | .scalar _ _, h => by cases h
  | .sequence items, h => by
    rw [Outline.toNode] at h
    cases h with
    | item hmem hendless =>
      obtain ⟨item, hitem, number, hrefers, hat⟩ := refers_of_endless_item items hmem hendless
      exact ⟨number, .item hitem hrefers, hat⟩
  | .mapping entries, h => by
    rw [Outline.toNode] at h
    cases h with
    | entry hmem hendless =>
      obtain ⟨key, value, hvalue, number, hrefers, hat⟩ :=
        refers_of_endless_entry entries hmem hendless
      exact ⟨number, .entry hvalue hrefers, hat⟩
  | .alias name number, h => by
    refine ⟨number, .reference name, fun node hnode => ?_⟩
    rw [Outline.toNode, hnode] at h
    cases h with
    | target hendless => exact hendless

private theorem refers_of_endless_item {node : Node} : (items : List Outline) →
    node ∈ Outline.itemNodes targets items → node.Endless →
    ∃ item ∈ items, ∃ number, item.Refers number ∧ EndlessAt targets number
  | [], hmem, _ => by cases hmem
  | item :: rest, hmem, hendless => by
    rw [Outline.itemNodes, List.mem_cons] at hmem
    obtain rfl | hrest := hmem
    · exact ⟨item, List.mem_cons_self, refers_of_endless item hendless⟩
    · obtain ⟨other, hother, hfound⟩ := refers_of_endless_item rest hrest hendless
      exact ⟨other, List.mem_cons_of_mem _ hother, hfound⟩

private theorem refers_of_endless_entry {key : Key} {node : Node} :
    (entries : List (Key × Outline)) → (key, node) ∈ Outline.entryNodes targets entries →
    node.Endless →
    ∃ key value, (key, value) ∈ entries ∧ ∃ number, value.Refers number ∧ EndlessAt targets number
  | [], hmem, _ => by cases hmem
  | (other, value) :: rest, hmem, hendless => by
    rw [Outline.entryNodes, List.mem_cons] at hmem
    obtain heq | hrest := hmem
    · obtain ⟨rfl, rfl⟩ := Prod.mk.inj heq
      exact ⟨key, value, List.mem_cons_self, refers_of_endless value hendless⟩
    · obtain ⟨found, inner, hinner, hfound⟩ := refers_of_endless_entry rest hrest hendless
      exact ⟨found, inner, List.mem_cons_of_mem _ hinner, hfound⟩

end

end Ends

namespace TextGraph

open Relation

variable {g : TextGraph} {d number next : Nat}

/-- The tree with a number holds an alias of the tree with the next one. -/
def Leads (g : TextGraph) (number next : Nat) : Prop :=
  ∃ outline, g.named.lookup number = some outline ∧ outline.Refers next

/-- A way along aliases leads nowhere, or back to where it has been. -/
def Lost (g : TextGraph) (number : Nat) : Prop :=
  ∃ place, ReflTransGen g.Leads number place ∧
    (g.named.lookup place = none ∨ TransGen g.Leads place place)

private theorem endlessAt_succ : EndlessAt (g.targets (d + 1)) number ↔
    g.named.lookup number = none ∨ ∃ next, g.Leads number next ∧ EndlessAt (g.targets d) next := by
  rw [EndlessAt, lookup_targets_succ]
  cases hlookup : g.named.lookup number with
  | none => simp
  | some outline =>
    constructor
    · intro h
      obtain ⟨next, hrefers, hat⟩ := refers_of_endless outline (h _ rfl)
      exact Or.inr ⟨next, ⟨outline, hlookup, hrefers⟩, hat⟩
    · rintro (hnone | ⟨next, ⟨found, hfound, hrefers⟩, hat⟩) node hnode
      · cases hnone
      · obtain rfl := Option.some.inj (hlookup.symm.trans hfound)
        obtain rfl := Option.some.inj hnode
        exact endless_of_refers hrefers hat

private theorem Lost.step (h : g.Lost number) :
    g.named.lookup number = none ∨ ∃ next, g.Leads number next ∧ g.Lost next := by
  obtain ⟨place, hway, hplace⟩ := h
  obtain rfl | ⟨next, hleads, hrest⟩ := hway.cases_head
  · refine hplace.imp_right fun hcycle => ?_
    obtain ⟨next, hleads, hback⟩ := TransGen.head'_iff.mp hcycle
    exact ⟨next, hleads, number, hback, Or.inr hcycle⟩
  · exact Or.inr ⟨next, hleads, place, hrest, hplace⟩

private theorem Lost.endlessAt (h : g.Lost number) (d : Nat) :
    EndlessAt (g.targets d) number := by
  induction d generalizing number with
  | zero =>
    intro node hnode
    cases hnode
  | succ d ih =>
    refine endlessAt_succ.mpr (h.step.imp_right ?_)
    rintro ⟨next, hleads, hnext⟩
    exact ⟨next, hleads, ih hnext⟩

private theorem Lost.of_leads (hleads : g.Leads number next) (h : g.Lost next) : g.Lost number := by
  obtain ⟨place, hway, hplace⟩ := h
  exact ⟨place, .head hleads hway, hplace⟩

open Classical in
/-- The numbers that ways along aliases come to. -/
noncomputable def reach (g : TextGraph) (number : Nat) : Finset Nat :=
  g.numbers.filter (ReflTransGen g.Leads number)

private theorem mem_reach {place : Nat} :
    place ∈ g.reach number ↔ place ∈ g.numbers ∧ ReflTransGen g.Leads number place := by
  classical
  rw [reach, Finset.mem_filter]

private theorem card_reach_le (g : TextGraph) (number : Nat) :
    (g.reach number).card ≤ g.named.length := by
  classical
  exact (Finset.card_filter_le _ _).trans g.card_numbers_le

private theorem mem_reach_self (h : ¬ g.Lost number) : number ∈ g.reach number := by
  have hlookup : g.named.lookup number ≠ none := fun hnone => h ⟨number, .refl, Or.inl hnone⟩
  exact mem_reach.mpr ⟨mem_numbers hlookup, .refl⟩

private theorem card_reach_lt (h : ¬ g.Lost number) (hleads : g.Leads number next) :
    (g.reach next).card < (g.reach number).card := by
  have hsubset : g.reach next ⊆ g.reach number := by
    intro place hplace
    obtain ⟨hnumber, hway⟩ := mem_reach.mp hplace
    exact mem_reach.mpr ⟨hnumber, .head hleads hway⟩
  refine Finset.card_lt_card ((Finset.ssubset_iff_of_subset hsubset).mpr ⟨number, ?_, ?_⟩)
  · exact mem_reach_self h
  · intro hback
    have hcycle : TransGen g.Leads number number := .head' hleads (mem_reach.mp hback).2
    exact h ⟨number, .refl, Or.inr hcycle⟩

-- A way that is not lost never comes back, so that each step leaves fewer numbers to come to.
private theorem not_endlessAt (h : ¬ g.Lost number) (hd : (g.reach number).card ≤ d) :
    ¬ EndlessAt (g.targets d) number := by
  induction d generalizing number with
  | zero =>
    have hmem := mem_reach_self h
    rw [Finset.card_eq_zero.mp (Nat.le_zero.mp hd)] at hmem
    cases hmem
  | succ d ih =>
    rw [endlessAt_succ]
    rintro (hnone | ⟨next, hleads, hat⟩)
    · exact h ⟨number, .refl, Or.inl hnone⟩
    · have hless := card_reach_lt h hleads
      exact ih (fun hnext => h (hnext.of_leads hleads)) (by omega) hat

/-- A tree is marked as one without an end exactly if its text says so: a way along its aliases
leads nowhere, or back to where it has been. -/
theorem endless_unfold_iff (hd : g.named.length ≤ d) :
    (g.unfold d).Endless ↔ ∃ number, g.root.Refers number ∧ g.Lost number := by
  constructor
  · intro h
    obtain ⟨number, hrefers, hat⟩ := refers_of_endless g.root h
    refine ⟨number, hrefers, by_contra fun hlost => not_endlessAt hlost ?_ hat⟩
    exact (g.card_reach_le number).trans hd
  · rintro ⟨number, hrefers, hlost⟩
    exact endless_of_refers hrefers (hlost.endlessAt d)

end TextGraph

end LexiconCompiler.Markup
