import LexiconCompiler.Markup.Json
import LexiconCompiler.Proofs.Outcome

set_option autoImplicit false
set_option relaxedAutoImplicit false

/-!
Which trees have no JSON form: those that hold a scalar without one, and those without an end. Such
a scalar has no value of its tag, or its value is a number that is not finite, or a time whose zone
is a day or more away.
-/

namespace LexiconCompiler.Markup

/-- A scalar stands somewhere in a tree, keys apart. -/
inductive Node.Holds (tag : Tag) (text : String) : Node -> Prop
  | scalar : Holds tag text (.scalar tag text)
  | item {items : List Node} {node : Node} : node ∈ items → Holds tag text node →
      Holds tag text (.sequence items)
  | entry {entries : List (Key × Node)} {key : Key} {node : Node} : (key, node) ∈ entries →
      Holds tag text node → Holds tag text (.mapping entries)
  | target {name : String} {node : Node} : Holds tag text node →
      Holds tag text (.alias name (some node))

/-- Somewhere in a tree, keys apart, stands an alias of a tree around it. -/
inductive Node.Endless : Node -> Prop
  | hollow {name : String} : Endless (.alias name none)
  | item {items : List Node} {node : Node} : node ∈ items → Endless node →
      Endless (.sequence items)
  | entry {entries : List (Key × Node)} {key : Key} {node : Node} : (key, node) ∈ entries →
      Endless node → Endless (.mapping entries)
  | target {name : String} {node : Node} : Endless node → Endless (.alias name (some node))

section Holds

variable {tag : Tag} {text : String}

@[simp] theorem holds_scalar {other : Tag} {s : String} :
    (Node.scalar other s).Holds tag text ↔ other = tag ∧ s = text := by
  constructor
  · rintro ⟨⟩
    exact ⟨rfl, rfl⟩
  · rintro ⟨rfl, rfl⟩
    exact .scalar

@[simp] theorem holds_mapping {entries : List (Key × Node)} :
    (Node.mapping entries).Holds tag text ↔ ∃ entry ∈ entries, entry.2.Holds tag text := by
  constructor
  · rintro ⟨⟩
    exact ⟨_, ‹_›, ‹_›⟩
  · rintro ⟨⟨key, node⟩, hn, hholds⟩
    exact .entry hn hholds

end Holds

/-- A scalar has no JSON form, and why. -/
inductive Unwritable (tag : Tag) (text : String) : JsonFault -> Prop
  | undecodable {fault : ScalarFault} : decodeScalar tag text = .error fault →
      Unwritable tag text (.undecodable fault)
  | nan : decodeScalar tag text = .ok (.float .nan) → Unwritable tag text (.notFinite .nan)
  | infinite {negative : Bool} : decodeScalar tag text = .ok (.float (.infinite negative)) →
      Unwritable tag text (.notFinite (.infinite negative))
  | farZone {stamp : Timestamp} : decodeScalar tag text = .ok (.time stamp) →
      stamp.zoneInRange = false → Unwritable tag text .farZone

private theorem unwritable_of_scalarJson {tag : Tag} {text : String} {fault : JsonFault}
    (h : scalarJson tag text = .error fault) : Unwritable tag text fault := by
  unfold scalarJson at h
  split at h
  · rename_i value hvalue
    unfold Scalar.toJson at h
    split at h
    all_goals try contradiction
    · rename_i number hfinite
      obtain rfl := Except.error.inj h
      cases number with
      | nan => exact .nan hvalue
      | infinite negative => exact .infinite hvalue
      | finite negative mantissa exponent => exact absurd rfl (hfinite negative mantissa exponent)
    · split at h
      · contradiction
      · rename_i stamp hzone
        obtain rfl := Except.error.inj h
        exact .farZone hvalue (by simpa using hzone)
  · rename_i scalarFault hfault
    obtain rfl := Except.error.inj h
    exact .undecodable hfault

theorem Unwritable.scalarJson_eq {tag : Tag} {text : String} {fault : JsonFault}
    (h : Unwritable tag text fault) : scalarJson tag text = .error fault := by
  cases h with
  | undecodable hd | nan hd | infinite hd => simp [scalarJson, hd, Scalar.toJson]
  | farZone hd hzone => simp [scalarJson, hd, Scalar.toJson, hzone]

/-- What keeps a tree from being written: a scalar, or that it has no end. -/
def Node.Blocked (fault : JsonFault) (node : Node) : Prop :=
  (fault = .endless ∧ node.Endless) ∨ ∃ tag text, node.Holds tag text ∧ Unwritable tag text fault

section Trees

variable {fault : JsonFault}

private theorem Node.Blocked.lift {node other : Node} (h : node.Blocked fault)
    (hendless : node.Endless → other.Endless)
    (hholds : ∀ tag text, node.Holds tag text → other.Holds tag text) : other.Blocked fault :=
  h.imp (And.imp_right hendless) fun ⟨tag, text, hnode, hbad⟩ =>
    ⟨tag, text, hholds tag text hnode, hbad⟩

-- The trees inside a tree are written one after the other; the first that fails decides.
mutual

theorem Node.blocked_of_toJson : (node : Node) → node.toJson = .error fault → node.Blocked fault
  | .scalar tag text, h => by
    rw [Node.toJson] at h
    exact Or.inr ⟨tag, text, .scalar, unwritable_of_scalarJson h⟩
  | .sequence items, h => by
    simp only [Node.toJson, Outcome.bind_eq_error, Outcome.pure_ne_error, and_false, exists_false,
      or_false] at h
    obtain ⟨node, hn, hblocked⟩ := blocked_of_itemsJson items h
    exact hblocked.lift (.item hn) fun _ _ => .item hn
  | .mapping entries, h => by
    simp only [Node.toJson, Outcome.bind_eq_error, Outcome.pure_ne_error, and_false, exists_false,
      or_false] at h
    obtain ⟨⟨key, node⟩, hn, hblocked⟩ := blocked_of_entriesJson entries h
    exact hblocked.lift (.entry hn) fun _ _ => .entry hn
  | .alias _ (some target), h => by
    rw [Node.toJson] at h
    exact (target.blocked_of_toJson h).lift .target fun _ _ => .target
  | .alias _ none, h => by
    rw [Node.toJson] at h
    exact Or.inl ⟨(Except.error.inj h).symm, .hollow⟩

private theorem blocked_of_itemsJson : (items : List Node) → itemsJson items = .error fault →
    ∃ node ∈ items, node.Blocked fault
  | [], h => by
    rw [itemsJson] at h
    cases h
  | node :: rest, h => by
    simp only [itemsJson, Outcome.bind_eq_error, Outcome.pure_ne_error, and_false, exists_false,
      or_false] at h
    rcases h with hnode | ⟨_, _, hrest⟩
    · exact ⟨node, List.mem_cons_self, node.blocked_of_toJson hnode⟩
    · obtain ⟨other, ho, hblocked⟩ := blocked_of_itemsJson rest hrest
      exact ⟨other, List.mem_cons_of_mem node ho, hblocked⟩

private theorem blocked_of_entriesJson : (entries : List (Key × Node)) →
    entriesJson entries = .error fault → ∃ entry ∈ entries, entry.2.Blocked fault
  | [], h => by
    rw [entriesJson] at h
    cases h
  | (key, node) :: rest, h => by
    simp only [entriesJson, Outcome.bind_eq_error, Outcome.pure_ne_error, and_false, exists_false,
      or_false] at h
    rcases h with hnode | ⟨_, _, hrest⟩
    · exact ⟨(key, node), List.mem_cons_self, node.blocked_of_toJson hnode⟩
    · obtain ⟨other, ho, hblocked⟩ := blocked_of_entriesJson rest hrest
      exact ⟨other, List.mem_cons_of_mem _ ho, hblocked⟩

end

private theorem toJson_of_itemsJson {items : List Node} {parts : List String}
    (h : itemsJson items = .ok parts) {node : Node} (hn : node ∈ items) :
    ∃ part, node.toJson = .ok part := by
  induction items generalizing parts with
  | nil => cases hn
  | cons first rest ih =>
    simp only [itemsJson, Outcome.bind_eq_ok, Outcome.pure_eq_ok] at h
    obtain ⟨part, hpart, others, hothers, -⟩ := h
    rcases List.mem_cons.mp hn with rfl | hn
    · exact ⟨part, hpart⟩
    · exact ih hothers hn

private theorem toJson_of_entriesJson {entries : List (Key × Node)} {parts : List String}
    (h : entriesJson entries = .ok parts) {entry : Key × Node} (he : entry ∈ entries) :
    ∃ part, entry.2.toJson = .ok part := by
  induction entries generalizing parts with
  | nil => cases he
  | cons first rest ih =>
    simp only [entriesJson, Outcome.bind_eq_ok, Outcome.pure_eq_ok] at h
    obtain ⟨part, hpart, others, hothers, -⟩ := h
    rcases List.mem_cons.mp he with rfl | he
    · exact ⟨part, hpart⟩
    · exact ih hothers he

theorem Node.Holds.scalarJson_eq_ok {tag : Tag} {text : String} {node : Node}
    (h : node.Holds tag text) {written : String} (hw : node.toJson = .ok written) :
    ∃ part, scalarJson tag text = .ok part := by
  induction h generalizing written with
  | scalar => exact ⟨written, hw⟩
  | item hn _ ih =>
    simp only [Node.toJson, Outcome.bind_eq_ok] at hw
    obtain ⟨parts, hparts, -⟩ := hw
    obtain ⟨part, hpart⟩ := toJson_of_itemsJson hparts hn
    exact ih hpart
  | entry he _ ih =>
    simp only [Node.toJson, Outcome.bind_eq_ok] at hw
    obtain ⟨parts, hparts, -⟩ := hw
    obtain ⟨part, hpart⟩ := toJson_of_entriesJson hparts he
    exact ih hpart
  | target _ ih => exact ih hw

theorem Node.Endless.toJson_ne_ok {node : Node} (h : node.Endless) {written : String} :
    node.toJson ≠ .ok written := by
  intro hw
  induction h generalizing written with
  | hollow => cases hw
  | item hn _ ih =>
    simp only [Node.toJson, Outcome.bind_eq_ok] at hw
    obtain ⟨parts, hparts, -⟩ := hw
    obtain ⟨part, hpart⟩ := toJson_of_itemsJson hparts hn
    exact ih hpart
  | entry he _ ih =>
    simp only [Node.toJson, Outcome.bind_eq_ok] at hw
    obtain ⟨parts, hparts, -⟩ := hw
    obtain ⟨part, hpart⟩ := toJson_of_entriesJson hparts he
    exact ih hpart
  | target _ ih => exact ih hw

end Trees

end LexiconCompiler.Markup
