import LexiconCompiler.Proofs.Text.Pieces
import LexiconCompiler.Schema.TypeReader
import Mathlib.Data.List.Forall2

set_option autoImplicit false
set_option relaxedAutoImplicit false

/-!
Reading without issues. `Yields r a` says that a reading ends with `a` and no issue; each reader of
scalars and fields is described by an equivalence, which serves to take a reading apart as well as
to carry one out.
-/

namespace LexiconCompiler

open LexiconCompiler.Markup LexiconCompiler.Text

namespace Reviewed

variable {α β : Type}

theorem bind_congr_of_alike {γ : Type} {r : Reviewed α} {s : Reviewed β} {k : α → Reviewed γ}
    {l : β → Reviewed γ} (hissues : r.issues = s.issues) (hwarnings : r.warnings = s.warnings)
    (h : k r.value = l s.value) : r >>= k = s >>= l := by
  change r.andThen k = s.andThen l
  rw [andThen, andThen, hissues, hwarnings, h]

theorem bind_congr {r : Reviewed α} {k l : α → Reviewed β} (h : k r.value = l r.value) :
    r >>= k = r >>= l :=
  bind_congr_of_alike rfl rfl h

theorem pure_bind_congr {γ : Type} {a : α} {b : β} {k : α → Reviewed γ} {l : β → Reviewed γ}
    (h : k a = l b) : pure a >>= k = pure b >>= l :=
  bind_congr_of_alike rfl rfl h

/-- A reading ends with a value and without issues. -/
def Yields (r : Reviewed α) (a : α) : Prop := r.issues = [] ∧ r.value = a

@[simp] theorem yields_pure (a b : α) : (pure a : Reviewed α).Yields b ↔ b = a :=
  ⟨fun h => h.2.symm, fun h => ⟨rfl, h.symm⟩⟩

@[simp] theorem yields_bind (r : Reviewed α) (f : α → Reviewed β) (b : β) :
    (r >>= f).Yields b ↔ ∃ a, r.Yields a ∧ (f a).Yields b := by
  constructor
  · rintro ⟨hi, hv⟩
    have hi' : r.issues ++ (f r.value).issues = [] := hi
    obtain ⟨h₁, h₂⟩ := List.append_eq_nil_iff.mp hi'
    exact ⟨r.value, ⟨h₁, rfl⟩, ⟨h₂, hv⟩⟩
  · rintro ⟨_, ⟨h₁, rfl⟩, ⟨h₂, hv⟩⟩
    exact ⟨List.append_eq_nil_iff.mpr ⟨h₁, h₂⟩, hv⟩

private theorem yields_bind_some {γ : Type} {r : Reviewed (Option α)} {P : γ → Prop} {found : γ → α}
    (h : ∀ v, r.Yields v ↔ ∃ c, P c ∧ v = some (found c)) (f : Option α → Reviewed β) (b : β) :
    (r >>= f).Yields b ↔ ∃ c, P c ∧ (f (some (found c))).Yields b := by
  rw [yields_bind]
  constructor
  · rintro ⟨v, hv, hb⟩
    obtain ⟨c, hc, rfl⟩ := (h v).mp hv
    exact ⟨c, hc, hb⟩
  · rintro ⟨c, hc, hb⟩
    exact ⟨_, (h _).mpr ⟨c, hc, rfl⟩, hb⟩

@[simp] theorem not_yields_mismatch (path message expected actual : String) (u : Unit) :
    ¬ (mismatch path message expected actual).Yields u := fun h => List.cons_ne_nil _ _ h.1

@[simp] theorem not_yields_fault (path message : String) (u : Unit) :
    ¬ (fault path message).Yields u := fun h => List.cons_ne_nil _ _ h.1

@[simp] theorem yields_warn (warning : Warning) (u : Unit) : (warn warning).Yields u := ⟨rfl, rfl⟩

end Reviewed

/-- A reader is described by a relation: it reads exactly the values related to a tree, and reports
an issue where there is none. -/
def Describes {α : Type} (R : Node → α → Prop) (read : Node → String → Reviewed (Option α)) :
    Prop :=
  ∀ node path v, (read node path).Yields v ↔ ∃ a, R node a ∧ v = some a

def IsText (node : Node) (text : String) : Prop := node = .scalar .str text

def IsBoolean (node : Node) (b : Bool) : Prop :=
  ∃ text, node = .scalar .bool text ∧ decodeScalar .bool text = .ok (.bool b)

def IsInteger (node : Node) (i : Int) : Prop := integerOf? node = some i

def IsLength (node : Node) (n : Nat) : Prop := IsInteger node (n : Int)

def IsNumber (node : Node) (x : Binary64) : Prop := LexiconCompiler.numberOf? node = some x

theorem describes_readString : Describes IsText readString := by
  intro node path v
  unfold readString
  split
  · rename_i text
    simp [IsText]
  · rename_i hne
    simp only [Reviewed.yields_bind, Reviewed.not_yields_mismatch, false_and, exists_false,
      false_iff]
    rintro ⟨text, rfl, _⟩
    exact hne text rfl

theorem describes_readInteger : Describes IsInteger readInteger := by
  intro node path v
  unfold readInteger IsInteger
  cases integerOf? node with
  | some i => simp
  | none => simp

theorem describes_readNumber : Describes IsNumber readNumber := by
  intro node path v
  unfold readNumber IsNumber
  cases LexiconCompiler.numberOf? node with
  | some x => simp
  | none => simp

private theorem decode_bool_eq_bool {text : String} {value : Scalar}
    (h : decodeScalar .bool text = .ok value) : ∃ b, value = .bool b := by
  have hr : resolveAs .bool text = .ok value := h
  unfold resolveAs at hr
  simp only at hr
  split at hr
  · rename_i htag
    obtain rfl := Except.ok.inj hr
    cases hv : resolve (Tag.bool == Tag.timestamp) text with
    | bool b => exact ⟨b, rfl⟩
    | _ => rw [hv] at htag; simp [Scalar.tag] at htag
  · simp at hr

theorem describes_readBoolean : Describes IsBoolean readBoolean := by
  intro node path v
  unfold readBoolean
  split
  · rename_i text
    cases hd : decodeScalar .bool text with
    | error fault => simp [IsBoolean, hd]
    | ok value =>
      obtain ⟨b, rfl⟩ := decode_bool_eq_bool hd
      simp [IsBoolean, hd]
  · rename_i hne
    simp only [Reviewed.yields_bind, Reviewed.not_yields_mismatch, false_and, exists_false,
      false_iff]
    rintro ⟨b, ⟨text, rfl, _⟩, _⟩
    exact hne text rfl

private theorem yields_readItems {α : Type} {R : Node → α → Prop}
    {read : Node → String → Reviewed (Option α)} (h : Describes R read) (path : String)
    (index : Nat) (nodes : List Node) (values : List α) :
    (readItems read path index nodes).Yields values ↔ List.Forall₂ R nodes values := by
  induction nodes generalizing index values with
  | nil => simp [readItems]
  | cons node rest ih =>
    simp only [readItems, Reviewed.yields_bind, Reviewed.yields_pure, h _ _ _, ih]
    constructor
    · rintro ⟨_, ⟨a, ha, rfl⟩, others, ho, rfl⟩
      exact List.Forall₂.cons ha ho
    · intro hf
      obtain ⟨a, others, ha, ho, rfl⟩ := List.forall₂_cons_left_iff.mp hf
      exact ⟨some a, ⟨a, ha, rfl⟩, others, ho, rfl⟩

theorem yields_readFields (node : Node) (path : String) (v : Option Fields) :
    (readFields node path).Yields v ↔
      ∃ entries, node = .mapping entries ∧ v = some ⟨Node.textEntries entries, path⟩ := by
  unfold readFields
  split
  · rename_i entries
    simp
  · rename_i hne
    simp only [Reviewed.yields_bind, Reviewed.not_yields_mismatch, false_and, exists_false,
      false_iff]
    rintro ⟨entries, rfl, _⟩
    exact hne entries rfl

theorem yields_readFields_bind {β : Type} (node : Node) (path : String)
    (f : Option Fields → Reviewed β) (b : β) :
    (readFields node path >>= f).Yields b ↔
      ∃ entries, node = .mapping entries ∧
        (f (some ⟨Node.textEntries entries, path⟩)).Yields b :=
  Reviewed.yields_bind_some (yields_readFields node path) f b

def IsList {α : Type} (R : Node → α → Prop) (node : Node) (values : List α) : Prop :=
  ∃ items, node = .sequence items ∧ List.Forall₂ R (items.map Node.bare) values

theorem yields_readStrings (node : Node) (path : String) (values : List String) :
    (readStrings node path).Yields values ↔ IsList IsText node values := by
  unfold readStrings IsList
  split
  · rename_i items
    rw [yields_readItems describes_readString]
    simp
  · rename_i hne
    simp only [Reviewed.yields_bind, Reviewed.not_yields_mismatch, false_and, exists_false,
      false_iff]
    rintro ⟨items, rfl, _⟩
    exact hne items rfl

def OptionField {α : Type} (R : Node → α → Prop) : Option Node → Option α → Prop
  | none, v => v = none
  | some node, v => ∃ a, R node a ∧ v = some a

def ListField {α : Type} (R : Node → α → Prop) : Option Node → List α → Prop
  | none, values => values = []
  | some node, values => IsList R node values

def TextField : Option Node → String → Prop
  | none, text => text = ""
  | some node, text => IsText node text

namespace Fields

variable {α : Type} {R : Node → α → Prop} {read : Node → String → Reviewed (Option α)}

theorem yields_optional (h : Describes R read) (f : Fields) (key : String) (v : Option α) :
    (f.optional read key).Yields v ↔ OptionField R (f.get? key) v := by
  unfold optional
  cases f.get? key with
  | none => simp [OptionField]
  | some node => exact h node _ v

theorem yields_requiredString (f : Fields) (key : String) (v : Option String) :
    (f.requiredString key).Yields v ↔ ∃ text, f.get? key = some (.scalar .str text) ∧
      v = some text := by
  unfold requiredString
  cases f.get? key with
  | none => simp
  | some node => simp [describes_readString _ _ _, IsText]

theorem yields_requiredString_bind {β : Type} (f : Fields) (key : String)
    (k : Option String → Reviewed β) (b : β) :
    (f.requiredString key >>= k).Yields b ↔
      ∃ text, f.get? key = some (.scalar .str text) ∧ (k (some text)).Yields b :=
  Reviewed.yields_bind_some (yields_requiredString f key) k b

theorem yields_textOr (f : Fields) (key text : String) :
    (f.textOr key).Yields text ↔ TextField (f.get? key) text := by
  unfold textOr
  simp only [Reviewed.yields_bind, Reviewed.yields_pure, yields_optional describes_readString]
  cases f.get? key with
  | none => simp [OptionField, TextField]
  | some node => simp [OptionField, TextField]

theorem yields_length (f : Fields) (key : String) (v : Option Nat) :
    (f.length key).Yields v ↔ OptionField IsLength (f.get? key) v := by
  unfold length
  simp only [Reviewed.yields_bind, yields_optional describes_readInteger]
  cases f.get? key with
  | none => simp [OptionField]
  | some node =>
    constructor
    · rintro ⟨_, ⟨i, hi, rfl⟩, hv⟩
      simp only at hv
      split at hv
      · simp at hv
      · refine ⟨i.toNat, ?_, (Reviewed.yields_pure _ _).mp hv⟩
        rw [IsLength, Int.toNat_of_nonneg (by omega)]
        exact hi
    · rintro ⟨n, hn, rfl⟩
      refine ⟨some (n : Int), ⟨_, hn, rfl⟩, ?_⟩
      have hn : ¬ (n : Int) < 0 := by omega
      simp [hn]

theorem yields_strings (f : Fields) (key : String) (values : List String) :
    (f.strings key).Yields values ↔ ListField IsText (f.get? key) values := by
  unfold strings
  cases f.get? key with
  | none => simp [ListField]
  | some node => simp [ListField, yields_readStrings]

theorem yields_list? (f : Fields) (key : String) (v : Option (List Node)) :
    (f.list? key).Yields v ↔ (f.get? key = none ∧ v = none) ∨
      ∃ items, f.get? key = some (.sequence items) ∧ v = some (items.map Node.bare) := by
  unfold list?
  split <;> rename_i hg <;> simp_all

theorem yields_values (h : Describes R read) (f : Fields) (key : String) (values : List α) :
    (f.values read key).Yields values ↔ ListField R (f.get? key) values := by
  unfold Fields.values
  simp only [Reviewed.yields_bind, yields_list?]
  constructor
  · rintro ⟨_, ⟨hg, rfl⟩ | ⟨items, hg, rfl⟩, hv⟩
    · rw [hg]
      exact (Reviewed.yields_pure _ _).mp hv
    · rw [hg]
      exact ⟨items, rfl, (yields_readItems h _ _ _ _).mp hv⟩
  · intro hl
    cases hg : f.get? key with
    | none =>
      rw [hg] at hl
      exact ⟨none, by simp, (Reviewed.yields_pure _ _).mpr hl⟩
    | some node =>
      rw [hg] at hl
      obtain ⟨items, rfl, hi⟩ := hl
      exact ⟨some (items.map Node.bare), by simp, (yields_readItems h _ _ _ _).mpr hi⟩

private theorem yields_pairsFrom (f : Fields) (seen : List String)
    (entries pairs : List (String × Node)) :
    (f.pairsFrom seen entries).Yields pairs ↔
      pairs = entries ∧ (entries.map Prod.fst).Nodup ∧ ∀ e ∈ entries, e.1 ∉ seen := by
  induction entries generalizing seen pairs with
  | nil => simp [pairsFrom]
  | cons entry rest ih =>
    rcases entry with ⟨key, node⟩
    simp only [pairsFrom]
    split
    · rename_i hs
      simp only [List.contains_iff_mem] at hs
      simp [hs]
    · rename_i hs
      simp only [List.contains_iff_mem] at hs
      simp only [Reviewed.yields_bind, Reviewed.yields_pure, ih, List.map_cons, List.nodup_cons,
        List.mem_cons, List.mem_map, not_exists, not_and, forall_eq_or_imp]
      constructor
      · rintro ⟨_, ⟨rfl, hn, hk⟩, rfl⟩
        exact ⟨rfl, ⟨fun e he hke => hk e he (Or.inl hke), hn⟩, hs,
          fun e he hm => hk e he (Or.inr hm)⟩
      · rintro ⟨rfl, ⟨hk, hn⟩, _, hm⟩
        refine ⟨rest, ⟨rfl, hn, ?_⟩, rfl⟩
        rintro e he (hke | hse)
        · exact hk e he hke
        · exact hm e he hse

theorem yields_pairs (f : Fields) (pairs : List (String × Node)) :
    f.pairs.Yields pairs ↔ pairs = f.entries ∧ (f.entries.map Prod.fst).Nodup := by
  simp [Fields.pairs, yields_pairsFrom]

end Fields

theorem Kind.ofName?_eq_some {s : String} {kind : Kind} :
    Kind.ofName? s = some kind ↔ kind.name = s := by
  constructor
  · intro h
    simpa using List.find?_some h
  · rintro rfl
    rcases kind with
      _ | _ | _ | _ | _ | _ | ⟨_ | _ | _ | _⟩ | _ | _ | _ | _ | _ | _ | _ | _ | _ <;> rfl

section Kinds

variable {kind : Kind}

theorem readShallow_of_ne (h : kind ≠ .array) (position : Position) (f : Fields) (d : String) :
    readShallow position f kind d = readLeaf f kind d := by
  cases kind <;> first | rfl | exact absurd rfl h

theorem readSchema_of_ne (h : kind ≠ .object) (f : Fields) (d : String) :
    readSchema f kind d = readLeaf f kind d := by
  cases kind <;> first | rfl | exact absurd rfl h

end Kinds

end LexiconCompiler
