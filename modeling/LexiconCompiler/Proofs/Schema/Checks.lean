import LexiconCompiler.Proofs.Schema.WellFormed
import LexiconCompiler.Schema.Consistency

set_option autoImplicit false
set_option relaxedAutoImplicit false

/-!
The checks of a document that could be read find nothing exactly if its names, references and media
types are proper and its fields fit together, at every depth.
-/

namespace LexiconCompiler

open LexiconCompiler.Text

private theorem requireText_eq_nil (path text : String) : requireText path text =
    [] ↔ text ≠ "" := by
  unfold requireText
  split <;> rename_i h <;> simpa using h

private theorem requireName_eq_nil (path name : String) :
    requireName path name = [] ↔ isAlnumWord name = true := by
  unfold requireName
  split
  · rename_i h
    simp [isAlnumWord, h]
  · split <;> rename_i h <;> simp [h]

private theorem requirePattern_eq_nil (path pattern : String) :
    requirePattern path pattern = [] ↔ Mime.isPattern pattern = true := by
  unfold requirePattern
  split <;> rename_i h <;> simp [h]

private theorem requireError_eq_nil (path : String) (error : NamedError) :
    requireError path error = [] ↔ isAlnumWord error.name = true :=
  requireName_eq_nil (path ++ ".name") error.name

private theorem requireEach_eq_nil {α : Type} {rule : String → α → List Issue} {P : α → Prop}
    (h : ∀ place entry, rule place entry = [] ↔ P entry) (path : String) (index : Nat)
    (entries : List α) : requireEach rule path index entries = [] ↔ ∀ entry ∈ entries, P entry := by
  induction entries generalizing index with
  | nil => simp [requireEach]
  | cons entry rest ih => simp [requireEach, h, ih]

private theorem requireRefs_eq_nil (path : String) (refs : List String) :
    requireRefs path refs = [] ↔ refs ≠ [] ∧ ∀ ref ∈ refs, ref ≠ "" := by
  unfold requireRefs
  split
  · rename_i h
    simp [List.isEmpty_iff.mp h]
  · rename_i h
    rw [requireEach_eq_nil requireText_eq_nil]
    exact (and_iff_right (by simpa using h)).symm

section Parts

variable {Q : SchemaType → Prop}

private theorem propertyIssues_eq_nil {properties : List (Property SchemaType)}
    (h : ∀ p ∈ properties, ∀ path, p.type.ruleIssues path = [] ↔ Q p.type) (path : String)
    (index : Nat) :
    propertyIssues properties path index = [] ↔
      (∀ p ∈ properties, p.name ≠ "") ∧ ∀ p ∈ properties, Q p.type := by
  induction properties generalizing index with
  | nil => simp [propertyIssues]
  | cons p rest ih =>
    have hp := h p List.mem_cons_self
    have hrest := ih fun q hq => h q (List.mem_cons_of_mem p hq)
    simp only [propertyIssues, List.append_eq_nil_iff, requireText_eq_nil, hp, hrest,
      List.forall_mem_cons]
    tauto

private theorem bodyIssues_eq_nil {body : Option (Body SchemaType)}
    (h : ∀ b, body = some b → ∀ s, b.schema = some s → ∀ path, s.ruleIssues path = [] ↔ Q s)
    (path : String) :
    bodyIssues body path = [] ↔
      (∀ b, body = some b → ∀ value ∈ b.encoding.values, Mime.isPattern value = true) ∧
        ∀ b, body = some b → ∀ s, b.schema = some s → Q s := by
  rcases body with _ | ⟨d, encoding, schema⟩
  · simp [bodyIssues]
  · have hs := h _ rfl
    simp only [bodyIssues, List.append_eq_nil_iff, requireEach_eq_nil requirePattern_eq_nil,
      Option.some.injEq, forall_eq']
    refine and_congr_right fun _ => ?_
    cases schema with
    | none => simp [schemaIssues]
    | some s => simp [schemaIssues, hs s rfl]

private theorem objectIssues_eq_nil {o : ObjectType SchemaType}
    (h : ∀ u, SchemaType.Part u (.object o) → ∀ path, u.ruleIssues path = [] ↔ Q u)
    (path : String) :
    objectIssues o path = [] ↔
      (SchemaType.object o).Named ∧ ∀ u, SchemaType.Part u (.object o) → Q u := by
  rcases o with ⟨d, required, properties, params⟩
  have hp : ∀ p ∈ properties, ∀ path, p.type.ruleIssues path = [] ↔ Q p.type :=
    fun p hp => h p.type (.property hp)
  rw [objectIssues, List.append_eq_nil_iff, requireEach_eq_nil requireText_eq_nil,
    propertyIssues_eq_nil hp]
  simp only [SchemaType.part_object, forall_exists_index, and_imp, forall_apply_eq_imp_iff₂]
  exact (and_assoc (c := ∀ p ∈ properties, Q p.type)).symm

private theorem methodIssues_eq_nil {d : String} {k : MethodKind} {m : Method SchemaType}
    (h : ∀ u, SchemaType.Part u (.method d k m) → ∀ path, u.ruleIssues path = [] ↔ Q u)
    (path : String) :
    (SchemaType.method d k m).ruleIssues path = [] ↔
      m.Named ∧ ∀ u, SchemaType.Part u (.method d k m) → Q u := by
  have hinput := bodyIssues_eq_nil (fun b hb s hs => h s (.input hb hs)) (path ++ ".input")
  have houtput := bodyIssues_eq_nil (fun b hb s hs => h s (.output hb hs)) (path ++ ".output")
  have hparameters : parameterIssues m.parameters (path ++ ".parameters") = [] ↔
      ∀ o, m.parameters = some o → Q (.object o) := by
    cases hm : m.parameters with
    | none => simp [parameterIssues]
    | some o =>
      have ho := h (.object o) (.parameters hm) (path ++ ".parameters")
      rw [SchemaType.ruleIssues] at ho
      simp [parameterIssues, ho]
  rcases m with ⟨parameters, input, output, errors⟩
  simp only [SchemaType.ruleIssues, List.append_eq_nil_iff, hparameters, hinput, houtput,
    requireEach_eq_nil requireError_eq_nil]
  constructor
  · rintro ⟨⟨⟨hp, hi, his⟩, ho, hos⟩, he⟩
    refine ⟨⟨Method.forall_bodies.mpr ⟨hi, ho⟩, he⟩, fun u hu => ?_⟩
    rcases SchemaType.part_method.mp hu with ⟨o, ho, rfl⟩ | ⟨b, hb, hs⟩ | ⟨b, hb, hs⟩
    · exact hp o ho
    · exact his b hb u hs
    · exact hos b hb u hs
  · rintro ⟨hm, hu⟩
    obtain ⟨hi, ho⟩ := Method.forall_bodies.mp hm.encodings
    exact ⟨⟨⟨fun o h => hu _ (.parameters h), hi, fun b h s hs => hu s (.input h hs)⟩, ho,
      fun b h s hs => hu s (.output h hs)⟩, hm.errors⟩

private theorem leafIssues_eq_nil {s : SchemaType} (hs : s.IsLeaf) (path : String) :
    s.ruleIssues path = [] ↔ s.Named := by
  cases s with
  | blob d rules => exact requireEach_eq_nil requirePattern_eq_nil _ _ _
  | ref d target => exact requireText_eq_nil _ _
  | union d targets => exact requireRefs_eq_nil _ _
  | array | object | record | method => exact hs.elim
  | _ => exact iff_of_true rfl trivial

private theorem ruleIssues_of_parts {s : SchemaType}
    (h : ∀ u, SchemaType.Part u s → ∀ path, u.ruleIssues path = [] ↔ Q u) (path : String) :
    s.ruleIssues path = [] ↔ s.Named ∧ ∀ u, SchemaType.Part u s → Q u := by
  cases s with
  | array d items least most =>
    rw [SchemaType.ruleIssues, h items .items]
    simp only [SchemaType.Named, SchemaType.part_array, forall_eq, true_and]
  | object o => exact objectIssues_eq_nil h path
  | record d key payload =>
    have hp := h (.object payload) .payload (path ++ ".record")
    simp only [SchemaType.ruleIssues] at hp ⊢
    rw [hp]
    simp only [SchemaType.Named, SchemaType.part_record, forall_eq, true_and]
  | method d k m => exact methodIssues_eq_nil h path
  | _ =>
    refine (leafIssues_eq_nil ?_ path).trans
      (and_iff_left fun u hu => (SchemaType.IsLeaf.not_part ?_ hu).elim).symm <;> trivial

end Parts

private theorem SchemaType.ruleIssues_eq_nil (s : SchemaType) (path : String) :
    s.ruleIssues path = [] ↔ ∀ t : SchemaType, t.Inside s → t.Named := by
  induction s using SchemaType.induction_parts generalizing path with
  | step s ih =>
    rw [forall_inside_iff]
    exact ruleIssues_of_parts ih path

section Comparisons

variable {α : Type}

private theorem boundIssues_eq_nil {exceeds : α → α → Bool} {shown : α → String} {le : α → α → Prop}
    (h : ∀ a b, exceeds a b = false ↔ le a b) (path low high : String) (least most : Option α) :
    boundIssues exceeds shown path low high least most = [] ↔ Ordered le least most := by
  rcases least with _ | a
  · simp [boundIssues, Ordered]
  · rcases most with _ | b
    · simp [boundIssues, Ordered]
    · simp [boundIssues, Ordered, ← h]

private theorem choiceIssues_eq_nil {same : α → α → Bool} {shown : α → String} {eq : α → α → Prop}
    (h : ∀ a b, same a b = true ↔ eq a b) (path field : String) (enum : List α) (value : Option α) :
    choiceIssues same shown path field enum value = [] ↔ Chosen eq enum value := by
  rcases value with _ | v
  · simp [choiceIssues, Chosen]
  · simp [choiceIssues, Chosen, ← h, or_iff_not_imp_left]

private theorem numericIssues_eq_nil {exceeds same : α → α → Bool} {shown : α → String}
    {le eq : α → α → Prop} (hle : ∀ a b, exceeds a b = false ↔ le a b)
    (heq : ∀ a b, same a b = true ↔ eq a b) (path : String) (rules : NumericRules α) :
    numericIssues exceeds same shown path rules = [] ↔ rules.Coherent le eq := by
  simp only [numericIssues, List.append_eq_nil_iff, boundIssues_eq_nil hle,
    choiceIssues_eq_nil heq]
  exact ⟨fun ⟨⟨hb, hc⟩, hd⟩ => ⟨hb, hc, hd⟩, fun ⟨hb, hc, hd⟩ => ⟨⟨hb, hc⟩, hd⟩⟩

end Comparisons

private theorem lengthIssues_eq_nil (path : String) (least most : Option Nat) :
    lengthIssues path least most = [] ↔ Ordered (· ≤ ·) least most :=
  boundIssues_eq_nil (by simp) path "minLength" "maxLength" least most

private theorem requiredIssues_eq_nil (o : ObjectType SchemaType) (path : String) :
    requiredIssues o path = [] ↔ o.RequiresDeclared := by
  unfold requiredIssues
  refine requireEach_eq_nil (fun place name => ?_) _ _ _
  simp [ObjectType.property?, List.find?_isSome]

private theorem Visit.issues_eq_nil (visit : Visit) : visit.issues = [] ↔ visit.type.Coherent := by
  rcases visit with ⟨type, path⟩
  cases type with
  | integer d rules => exact numericIssues_eq_nil (by simp) (by simp) path rules
  | number d rules => exact numericIssues_eq_nil (by simp) (by simp) path rules
  | string d rules =>
    have hsame : ∀ a b : String, (a == b) = true ↔ a = b := by simp
    simp only [Visit.issues, List.append_eq_nil_iff, lengthIssues_eq_nil,
      choiceIssues_eq_nil hsame]
    exact ⟨fun ⟨⟨hb, hc⟩, hd⟩ => ⟨hb, hc, hd⟩, fun ⟨hb, hc, hd⟩ => ⟨⟨hb, hc⟩, hd⟩⟩
  | array d items least most => exact lengthIssues_eq_nil path least most
  | object o => exact requiredIssues_eq_nil o path
  | _ => simp [Visit.issues, SchemaType.Coherent]

private theorem SchemaType.visits_issues_eq_nil (s : SchemaType) (path : String) :
    (s.visits path).flatMap Visit.issues = [] ↔ ∀ t : SchemaType, t.Inside s → t.Coherent := by
  simp only [List.flatMap_eq_nil_iff, Visit.issues_eq_nil]
  constructor
  · intro h t ht
    obtain ⟨visit, hv, rfl⟩ := (mem_visits s t path).mpr ht
    exact h visit hv
  · intro h visit hv
    exact h visit.type ((mem_visits s visit.type path).mp ⟨visit, hv, rfl⟩)

private theorem SchemaType.isPrimary_kind (t : SchemaType) :
    t.kind.isPrimary = true ↔ t.IsPrincipal := by
  cases t with
  | object o =>
    cases hp : o.params <;> simp [kind, ObjectType.kind, hp, Kind.isPrimary, IsPrincipal]
  | method d k m => cases k <;> simp [kind, MethodKind.kind, Kind.isPrimary, IsPrincipal]
  | _ => simp [kind, Kind.isPrimary, IsPrincipal]

/-- What the checks establish of a definition. -/
structure Definition.Checked (definition : Definition) : Prop where
  name : isAlnumWord definition.name = true
  placed : definition.type.IsPrincipal → definition.name = mainDef
  named : ∀ t : SchemaType, t.Inside definition.type → t.Named
  coherent : ∀ t : SchemaType, t.Inside definition.type → t.Coherent

private theorem Draft.headerIssues_eq_nil (d : Draft) :
    d.headerIssues = [] ↔ d.version = 1 ∧ Nsid.isValid d.id = true ∧ d.defs ≠ [] := by
  have hempty : Nsid.isValid "" = false := by decide
  have hversion : (if d.version == 1 then []
      else [(⟨"lexicon", "unsupported value", "1", toString d.version⟩ : Issue)]) = [] ↔
      d.version = 1 := by
    split <;> simp_all
  have hid : (if d.id.isEmpty then [(⟨"id", "required", "", d.id⟩ : Issue)]
      else if Nsid.isValid d.id then []
      else [⟨"id", "invalid NSID", "dotted authority and name", d.id⟩]) = [] ↔
      Nsid.isValid d.id = true := by
    split
    · rename_i h
      simp [String.isEmpty_iff.mp h, hempty]
    · split <;> simp_all
  unfold Draft.headerIssues
  rw [List.append_eq_nil_iff, List.append_eq_nil_iff, hversion, hid, and_assoc]
  split <;> simp_all

/-- The checks of a document find nothing exactly if its header is in order and the checks of each
definition find nothing. -/
theorem Draft.check_issues_eq_nil (d : Draft) :
    d.check.issues = [] ↔ d.version = 1 ∧ Nsid.isValid d.id = true ∧ d.defs ≠ [] ∧
      ∀ definition ∈ d.defs, definition.Checked := by
  have hname (definition : Definition) : definition.ruleIssues = [] ↔
      isAlnumWord definition.name = true ∧
        ∀ t : SchemaType, t.Inside definition.type → t.Named := by
    rw [Definition.ruleIssues, List.append_eq_nil_iff, requireName_eq_nil,
      SchemaType.ruleIssues_eq_nil]
  have hplace : d.placementIssues = [] ↔
      ∀ definition ∈ d.defs, definition.type.IsPrincipal → definition.name = mainDef := by
    simp only [Draft.placementIssues, List.flatMap_eq_nil_iff, ← SchemaType.isPrimary_kind]
    refine forall₂_congr fun definition _ => ?_
    cases hk : definition.type.kind.isPrimary with
    | true => simp
    | false => simp
  have hwalk : d.visits.flatMap Visit.issues = [] ↔
      ∀ definition ∈ d.defs, ∀ t : SchemaType, t.Inside definition.type → t.Coherent := by
    rw [Draft.visits, List.flatMap_assoc, List.flatMap_eq_nil_iff]
    exact forall₂_congr fun definition _ => SchemaType.visits_issues_eq_nil _ _
  have hchecked : (∀ definition ∈ d.defs, definition.Checked) ↔
      (∀ definition ∈ d.defs, definition.ruleIssues = []) ∧ d.placementIssues = [] ∧
        d.visits.flatMap Visit.issues = [] := by
    rw [hplace, hwalk]
    constructor
    · intro h
      exact ⟨fun x hx => (hname x).mpr ⟨(h x hx).name, (h x hx).named⟩,
        fun x hx => (h x hx).placed, fun x hx => (h x hx).coherent⟩
    · rintro ⟨hn, hp, hw⟩ x hx
      obtain ⟨hxn, hxt⟩ := (hname x).mp (hn x hx)
      exact ⟨hxn, hp x hx, hxt, hw x hx⟩
  rw [hchecked, Draft.check, List.append_eq_nil_iff, List.append_eq_nil_iff, Draft.ruleIssues,
    List.append_eq_nil_iff, List.flatMap_eq_nil_iff, Draft.headerIssues_eq_nil]
  tauto

end LexiconCompiler
