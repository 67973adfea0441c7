import LexiconCompiler.Proofs.Emission.Names

set_option autoImplicit false
set_option relaxedAutoImplicit false

/-!
Guards among the declarations of a document: functions whose names start like that of a guard. No
other declaration has such a name. A guard stands behind the type that it is named for, so that its
name is repeated only after that of the type is.
-/

namespace LexiconCompiler

open LexiconCompiler.Code LexiconCompiler.Text

def Emission.isGuardName (name : String) : Bool :=
  startsWith name.toList "is".toList || startsWith name.toList "validate".toList

namespace Code.Decl

def isFunction (decl : Decl) : Bool :=
  match decl.declared with
  | .function _ => true
  | _ => false

/-- Whether a declaration is a guard or a validator. -/
def isGuard (decl : Decl) : Bool := decl.isFunction && Emission.isGuardName decl.name

end Code.Decl

namespace Emission

section Names

@[simp] theorem isGuardName_guardName (name : String) : isGuardName (guardName name) = true := by
  simp [isGuardName, guardName, startsWith]

@[simp] theorem isGuardName_validateName (name : String) :
    isGuardName (validateName name) = true := by
  simp [isGuardName, validateName, startsWith]

@[simp] theorem guardName_inj {a b : String} : guardName a = guardName b ↔ a = b := by
  simp [guardName]

@[simp] theorem validateName_inj {a b : String} : validateName a = validateName b ↔ a = b := by
  simp [validateName]

@[simp] theorem guardName_ne_validateName (a b : String) : guardName a ≠ validateName b := by
  intro h
  have hlist := congrArg String.toList h
  simp [guardName, validateName] at hlist

@[simp] theorem validateName_ne_guardName (a b : String) : validateName a ≠ guardName b :=
  (guardName_ne_validateName b a).symm

private theorem isGuardName_of_capital {name : String} {first : Char} (h : Plain name first)
    (hf : first.isLower = false) : isGuardName name = false := by
  have hfront := h.front
  cases hcs : name.toList with
  | nil => simp [isGuardName, startsWith, hcs]
  | cons c rest =>
    rw [hcs] at hfront
    obtain rfl : c = first := Option.some.inj hfront
    have hi : 'i' ≠ c := fun he => absurd hf (by simp [← he])
    have hv : 'v' ≠ c := fun he => absurd hf (by simp [← he])
    simp [isGuardName, startsWith, hcs, List.isPrefixOf, hi, hv]

end Names

section Definitions

variable {s : Scope} {definition : Definition}

private theorem isGuardName_bareDecls (hw : definition.WellFormed) {decl : Decl}
    (h : decl ∈ s.definitionDecls true definition) : isGuardName decl.name = false := by
  rcases name_of_mem_bareDecls h with hname | hname
  · obtain ⟨_, hspelled⟩ := spelled_name hw
    obtain ⟨_, hplain, hcapital, _⟩ := plain_ownName hspelled
    rw [hname]
    exact isGuardName_of_capital hplain hcapital
  · obtain ⟨_, hplain, hcapital, _⟩ := plain_of_mem_contractNames hname
    exact isGuardName_of_capital hplain hcapital

theorem isFunction_bareDecls {decl : Decl} (h : decl ∈ s.definitionDecls true definition) :
    decl.isFunction = false := by
  have htype (name : String) (doc : Documentation) (type : TypeExpr) :
      (Decl.ofType name doc type).isFunction = false := by cases type <;> rfl
  have hschema (name : String) (body : Option (Body SchemaType)) :
      ∀ decl ∈ s.schemaDecls name body, decl.isFunction = false := by
    intro decl hd
    unfold Scope.schemaDecls at hd
    split at hd
    · split at hd
      · cases hd
      · rw [List.mem_singleton.mp hd]
        exact htype ..
    · cases hd
  have hsuccess (doc : Documentation) (type : TypeExpr) :
      ∀ decl ∈ successDecls doc type, decl.isFunction = false := by
    intro decl hd
    unfold successDecls at hd
    split at hd
    · cases hd
    · rw [List.mem_singleton.mp hd]
      exact htype ..
  rcases definition with ⟨name, t⟩
  cases t with
  | method d kind contract =>
    simp only [Scope.definitionDecls, Scope.contractDecls, List.cons_append, List.append_assoc,
      List.mem_cons, List.mem_append, List.not_mem_nil, or_false] at h
    rcases h with rfl | h | h | rfl | h | rfl | rfl | rfl | rfl
    · rfl
    · exact hschema _ _ _ h
    · exact hschema _ _ _ h
    · exact htype ..
    · exact hsuccess _ _ _ h
    · rfl
    · rfl
    · rfl
    · rfl
  | _ =>
    rw [List.mem_singleton.mp h]
    rfl

private theorem isGuard_guardDecls {decl : Decl} (h : decl ∈ s.guardDecls definition) :
    decl.isGuard = true := by
  rw [Scope.guardDecls] at h
  split at h
  · simp only [List.mem_cons, List.not_mem_nil, or_false] at h
    rcases h with rfl | rfl
    · exact isGuardName_guardName _
    · exact isGuardName_validateName _
  · cases h

theorem filter_isGuard (s : Scope) (definition : Definition) :
    (s.definitionDecls false definition).filter Decl.isGuard = s.guardDecls definition := by
  have hbare : (s.definitionDecls true definition).filter Decl.isGuard = [] := by
    refine List.filter_eq_nil_iff.mpr fun decl hd => ?_
    simp [Decl.isGuard, isFunction_bareDecls hd]
  rw [Scope.definitionDecls_false, List.filter_append, hbare, List.nil_append,
    List.filter_eq_self.mpr fun decl => isGuard_guardDecls]

theorem filter_not_isGuard (s : Scope) (definition : Definition) :
    (s.definitionDecls false definition).filter (fun decl => !decl.isGuard) =
      s.definitionDecls true definition := by
  have hbare : (s.definitionDecls true definition).filter (fun decl => !decl.isGuard) =
      s.definitionDecls true definition := by
    refine List.filter_eq_self.mpr fun decl hd => ?_
    simp [Decl.isGuard, isFunction_bareDecls hd]
  have hguards : (s.guardDecls definition).filter (fun decl => !decl.isGuard) = [] := by
    refine List.filter_eq_nil_iff.mpr fun decl hd => ?_
    simp [isGuard_guardDecls hd]
  rw [Scope.definitionDecls_false, List.filter_append, hbare, hguards, List.append_nil]

end Definitions

section Repeated

/-- No guard is taken before the type that it is named for. -/
def Guarded (taken : List String) : Prop :=
  ∀ name, guardName name ∈ taken ∨ validateName name ∈ taken → name ∈ taken

/-- What a definition is named without guards, and what its guards are named. -/
structure GuardNames (bare guards : List String) : Prop where
  unlike : ∀ name ∈ bare, isGuardName name = false
  named : guards = [] ∨ ∃ name ∈ bare, guards = [guardName name, validateName name]

variable {taken bare guards : List String}

private theorem GuardNames.notMem_bare (h : GuardNames bare guards) (name : String) :
    guardName name ∉ bare ∧ validateName name ∉ bare := by
  constructor
  · intro hm
    simpa using h.unlike _ hm
  · intro hm
    simpa using h.unlike _ hm

private theorem GuardNames.fresh (h : GuardNames bare guards) (ht : Guarded taken)
    (hf : Fresh taken bare) :
    Fresh (taken ++ bare) guards := by
  rcases h.named with rfl | ⟨name, hname, rfl⟩
  · exact fresh_nil
  · obtain ⟨hguard, hvalidate⟩ := h.notMem_bare name
    have hnew := hf.2 name hname
    have hguard' : guardName name ∉ taken := fun hm => hnew (ht name (Or.inl hm))
    have hvalidate' : validateName name ∉ taken := fun hm => hnew (ht name (Or.inr hm))
    simp [fresh_cons, hguard, hguard', hvalidate, hvalidate']

private theorem GuardNames.guarded (h : GuardNames bare guards) (ht : Guarded taken) :
    Guarded (taken ++ (bare ++ guards)) := by
  intro name hm
  obtain ⟨hguard, hvalidate⟩ := h.notMem_bare name
  simp only [List.mem_append, hguard, hvalidate, false_or] at hm ⊢
  have hnew : guardName name ∈ guards ∨ validateName name ∈ guards → name ∈ bare := by
    rcases h.named with rfl | ⟨type, htype, rfl⟩
    · simp
    · have hsame : guardName name ∈ [guardName type, validateName type] ∨
          validateName name ∈ [guardName type, validateName type] → name = type := by simp
      exact fun hm => hsame hm ▸ htype
  rcases hm with (hm | hm) | (hm | hm)
  · exact Or.inl (ht name (Or.inl hm))
  · exact Or.inr (Or.inl (hnew (Or.inl hm)))
  · exact Or.inl (ht name (Or.inr hm))
  · exact Or.inr (Or.inl (hnew (Or.inr hm)))

private theorem GuardNames.filter (h : GuardNames bare guards) :
    (bare ++ guards).filter (fun name => !isGuardName name) = bare := by
  have hbare : bare.filter (fun name => !isGuardName name) = bare :=
    List.filter_eq_self.mpr fun name hn => by simp [h.unlike name hn]
  rw [List.filter_append, hbare]
  rcases h.named with rfl | ⟨name, _, rfl⟩ <;> simp

/-- Among names of definitions, the first one that is repeated is never that of a guard. -/
private theorem repeated?_of_names {α : Type} {bare guards : α → List String} {xs : List α}
    (h : ∀ x ∈ xs, GuardNames (bare x) (guards x)) (ht : Guarded taken) :
    repeated? taken (xs.flatMap fun x => bare x ++ guards x) =
      repeated? (taken.filter fun name => !isGuardName name) (xs.flatMap bare) := by
  induction xs generalizing taken with
  | nil => rfl
  | cons x rest ih =>
    rw [List.forall_mem_cons] at h
    have hbare : repeated? taken (bare x) =
        repeated? (taken.filter fun name => !isGuardName name) (bare x) :=
      repeated?_congr fun name hn => by simp [h.1.unlike name hn]
    have hrest := ih h.2 (h.1.guarded ht)
    rw [List.filter_append, h.1.filter] at hrest
    rw [List.flatMap_cons, List.flatMap_cons, repeated?_append, repeated?_append,
      repeated?_append, hrest, ← hbare]
    cases hfirst : repeated? taken (bare x) with
    | some name => rfl
    | none =>
      -- The type is new, and so are its guards.
      have hguards := repeated?_eq_none.mpr (h.1.fresh ht (repeated?_eq_none.mp hfirst))
      rw [hguards]
      rfl

private theorem names_definitionDecls {s : Scope} {definition : Definition}
    (hw : definition.WellFormed) :
    GuardNames ((s.definitionDecls true definition).map Decl.name)
      ((s.guardDecls definition).map Decl.name) where
  unlike := by
    intro name hn
    obtain ⟨decl, hd, rfl⟩ := List.mem_map.mp hn
    exact isGuardName_bareDecls hw hd
  named := by
    rcases definition with ⟨name, t⟩
    cases t with
    | record | object => exact Or.inr ⟨_, List.mem_cons_self, rfl⟩
    | _ => exact Or.inl rfl

theorem repeated?_definitionDecls {s : Scope} {defs : List Definition}
    (hw : ∀ definition ∈ defs, definition.WellFormed) :
    repeated? [] ((defs.flatMap (s.definitionDecls false)).map Decl.name) =
      repeated? [] ((defs.flatMap (s.definitionDecls true)).map Decl.name) := by
  have hparts : ∀ definition ∈ defs, GuardNames ((s.definitionDecls true definition).map Decl.name)
      ((s.guardDecls definition).map Decl.name) :=
    fun definition hd => names_definitionDecls (hw definition hd)
  have hnone : Guarded [] := fun name hm => by simp at hm
  have hnames := repeated?_of_names hparts hnone
  rw [List.filter_nil] at hnames
  simpa only [List.map_flatMap, Scope.definitionDecls_false, List.map_append] using hnames

end Repeated

end Emission

end LexiconCompiler
