import LexiconCompiler.Proofs.Text.Distinct

set_option autoImplicit false
set_option relaxedAutoImplicit false

/-!
Texts cut into pieces and put together again, and the pieces that are left when empty ones are
dropped.
-/

namespace LexiconCompiler.Text

-- The equations are derived here, once for all the proofs that rewrite with them.
attribute [grind =] splitList joinWith fieldsList cutList

theorem mem_splitList (separator : Char) {c : Char} {cs : List Char} (h : c ∈ cs) :
    c = separator ∨ ∃ piece ∈ splitList separator cs, c ∈ piece := by
  induction cs with
  | nil => cases h
  | cons d rest ih =>
    simp only [splitList]
    split
    · rename_i hd
      rcases List.mem_cons.mp h with rfl | h
      · exact Or.inl (eq_of_beq hd)
      · rcases ih h with hs | ⟨piece, hp, hc⟩
        · exact Or.inl hs
        · exact Or.inr ⟨piece, List.mem_cons_of_mem _ hp, hc⟩
    · split
      · rename_i hnil
        rcases List.mem_cons.mp h with rfl | h
        · exact Or.inr ⟨[c], by simp, by simp⟩
        · rcases ih h with hs | ⟨piece, hp, hc⟩
          · exact Or.inl hs
          · simp [hnil] at hp
      · rename_i piece pieces hcons
        rcases List.mem_cons.mp h with rfl | h
        · exact Or.inr ⟨c :: piece, by simp, by simp⟩
        · rcases ih h with hs | ⟨other, hp, hc⟩
          · exact Or.inl hs
          · rw [hcons, List.mem_cons] at hp
            rcases hp with rfl | hp
            · exact Or.inr ⟨d :: other, by simp, List.mem_cons_of_mem _ hc⟩
            · exact Or.inr ⟨other, List.mem_cons_of_mem _ hp, hc⟩

theorem splitList_ne_nil (separator : Char) (cs : List Char) : splitList separator cs ≠ [] := by
  cases cs with
  | nil => exact List.cons_ne_nil _ _
  | cons c rest =>
    simp only [splitList]
    split
    · exact List.cons_ne_nil _ _
    · split <;> exact List.cons_ne_nil _ _

theorem joinWith_cons (separator piece : String) {pieces : List String} (h : pieces ≠ []) :
    joinWith separator (piece :: pieces) = piece ++ separator ++ joinWith separator pieces := by
  cases pieces with
  | nil => exact absurd rfl h
  | cons next rest => rfl

theorem joinWith_split (separator : Char) (s : String) :
    joinWith (String.singleton separator) (split separator s) = s := by
  have hlist (cs : List Char) :
      joinWith (String.singleton separator) ((splitList separator cs).map String.ofList) =
        String.ofList cs := by
    induction cs with
    | nil => rfl
    | cons c rest ih =>
      have hne : (splitList separator rest).map String.ofList ≠ [] := by
        simpa using splitList_ne_nil separator rest
      simp only [splitList]
      split
      · rename_i hc
        obtain rfl := eq_of_beq hc
        rw [List.map_cons, joinWith_cons _ _ hne, ih]
        apply String.ext
        simp
      · cases hp : splitList separator rest with
        | nil => exact absurd hp (splitList_ne_nil separator rest)
        | cons piece pieces =>
          rw [hp] at ih
          cases pieces with
          | nil =>
            have hpiece : piece = rest := by
              simpa [joinWith] using congrArg String.toList ih
            simp [joinWith, hpiece]
          | cons next others =>
            simp only [List.map_cons] at ih ⊢
            rw [joinWith_cons _ _ (List.cons_ne_nil _ _)] at ih ⊢
            have hchars := congrArg String.toList ih
            apply String.ext
            simpa using hchars
  rw [split, hlist, String.ofList_toList]

theorem dropLast_append_getLastD {α : Type} {xs : List α} (h : xs ≠ []) (default : α) :
    xs.dropLast ++ [xs.getLastD default] = xs := by
  have hlast : xs.getLastD default = xs.getLast h := by
    rw [List.getLastD_eq_getLast?, List.getLast?_eq_some_getLast h]
    rfl
  rw [hlast]
  exact List.dropLast_append_getLast h

theorem getLastD_mem {α : Type} {xs : List α} (h : xs ≠ []) (default : α) :
    xs.getLastD default ∈ xs := by
  have hlast : xs.getLastD default ∈ xs.dropLast ++ [xs.getLastD default] := by simp
  rwa [dropLast_append_getLastD h] at hlast

theorem joinWith_append_single (separator : String) {pieces : List String} (h : pieces ≠ [])
    (piece : String) :
    joinWith separator (pieces ++ [piece]) = joinWith separator pieces ++ separator ++ piece := by
  induction pieces with
  | nil => exact absurd rfl h
  | cons first rest ih =>
    by_cases hrest : rest = []
    · subst hrest
      rfl
    · have happend : rest ++ [piece] ≠ [] := by simp
      rw [List.cons_append, joinWith_cons _ _ happend, joinWith_cons _ _ hrest, ih hrest]
      simp only [String.append_assoc]

theorem joinWith_append (separator : String) {front back : List String} (hfront : front ≠ [])
    (hback : back ≠ []) :
    joinWith separator (front ++ back) =
      joinWith separator front ++ separator ++ joinWith separator back := by
  induction front with
  | nil => exact absurd rfl hfront
  | cons first rest ih =>
    by_cases hrest : rest = []
    · subst hrest
      exact joinWith_cons separator first hback
    · have happend : rest ++ back ≠ [] := by simp [hrest]
      rw [List.cons_append, joinWith_cons _ _ happend, joinWith_cons _ _ hrest, ih hrest]
      simp only [String.append_assoc]

theorem separator_notMem_splitList (separator : Char) (cs : List Char) :
    ∀ piece ∈ splitList separator cs, separator ∉ piece := by
  induction cs with
  | nil => simp [splitList]
  | cons c rest ih =>
    simp only [splitList]
    split
    · exact List.forall_mem_cons.mpr ⟨List.not_mem_nil, ih⟩
    · rename_i hc
      have hc : separator ≠ c := fun he => hc (beq_iff_eq.mpr he.symm)
      split
      · simpa using hc
      · rename_i piece pieces hcons
        rw [hcons, List.forall_mem_cons] at ih
        refine List.forall_mem_cons.mpr ⟨?_, ih.2⟩
        rw [List.mem_cons, not_or]
        exact ⟨hc, ih.1⟩

theorem splitList_of_notMem {separator : Char} {cs : List Char} (h : separator ∉ cs) :
    splitList separator cs = [cs] := by
  induction cs with
  | nil => rfl
  | cons c rest ih =>
    rw [List.mem_cons, not_or] at h
    have hc : (c == separator) = false := by simpa using fun he => h.1 he.symm
    simp [splitList, hc, ih h.2]

private theorem splitList_append {separator : Char} {front : List Char} (h : separator ∉ front)
    (back : List Char) :
    splitList separator (front ++ separator :: back) = front :: splitList separator back := by
  induction front with
  | nil => simp [splitList]
  | cons c rest ih =>
    rw [List.mem_cons, not_or] at h
    have hc : (c == separator) = false := by simpa using fun he => h.1 he.symm
    simp [splitList, hc, ih h.2]

theorem splitList_append_append (separator : Char) (front back : List Char) :
    splitList separator (front ++ separator :: back) =
      splitList separator front ++ splitList separator back := by
  induction front with
  | nil => simp [splitList]
  | cons c rest ih =>
    rw [List.cons_append, splitList, splitList, ih]
    split
    · rfl
    · cases hp : splitList separator rest with
      | nil => exact absurd hp (splitList_ne_nil separator rest)
      | cons piece pieces => rfl

theorem split_joinWith {separator : Char} {pieces : List String} (hne : pieces ≠ [])
    (h : ∀ piece ∈ pieces, separator ∉ piece.toList) :
    split separator (joinWith (String.singleton separator) pieces) = pieces := by
  induction pieces with
  | nil => exact absurd rfl hne
  | cons piece rest ih =>
    rw [List.forall_mem_cons] at h
    by_cases hrest : rest = []
    · subst hrest
      simp [split, joinWith, splitList_of_notMem h.1]
    · have hlist : (joinWith (String.singleton separator) (piece :: rest)).toList =
          piece.toList ++ separator :: (joinWith (String.singleton separator) rest).toList := by
        rw [joinWith_cons _ _ hrest]
        simp
      have hback := ih hrest h.2
      rw [split] at hback
      rw [split, hlist, splitList_append h.1, List.map_cons, hback, String.ofList_toList]

theorem cutList_eq_none {mark : Char} {cs : List Char} (h : mark ∉ cs) :
    cutList mark cs = none := by
  induction cs with
  | nil => rfl
  | cons c rest ih =>
    rw [List.mem_cons, not_or] at h
    have hc : (c == mark) = false := by simpa using fun he => h.1 he.symm
    simp [cutList, hc, ih h.2]

theorem cutList_append {mark : Char} {before : List Char} (h : mark ∉ before) (after : List Char) :
    cutList mark (before ++ mark :: after) = some (before, after) := by
  induction before with
  | nil => simp [cutList]
  | cons c rest ih =>
    rw [List.mem_cons, not_or] at h
    have hc : (c == mark) = false := by simpa using fun he => h.1 he.symm
    simp [cutList, hc, ih h.2]

theorem eq_of_cutList {mark : Char} {cs before after : List Char}
    (h : cutList mark cs = some (before, after)) : cs = before ++ mark :: after := by
  induction cs generalizing before with
  | nil => cases h
  | cons c rest ih =>
    rw [cutList] at h
    split at h
    · rename_i hc
      obtain ⟨rfl, rfl⟩ := Prod.mk.inj (Option.some.inj h)
      rw [eq_of_beq hc, List.nil_append]
    · obtain ⟨⟨front, back⟩, hcut, he⟩ := Option.map_eq_some_iff.mp h
      obtain ⟨rfl, rfl⟩ := Prod.mk.inj he
      rw [ih hcut, List.cons_append]

theorem mem_intercalate {α : Type} {separator : List α} {xs : List (List α)} {a : α}
    (h : a ∈ separator.intercalate xs) : a ∈ separator ∨ ∃ x ∈ xs, a ∈ x := by
  induction xs with
  | nil => simp at h
  | cons x rest ih =>
    cases rest with
    | nil => exact Or.inr ⟨x, by simp, by simpa using h⟩
    | cons next rest =>
      rw [List.intercalate_cons_cons, List.mem_append, List.mem_append] at h
      rcases h with (h | h) | h
      · exact Or.inr ⟨x, List.mem_cons_self, h⟩
      · exact Or.inl h
      · rcases ih h with h | ⟨y, hy, ha⟩
        · exact Or.inl h
        · exact Or.inr ⟨y, List.mem_cons_of_mem x hy, ha⟩

theorem head?_intercalate {α : Type} (separator : List α) {x : List α} (h : x ≠ [])
    (xs : List (List α)) : (separator.intercalate (x :: xs)).head? = x.head? := by
  cases xs with
  | nil => simp
  | cons y rest =>
    rw [List.intercalate_cons_cons, List.append_assoc, List.head?_append_of_ne_nil x h]

section Fields

variable {isSeparator : Char → Bool} {c : Char}

private theorem fieldsList_cons_of_separator (h : isSeparator c = true) (rest : List Char) :
    fieldsList isSeparator (c :: rest) = fieldsList isSeparator rest := by
  cases rest <;> simp [fieldsList, h]

private theorem fieldsList_cons_cons (h : isSeparator c = false) (next : Char) (rest : List Char) :
    fieldsList isSeparator (c :: next :: rest) =
      if isSeparator next then [c] :: fieldsList isSeparator (next :: rest)
      else match fieldsList isSeparator (next :: rest) with
        | [] => [[c]]
        | piece :: pieces => (c :: piece) :: pieces := by
  rw [fieldsList]
  exact if_neg (by simp [h])

theorem exists_fieldsList_cons (h : isSeparator c = false) (rest : List Char) :
    ∃ piece pieces, fieldsList isSeparator (c :: rest) = (c :: piece) :: pieces := by
  cases rest with
  | nil => exact ⟨[], [], by simp [fieldsList, h]⟩
  | cons next rest =>
    rw [fieldsList_cons_cons h]
    split
    · exact ⟨[], _, rfl⟩
    · split
      · exact ⟨[], [], rfl⟩
      · exact ⟨_, _, rfl⟩

theorem fieldsList_append {separator : Char} (h : isSeparator separator = true)
    (front back : List Char) :
    fieldsList isSeparator (front ++ separator :: back) =
      fieldsList isSeparator front ++ fieldsList isSeparator back := by
  induction front with
  | nil => rw [List.nil_append, fieldsList_cons_of_separator h, fieldsList, List.nil_append]
  | cons c rest ih =>
    cases hc : isSeparator c with
    | true =>
      rw [List.cons_append, fieldsList_cons_of_separator hc, fieldsList_cons_of_separator hc, ih]
    | false =>
      cases rest with
      | nil =>
        rw [List.cons_append, List.nil_append, fieldsList_cons_cons hc, if_pos h,
          fieldsList_cons_of_separator h]
        simp [fieldsList, hc]
      | cons next rest =>
        rw [List.cons_append, List.cons_append, fieldsList_cons_cons hc, fieldsList_cons_cons hc]
        rw [List.cons_append] at ih
        cases hn : isSeparator next with
        | true => simp [ih]
        | false =>
          obtain ⟨piece, pieces, hp⟩ := exists_fieldsList_cons hn rest
          simp [ih, hp]

theorem mem_fieldsList {cs piece : List Char} (h : piece ∈ fieldsList isSeparator cs) :
    ∀ c ∈ piece, c ∈ cs ∧ isSeparator c = false := by
  induction cs generalizing piece with
  | nil => simp [fieldsList] at h
  | cons c rest ih =>
    have hrest (piece : List Char) (hp : piece ∈ fieldsList isSeparator rest) :
        ∀ d ∈ piece, d ∈ c :: rest ∧ isSeparator d = false := by
      intro d hd
      obtain ⟨hmem, hsep⟩ := ih hp d hd
      exact ⟨List.mem_cons_of_mem c hmem, hsep⟩
    cases hc : isSeparator c with
    | true =>
      rw [fieldsList_cons_of_separator hc] at h
      exact hrest piece h
    | false =>
      have hself : c ∈ c :: rest ∧ isSeparator c = false := ⟨List.mem_cons_self, hc⟩
      cases rest with
      | nil =>
        obtain rfl : piece = [c] := by simpa [fieldsList, hc] using h
        simpa using hc
      | cons next rest =>
        rw [fieldsList_cons_cons hc] at h
        cases hn : isSeparator next with
        | true =>
          rw [if_pos hn, List.mem_cons] at h
          rcases h with rfl | h
          · simpa using hc
          · exact hrest piece h
        | false =>
          obtain ⟨first, pieces, hp⟩ := exists_fieldsList_cons hn rest
          rw [hp, List.forall_mem_cons] at hrest
          rw [if_neg (by simp [hn]), hp] at h
          rcases List.mem_cons.mp h with rfl | h
          · exact List.forall_mem_cons.mpr ⟨hself, hrest.1⟩
          · exact hrest.2 piece h

end Fields

end LexiconCompiler.Text
