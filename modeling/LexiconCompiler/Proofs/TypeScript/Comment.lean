import LexiconCompiler.TypeScript.Comment
import Mathlib.Data.List.Chain

set_option autoImplicit false
set_option relaxedAutoImplicit false

/-!
Comments end where they are meant to end. What is said in a comment is escaped line by line, and
the parts around the lines cannot end a comment together with them.
-/

namespace LexiconCompiler.TypeScript

open LexiconCompiler.Code LexiconCompiler.Text

/-- No two neighbours in a text end a comment. -/
def Unbroken (cs : List Char) : Prop := cs.IsChain fun a b => ¬ (a = '*' ∧ b = '/')

section Unbroken

variable {c : Char} {cs ds : List Char}

private theorem unbroken_nil : Unbroken [] := .nil

private theorem Unbroken.cons (h : Unbroken cs) (hseam : c = '*' -> cs.head? ≠ some '/') :
    Unbroken (c :: cs) := by
  refine List.isChain_cons.mpr ⟨?_, h⟩
  rintro b hb ⟨hc, rfl⟩
  exact hseam hc hb

private theorem Unbroken.append (h : Unbroken cs) (k : Unbroken ds)
    (hseam : cs.getLast? ≠ some '*' ∨ ds.head? ≠ some '/') : Unbroken (cs ++ ds) := by
  refine List.isChain_append.mpr ⟨h, k, ?_⟩
  rintro a ha b hb ⟨rfl, rfl⟩
  exact hseam.elim (fun hl => hl ha) fun hr => hr hb

private theorem Unbroken.not_split (h : Unbroken cs) {before after : List Char} :
    cs ≠ before ++ '*' :: '/' :: after := by
  rintro rfl
  have hpair := (List.isChain_append.mp h).2.1
  exact (List.isChain_cons_cons.mp hpair).1 ⟨rfl, rfl⟩

private theorem Unbroken.ends_once (h : Unbroken cs) {before after : List Char}
    (he : cs ++ ['*', '/'] = before ++ '*' :: '/' :: after) : after = [] := by
  have hstar : Unbroken (cs ++ ['*']) := h.append (.singleton '*') (Or.inr (by decide))
  rcases List.eq_nil_or_concat after with rfl | ⟨inner, last, rfl⟩
  · rfl
  · have hlonger : (cs ++ ['*']) ++ ['/'] = (before ++ '*' :: '/' :: inner) ++ [last] := by
      simpa using he
    exact absurd (List.append_inj_left' hlonger rfl) hstar.not_split

private theorem head?_escapeCommentList (cs : List Char) :
    (escapeCommentList cs).head? = cs.head? := by
  unfold escapeCommentList
  split <;> rfl

private theorem unbroken_escapeCommentList (cs : List Char) : Unbroken (escapeCommentList cs) := by
  fun_induction escapeCommentList cs with
  | case1 rest ih =>
    have hslash : Unbroken ('\\' :: '/' :: escapeCommentList rest) :=
      (ih.cons (by simp)).cons (by simp)
    exact hslash.cons (by simp)
  | case2 c rest hnot ih =>
    refine ih.cons fun hstar hslash => ?_
    rw [head?_escapeCommentList] at hslash
    obtain ⟨tail, rfl⟩ := List.head?_eq_some_iff.mp hslash
    exact hnot tail hstar rfl
  | case3 => exact unbroken_nil

private theorem Unbroken.lines (h : Unbroken cs) {lines : List String}
    (hlines : ∀ line ∈ lines, Unbroken line.toList ∧ line.toList.getLast? = some '\n') :
    Unbroken ((String.join lines).toList ++ cs) := by
  induction lines with
  | nil => simpa using h
  | cons line rest ih =>
    obtain ⟨⟨hline, hlast⟩, hrest⟩ := List.forall_mem_cons.mp hlines
    rw [String.join_cons, String.toList_append, List.append_assoc]
    refine hline.append (ih hrest) (Or.inl ?_)
    rw [hlast]
    decide

end Unbroken

/-- A text of the form `/** … */` and a line break, indented, whose only end of comment is the one
at its end. -/
def Enclosed (indent text : String) : Prop :=
  ∃ inner, text = indent ++ "/**" ++ inner ++ "*/" ++ "\n" ∧
    ∀ before after, "/**" ++ inner ++ "*/" = before ++ "*/" ++ after -> after = ""

section Layout

variable {cs : List Char}

private theorem enclosed_of_unbroken {indent text : String} (inner : String)
    (htext : text.toList = (indent ++ "/**" ++ inner ++ "*/" ++ "\n").toList)
    (h : Unbroken ("/**".toList ++ inner.toList)) : Enclosed indent text := by
  refine ⟨inner, String.ext htext, fun before after he => ?_⟩
  have hchars : ("/**" ++ inner).toList ++ ['*', '/'] =
      before.toList ++ '*' :: '/' :: after.toList := by
    simpa using congrArg String.toList he
  rw [← String.toList_append] at h
  exact String.toList_eq_nil_iff.mp (h.ends_once hchars)

private theorem Unbroken.opened (h : Unbroken cs) (hhead : cs.head? ≠ some '/') :
    Unbroken ("/**".toList ++ cs) := by
  have hopen : Unbroken "/**".toList := by
    unfold Unbroken
    decide
  exact hopen.append h (Or.inr hhead)

private theorem Unbroken.indented (h : Unbroken cs) (hhead : cs.head? ≠ some '/') (style : Style)
    (depth : Nat) : Unbroken ((style.indent depth).toList ++ cs) := by
  have hblanks : Unbroken (style.indent depth).toList := by
    rw [Style.indent, String.toList_ofList]
    exact List.isChain_replicate_of_rel _ (by decide)
  exact hblanks.append h (Or.inr hhead)

private theorem Unbroken.said (h : Unbroken cs) (hhead : cs.head? ≠ some '/') (line : String) :
    Unbroken (' ' :: ((escapeComment line).toList ++ cs)) := by
  rw [escapeComment, String.toList_ofList]
  exact ((unbroken_escapeCommentList _).append h (Or.inr hhead)).cons (by simp)

private theorem unbroken_commentLine (style : Style) (depth : Nat) (line : String) :
    Unbroken (commentLine (style.indent depth) line).toList := by
  have hbreak : Unbroken ['\n'] := .singleton _
  unfold commentLine
  by_cases hempty : line.isEmpty = true
  · have hstar : Unbroken [' ', '*', '\n'] := (hbreak.cons (by decide)).cons (by decide)
    simpa [hempty] using hstar.indented (by decide) style depth
  · have hsaid := (hbreak.said (by decide) line).cons (c := '*') (by simp)
    simpa [hempty] using (hsaid.cons (c := ' ') (by simp)).indented (by simp) style depth

private theorem getLast?_commentLine (indent line : String) :
    (commentLine indent line).toList.getLast? = some '\n' := by
  rw [commentLine, String.toList_append]
  exact List.getLast?_concat

private theorem enclosed_line (indent line : String) :
    Enclosed indent (indent ++ "/** " ++ escapeComment line ++ " */\n") := by
  have hblank : Unbroken [' '] := .singleton _
  refine enclosed_of_unbroken (" " ++ escapeComment line ++ " ") (by simp) ?_
  simpa using (hblank.said (by decide) line).opened (by simp)

private theorem enclosed_lines (style : Style) (depth : Nat) (lines : List String) :
    Enclosed (style.indent depth)
      (style.indent depth ++ "/**\n" ++
        String.join (lines.map (commentLine (style.indent depth))) ++ style.indent depth ++
          " */\n") := by
  have hblank : Unbroken [' '] := .singleton _
  have hlines : ∀ line ∈ lines.map (commentLine (style.indent depth)),
      Unbroken line.toList ∧ line.toList.getLast? = some '\n' := by
    rw [List.forall_mem_map]
    exact fun line _ => ⟨unbroken_commentLine style depth line, getLast?_commentLine _ line⟩
  have hsaid := ((hblank.indented (by decide) style depth).lines hlines).cons (c := '\n') (by simp)
  refine enclosed_of_unbroken
    ("\n" ++ String.join (lines.map (commentLine (style.indent depth))) ++
      style.indent depth ++ " ") (by simp) ?_
  simpa using hsaid.opened (by simp)

/-- A comment is enclosed, whatever is said in it. -/
theorem comment_enclosed (style : Style) (doc : Documentation) (depth : Nat) :
    comment style doc depth = "" ∨ Enclosed (style.indent depth) (comment style doc depth) := by
  unfold comment
  split
  · exact Or.inl rfl
  · refine Or.inr ?_
    split
    · exact enclosed_line _ _
    · exact enclosed_lines style depth _

end Layout

@[simp] theorem comment_none (style : Style) (depth : Nat) :
    comment style Documentation.none depth = "" := by
  have hzero : Documentation.none.isZero = true := rfl
  simp [comment, hzero]

/-- The second text is the first with comments added, each of them at the start of a line. The flag
says whether the texts begin on a line of their own. -/
inductive Commented (style : Style) : Bool -> List Char -> List Char -> Prop
  | nil {starts : Bool} : Commented style starts [] []
  | char {starts : Bool} {c : Char} {plain full : List Char} :
      Commented style (c == '\n') plain full -> Commented style starts (c :: plain) (c :: full)
  | comment {depth : Nat} {text : String} {plain full : List Char} :
      Enclosed (style.indent depth) text -> Commented style true plain full ->
      Commented style true plain (text.toList ++ full)

/-- Whether a line starts behind a text. -/
def startsAfter (starts : Bool) (cs : List Char) : Bool := cs.foldl (fun _ c => c == '\n') starts

section Commented

variable {style : Style} {starts : Bool} {plain full others more : List Char}

theorem Commented.refl (cs : List Char) : Commented style starts cs cs := by
  induction cs generalizing starts with
  | nil => exact .nil
  | cons c rest ih => exact .char ih

theorem Commented.anywhere (h : Commented style false plain full) :
    Commented style starts plain full := by
  cases h with
  | nil => exact .nil
  | char h => exact .char h

theorem Commented.append (h : Commented style starts plain full)
    (k : Commented style (startsAfter starts plain) others more) :
    Commented style starts (plain ++ others) (full ++ more) := by
  induction h with
  | nil => exact k
  | char _ ih => exact .char (ih k)
  | comment htext _ ih =>
    rw [List.append_assoc]
    exact .comment htext (ih k)

end Commented

end LexiconCompiler.TypeScript
