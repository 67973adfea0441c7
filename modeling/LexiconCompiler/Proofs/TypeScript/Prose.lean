import LexiconCompiler.Proofs.Code.Prose
import LexiconCompiler.Proofs.Outcome
import LexiconCompiler.Proofs.TypeScript.Comment
import LexiconCompiler.TypeScript.Printer

set_option autoImplicit false
set_option relaxedAutoImplicit false

/-!
Prose in files. What a unit says in prose changes neither whether the unit can be written nor
anything in its file but the comments: the file with prose is the file without it, with comments
added at starts of lines.
-/

namespace LexiconCompiler.TypeScript

open LexiconCompiler.Code LexiconCompiler.Text

/-- Texts inside a line, the second with comments on lines of their own. -/
def Inline (style : Style) (plain full : String) : Prop :=
  Commented style false plain.toList full.toList

/-- Texts of whole lines, the second with comments added. -/
structure Lines (style : Style) (plain full : String) : Prop where
  commented : Commented style true plain.toList full.toList
  complete : startsAfter true plain.toList = true

section Texts

variable {style : Style} {plain full others more : String}

private theorem Inline.refl (s : String) : Inline style s s := Commented.refl _

private theorem Inline.append (h : Inline style plain full) (k : Inline style others more) :
    Inline style (plain ++ others) (full ++ more) := by
  unfold Inline
  rw [String.toList_append, String.toList_append]
  exact Commented.append h (Commented.anywhere k)

private theorem startsAfter_append (starts : Bool) (s t : String) :
    startsAfter starts (s ++ t).toList = startsAfter (startsAfter starts s.toList) t.toList := by
  rw [String.toList_append]
  exact List.foldl_append

private theorem Inline.line (h : Inline style plain full) (ending : String)
    (hending : ∀ starts, startsAfter starts ending.toList = true) :
    Lines style (plain ++ ending) (full ++ ending) where
  commented := Commented.anywhere (h.append (.refl ending))
  complete := by rw [startsAfter_append, hending]

private theorem starts_newline (starts : Bool) : startsAfter starts "\n".toList = true := rfl

private theorem lines_empty : Lines style "" "" := ⟨.nil, rfl⟩

private theorem lines_break : Lines style "\n" "\n" := ⟨.refl _, rfl⟩

private theorem Lines.append (h : Lines style plain full) (k : Lines style others more) :
    Lines style (plain ++ others) (full ++ more) where
  commented := by
    rw [String.toList_append, String.toList_append]
    refine h.commented.append ?_
    rw [h.complete]
    exact k.commented
  complete := by rw [startsAfter_append, h.complete, k.complete]

private theorem Lines.comment (h : Lines style plain full) (doc : Documentation) (depth : Nat) :
    Lines style (comment style Documentation.none depth ++ plain)
      (comment style doc depth ++ full) := by
  rw [comment_none, String.empty_append]
  refine ⟨?_, h.complete⟩
  rcases comment_enclosed style doc depth with hempty | hsaid
  · rw [hempty, String.empty_append]
    exact h.commented
  · rw [String.toList_append]
    exact .comment hsaid h.commented

private theorem Lines.bracketed (h : Lines style plain full) :
    Inline style ("\x7b\n" ++ plain) ("\x7b\n" ++ full) := by
  unfold Inline
  rw [String.toList_append, String.toList_append]
  exact (Commented.refl _).append h.commented

private theorem lines_join {plains fulls : List String}
    (h : List.Forall₂ (Lines style) plains fulls) :
    Lines style (String.join plains) (String.join fulls) := by
  induction h with
  | nil => exact lines_empty
  | cons hline _ ih =>
    rw [String.join_cons, String.join_cons]
    exact hline.append ih

private theorem inline_joinWith (separator : String) {plains fulls : List String}
    (h : List.Forall₂ (Inline style) plains fulls) :
    Inline style (joinWith separator plains) (joinWith separator fulls) := by
  induction h with
  | nil => exact .refl _
  | cons hpiece hrest ih =>
    cases hrest with
    | nil => exact hpiece
    | cons _ _ => exact (hpiece.append (.refl separator)).append ih

private theorem lines_joinWith {plains fulls : List String}
    (h : List.Forall₂ (Lines style) plains fulls) :
    Lines style (joinWith "\n" plains) (joinWith "\n" fulls) := by
  induction h with
  | nil => exact lines_empty
  | cons hpiece hrest ih =>
    cases hrest with
    | nil => exact hpiece
    | cons _ _ => exact (hpiece.append lines_break).append ih

end Texts

/-- Two texts have the same outcome wherever they are written, and need the same imports. -/
def Alike {α β : Type} (R : α -> β -> Prop) (first : Print α) (second : Print β) : Prop :=
  ∀ i, SameOutcome (fun r s => R r.1 s.1 ∧ r.2 = s.2) (first i) (second i)

section Steps

variable {α β γ δ : Type} {R : α -> β -> Prop} {S : γ -> δ -> Prop}

private theorem alike_pure {a : α} {b : β} (h : R a b) : Alike R (pure a) (pure b) :=
  fun _ => .ok ⟨h, rfl⟩

private theorem alike_refl {R : α -> α -> Prop} (h : ∀ a, R a a) (print : Print α) :
    Alike R print print := by
  intro i
  cases print i with
  | error fault => exact .error fault
  | ok r => exact .ok ⟨h r.1, rfl⟩

private theorem Alike.bind {first : Print α} {second : Print β} {rest : α -> Print γ}
    {others : β -> Print δ} (h : Alike R first second)
    (k : ∀ a b, R a b -> Alike S (rest a) (others b)) :
    Alike S (first >>= rest) (second >>= others) := by
  intro i
  refine (h i).bind ?_
  rintro ⟨a, j⟩ ⟨b, _⟩ ⟨hab, rfl⟩
  exact k a b hab j

private theorem Alike.map {first : Print α} {second : Print β} (h : Alike R first second)
    {f : α -> γ} {g : β -> δ} (k : ∀ a b, R a b -> S (f a) (g b)) :
    Alike S (first >>= fun a => pure (f a)) (second >>= fun b => pure (g b)) :=
  h.bind fun a b hab => alike_pure (k a b hab)

private theorem Alike.within {first : Print α} {second : Print β} (h : Alike R first second)
    (place : String) : Alike R (within place first) (within place second) :=
  fun i => (h i).mapError _

end Steps

section Types

variable {site : Site}

@[simp] theorem isVoid_undocumented (type : TypeExpr) : isVoid type.undocumented = isVoid type := by
  cases type <;> rfl

@[simp] theorem length_undocumentedMembers (members : List TypeExpr) :
    (undocumentedMembers members).length = members.length := by
  induction members with
  | nil => rfl
  | cons member rest ih => rw [undocumentedMembers, List.length_cons, List.length_cons, ih]

@[simp] theorem needsBrackets_undocumented (type : TypeExpr) :
    needsBrackets type.undocumented = needsBrackets type := by
  cases type <;> simp [TypeExpr.undocumented, needsBrackets]

private theorem Inline.bracketFunction {plain full : String} (h : Inline site.style plain full)
    (type : TypeExpr) :
    Inline site.style (bracketFunction type.undocumented plain) (bracketFunction type full) := by
  cases type with
  | func params result maybeAsync => exact ((Inline.refl "(").append h).append (.refl ")")
  | _ => exact h

private theorem Alike.unlessVoid {α β : Type} {R : α -> β -> Prop} {type : TypeExpr} {depth : Nat}
    {rest : String -> Print α} {others : String -> Print β}
    (h : Alike (Inline site.style) (typeText site type.undocumented depth)
      (typeText site type depth))
    (k : ∀ a b, Inline site.style a b -> Alike R (rest a) (others b)) :
    Alike R
      (if isVoid type.undocumented then pure "void" >>= rest
        else typeText site type.undocumented depth >>= rest)
      (if isVoid type then pure "void" >>= others else typeText site type depth >>= others) := by
  rw [isVoid_undocumented]
  split
  · exact (alike_pure (.refl "void")).bind k
  · exact h.bind k

private theorem inline_alternatives {plains fulls : List String}
    (h : List.Forall₂ (Inline site.style) plains fulls) :
    Inline site.style (alternatives plains) (alternatives fulls) := by
  cases h with
  | nil => exact .refl _
  | cons hpart hrest => exact inline_joinWith " | " (.cons hpart hrest)

private theorem isEmpty_eq_of_forall₂ {plains fulls : List String} {R : String -> String -> Prop}
    (h : List.Forall₂ R plains fulls) : plains.isEmpty = fulls.isEmpty := by
  cases h <;> rfl

private theorem inline_objectText {plains fulls : List String}
    (h : List.Forall₂ (Lines site.style) plains fulls) (isOpen : Bool) (depth : Nat) :
    Inline site.style (objectText site plains isOpen depth)
      (objectText site fulls isOpen depth) := by
  unfold objectText
  rw [isEmpty_eq_of_forall₂ h]
  split
  · exact .refl _
  · exact (((lines_join h).bracketed.append (.refl _)).append (.refl _)).append (.refl _)

private theorem lines_fieldLine {plain full : String} (h : Inline site.style plain full)
    (name : String) (optional : Bool) (doc : Documentation) (ending : String) (depth : Nat) :
    Lines site.style (fieldLine site name optional Documentation.none plain ending depth)
      (fieldLine site name optional doc full ending depth) := by
  let start := site.style.indent depth ++ propertyName name ++ optionalMark optional ++ ": "
  have hline := (((Inline.refl start).append h).append (.refl ending)).line "\n" starts_newline
  have hsaid := hline.comment doc depth
  simpa only [fieldLine, start, String.append_assoc] using hsaid

mutual

private theorem typeText_alike : (type : TypeExpr) -> (depth : Nat) ->
    Alike (Inline site.style) (typeText site type.undocumented depth) (typeText site type depth)
  | .missing, _ | .scalar _, _ | .literal _, _ | .ref .., _ | .bytes, _ | .void, _
  | .runtime _, _ => by
    rw [TypeExpr.undocumented]
    exact alike_refl .refl _
  | .blob .., _ => by
    rw [TypeExpr.undocumented, typeText, typeText]
    exact alike_refl .refl _
  | .union members isOpen base, depth => by
    rw [TypeExpr.undocumented, typeText, typeText]
    refine (memberTexts_alike members depth).map fun _ _ h => inline_alternatives ?_
    exact List.rel_append h (List.forall₂_same.mpr fun s _ => .refl s)
  | .object fields isOpen, depth => by
    rw [TypeExpr.undocumented, typeText, typeText]
    exact (fieldLines_alike ";" fields (depth + 1)).map fun _ _ h => inline_objectText h _ _
  | .array element, depth => by
    rw [TypeExpr.undocumented, typeText, typeText, needsBrackets_undocumented]
    refine (typeText_alike element depth).map fun _ _ h => Inline.append ?_ (.refl "[]")
    split
    · exact ((Inline.refl "(").append h).append (.refl ")")
    · exact h
  | .func params result maybeAsync, depth => by
    rw [TypeExpr.undocumented, typeText, typeText]
    refine (paramTexts_alike params depth).bind fun _ _ hparams => ?_
    refine (typeText_alike result depth).unlessVoid fun _ _ hresult => alike_pure ?_
    have hlist := ((Inline.refl "(").append (inline_joinWith ", " hparams)).append (.refl ") => ")
    refine (hlist.append hresult).append ?_
    split
    · exact ((Inline.refl " | Promise<").append hresult).append (.refl ">")
    · exact .refl ""
  | .predicate param target, depth => by
    rw [TypeExpr.undocumented, typeText, typeText]
    exact (typeText_alike target depth).map fun _ _ h => (Inline.refl _).append h

private theorem memberTexts_alike : (members : List TypeExpr) -> (depth : Nat) ->
    Alike (List.Forall₂ (Inline site.style)) (memberTexts site (undocumentedMembers members) depth)
      (memberTexts site members depth)
  | [], _ => by
    rw [undocumentedMembers, memberTexts]
    exact alike_pure .nil
  | member :: rest, depth => by
    rw [undocumentedMembers, memberTexts, memberTexts]
    refine (typeText_alike member depth).unlessVoid fun _ _ h => ?_
    exact (memberTexts_alike rest depth).map fun _ _ hrest => .cons (h.bracketFunction member) hrest

private theorem fieldLines_alike (ending : String) : (fields : List (FieldSpec TypeExpr)) ->
    (depth : Nat) -> Alike (List.Forall₂ (Lines site.style))
      (fieldLines site ending (undocumentedFields fields) depth)
      (fieldLines site ending fields depth)
  | [], _ => by
    rw [undocumentedFields, fieldLines]
    exact alike_pure .nil
  | ⟨name, type, optional, doc⟩ :: rest, depth => by
    rw [undocumentedFields, fieldLines, fieldLines]
    refine ((typeText_alike type depth).within _).bind fun _ _ h => ?_
    exact (fieldLines_alike ending rest depth).map fun _ _ hrest =>
      .cons (lines_fieldLine h name optional doc ending depth) hrest

private theorem paramTexts_alike : (params : List (Param TypeExpr)) -> (depth : Nat) ->
    Alike (List.Forall₂ (Inline site.style)) (paramTexts site (undocumentedParams params) depth)
      (paramTexts site params depth)
  | [], _ => by
    rw [undocumentedParams, paramTexts]
    exact alike_pure .nil
  | ⟨name, type, optional⟩ :: rest, depth => by
    rw [undocumentedParams, paramTexts, paramTexts]
    refine ((typeText_alike type depth).within _).bind fun _ _ h => ?_
    exact (paramTexts_alike rest depth).map fun _ _ hrest =>
      .cons ((Inline.refl _).append h) hrest

end

end Types

section Values

variable {site : Site}

private theorem inline_objectValueText {plains fulls : List String}
    (h : List.Forall₂ (Lines site.style) plains fulls) (depth : Nat) :
    Inline site.style (objectValueText site plains depth) (objectValueText site fulls depth) := by
  unfold objectValueText
  rw [isEmpty_eq_of_forall₂ h]
  split
  · exact .refl _
  · exact ((lines_join h).bracketed.append (.refl _)).append (.refl _)

mutual

private theorem exprText_alike : (expr : Expr) -> (depth : Nat) ->
    Alike (Inline site.style) (exprText site expr.undocumented depth) (exprText site expr depth)
  | .missing, _ | .ident _, _ | .this, _ | .str _, _ | .json _, _ | .tagCheck .., _
  | .runtime _, _ | .imported .., _ => by
    rw [Expr.undocumented]
    exact alike_refl .refl _
  | .member receiver name, depth => by
    rw [Expr.undocumented, exprText, exprText]
    refine (exprText_alike receiver depth).map fun _ _ h => ?_
    split
    · exact (h.append (.refl _)).append (.refl _)
    · exact ((h.append (.refl _)).append (.refl _)).append (.refl _)
  | .call function args, depth => by
    rw [Expr.undocumented, exprText, exprText]
    refine (exprText_alike function depth).bind fun _ _ h => ?_
    refine (argTexts_alike args depth).map fun _ _ hargs => ?_
    exact ((h.append (.refl "(")).append (inline_joinWith ", " hargs)).append (.refl ")")
  | .construct cls args, depth => by
    rw [Expr.undocumented, exprText, exprText]
    refine (exprText_alike cls depth).bind fun _ _ h => ?_
    refine (argTexts_alike args depth).map fun _ _ hargs => ?_
    have hcls := ((Inline.refl "new ").append h).append (.refl "(")
    exact (hcls.append (inline_joinWith ", " hargs)).append (.refl ")")
  | .object entries, depth => by
    rw [Expr.undocumented, exprText, exprText]
    exact (entryLines_alike entries (depth + 1)).map fun _ _ h => inline_objectValueText h _
  | .values subject, depth => by
    rw [Expr.undocumented, exprText, exprText]
    refine (exprText_alike subject depth).map fun _ _ h => ?_
    exact ((Inline.refl "Object.values(").append h).append (.refl ")")
  | .cast subject type, depth => by
    rw [Expr.undocumented, exprText, exprText]
    refine (exprText_alike subject depth).bind fun _ _ h => ?_
    exact (typeText_alike type depth).map fun _ _ htype => (h.append (.refl " as ")).append htype

private theorem argTexts_alike : (args : List Expr) -> (depth : Nat) ->
    Alike (List.Forall₂ (Inline site.style)) (argTexts site (undocumentedArgs args) depth)
      (argTexts site args depth)
  | [], _ => by
    rw [undocumentedArgs, argTexts]
    exact alike_pure .nil
  | arg :: rest, depth => by
    rw [undocumentedArgs, argTexts, argTexts]
    refine (exprText_alike arg depth).bind fun _ _ h => ?_
    exact (argTexts_alike rest depth).map fun _ _ hrest => .cons h hrest

private theorem entryLines_alike : (entries : List (Entry Expr)) -> (depth : Nat) ->
    Alike (List.Forall₂ (Lines site.style)) (entryLines site (undocumentedEntries entries) depth)
      (entryLines site entries depth)
  | [], _ => by
    rw [undocumentedEntries, entryLines]
    exact alike_pure .nil
  | ⟨key, value⟩ :: rest, depth => by
    rw [undocumentedEntries, entryLines, entryLines]
    refine ((exprText_alike value depth).within _).bind fun _ _ h => ?_
    exact (entryLines_alike rest depth).map fun _ _ hrest =>
      .cons (((Inline.refl _).append h).line ",\n" fun _ => rfl) hrest

end

private theorem stmtText_alike (depth : Nat) (stmt : Stmt) :
    Alike (Inline site.style) (stmtText site depth stmt.undocumented)
      (stmtText site depth stmt) := by
  cases stmt with
  | ret value => exact (exprText_alike value depth).map fun _ _ h => (Inline.refl _).append h
  | assign target value =>
    refine (exprText_alike target depth).bind fun _ _ h => ?_
    exact (exprText_alike value depth).map fun _ _ hvalue => (h.append (.refl " = ")).append hvalue

private theorem bodyLines_alike (depth : Nat) (body : List Stmt) :
    Alike (List.Forall₂ (Lines site.style)) (bodyLines site depth (body.map Stmt.undocumented))
      (bodyLines site depth body) := by
  induction body with
  | nil => exact alike_pure .nil
  | cons stmt rest ih =>
    refine (stmtText_alike depth stmt).bind fun _ _ h => ih.map fun _ _ hrest => ?_
    exact .cons (((Inline.refl _).append h).line "\n" starts_newline) hrest

private theorem ascription_alike (depth : Nat) (type : Option TypeExpr) :
    Alike (Inline site.style) (ascription site depth (type.map TypeExpr.undocumented))
      (ascription site depth type) := by
  cases type with
  | none => exact alike_pure (.refl "")
  | some type => exact (typeText_alike type depth).map fun _ _ h => (Inline.refl ": ").append h

private theorem callableText_alike (head : String) (callable : Callable) (depth : Nat) :
    Alike (Lines site.style) (callableText site head callable.undocumented depth)
      (callableText site head callable depth) := by
  refine (paramTexts_alike callable.params depth).bind fun _ _ hparams => ?_
  refine (ascription_alike depth callable.result).bind fun _ _ hresult => ?_
  refine (bodyLines_alike (depth + 1) callable.body).map fun _ _ hbody => ?_
  have hlist := (Inline.refl (head ++ "(")).append (inline_joinWith ", " hparams)
  have hopening := ((hlist.append (.refl ")")).append hresult).line " \x7b\n" fun _ => rfl
  have hclosing : Lines site.style (site.style.indent depth ++ "\x7d\n")
      (site.style.indent depth ++ "\x7d\n") := (Inline.refl _).line "\x7d\n" fun _ => rfl
  have hall := (hopening.append (lines_join hbody)).append hclosing
  rwa [← String.append_assoc, ← String.append_assoc] at hall

end Values

section Declarations

variable {site : Site}

private theorem constructorText_alike (constructor? : Option Callable) :
    Alike (Lines site.style) (constructorText site (constructor?.map Callable.undocumented))
      (constructorText site constructor?) := by
  cases constructor? with
  | none => exact alike_pure lines_empty
  | some callable =>
    have hcallable := @callableText_alike site (site.style.indent 1 ++ "constructor")
      { callable with result := none } 1
    exact (hcallable.within "constructor").map fun _ _ h => lines_break.append h

private theorem methodTexts_alike (methods : List ClassMethod) :
    Alike (List.Forall₂ (Lines site.style))
      (methodTexts site (methods.map ClassMethod.undocumented)) (methodTexts site methods) := by
  induction methods with
  | nil => exact alike_pure .nil
  | cons method rest ih =>
    refine ((callableText_alike _ method.callable 1).within _).bind fun _ _ h => ?_
    exact ih.map fun _ _ hrest => .cons (lines_break.append h) hrest

private theorem declaredText_alike (name : String) : (declared : Declared) ->
    Alike (Lines site.style) (declaredText site name declared.undocumented)
      (declaredText site name declared)
  | .interface fields isOpen => by
    have hobject := @typeText_alike site (.object fields isOpen) 0
    rw [TypeExpr.undocumented] at hobject
    exact hobject.map fun _ _ h => ((Inline.refl _).append h).line "\n" starts_newline
  | .alias type =>
    (typeText_alike type 0).map fun _ _ h => ((Inline.refl _).append h).line "\n" starts_newline
  | .const type value => by
    refine (ascription_alike 0 type).bind fun _ _ h => ?_
    refine (exprText_alike value 0).map fun _ _ hvalue => ?_
    exact ((((Inline.refl _).append h).append (.refl " = ")).append hvalue).line "\n" starts_newline
  | .function callable => callableText_alike _ callable 0
  | .cls fields constructor? methods => by
    refine (fieldLines_alike "" fields 1).bind fun _ _ hfields => ?_
    refine (constructorText_alike constructor?).bind fun _ _ hconstructor => ?_
    refine (methodTexts_alike methods).map fun _ _ hmethods => ?_
    have hopening : Lines site.style ("export class " ++ name ++ " \x7b\n")
        ("export class " ++ name ++ " \x7b\n") := (Inline.refl _).line " \x7b\n" fun _ => rfl
    have hparts := ((hopening.append (lines_join hfields)).append hconstructor).append
      (lines_join hmethods)
    exact hparts.append ⟨.refl _, rfl⟩

private theorem declText_alike (decl : Decl) :
    Alike (Lines site.style) (declText site decl.undocumented) (declText site decl) := by
  refine (declaredText_alike (declaredName decl.name) decl.declared).map fun _ _ h => ?_
  exact h.comment decl.doc 0

private theorem kindName_undocumented (declared : Declared) :
    declared.undocumented.kindName = declared.kindName := by
  cases declared <;> rfl

private theorem declTexts_alike (decls : List Decl) :
    Alike (List.Forall₂ (Lines site.style)) (declTexts site (decls.map Decl.undocumented))
      (declTexts site decls) := by
  induction decls with
  | nil => exact alike_pure .nil
  | cons decl rest ih =>
    have hdecl := (@declText_alike site decl).within
      (decl.declared.kindName ++ " " ++ decl.name)
    rw [List.map_cons, declTexts, declTexts, Decl.undocumented, kindName_undocumented]
    exact hdecl.bind fun _ _ h => ih.map fun _ _ hrest => .cons h hrest

private theorem commented_assemble (frontmatter : String) (imports : List String)
    {plains fulls : List String} (h : List.Forall₂ (Lines site.style) plains fulls) :
    Commented site.style true (assemble frontmatter imports plains).toList
      (assemble frontmatter imports fulls).toList := by
  simp only [assemble, isEmpty_eq_of_forall₂ h]
  generalize (if frontmatter.isEmpty then "" else frontmatter ++ "\n") ++ String.join imports = head
  split
  · exact .refl _
  · have hstarts : startsAfter true (head ++ if head.isEmpty then "" else "\n").toList = true := by
      split
      · rename_i hempty
        rw [String.isEmpty_iff.mp hempty]
        rfl
      · rw [startsAfter_append, starts_newline]
    simp only [String.toList_append (t := joinWith _ _)]
    refine (Commented.refl _).append ?_
    rw [hstarts]
    exact (lines_joinWith h).commented

end Declarations

/-- The file of the second unit is that of the first one with comments added at starts of lines, and
the one cannot be written exactly if the other cannot, with the same fault. -/
def SameCode (style : Style) (u v : SourceUnit) : Prop :=
  SameOutcome (fun plain full => Commented style true plain.toList full.toList)
    (unitText style u) (unitText style v)

/-- What a unit says in prose adds comments to its file, and nothing else. -/
theorem sameCode_undocumented (style : Style) (u : SourceUnit) :
    SameCode style u.undocumented u := by
  refine (@declTexts_alike ⟨style, u.name⟩ u.decls .none).bind ?_
  rintro ⟨plains, imports⟩ ⟨fulls, _⟩ ⟨hdecls, rfl⟩
  exact .ok (commented_assemble _ _ hdecls)

end LexiconCompiler.TypeScript
