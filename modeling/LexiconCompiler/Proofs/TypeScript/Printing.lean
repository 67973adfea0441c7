import LexiconCompiler.Proofs.Code.Mentions
import LexiconCompiler.Proofs.Outcome
import LexiconCompiler.TypeScript.Printer

set_option autoImplicit false
set_option relaxedAutoImplicit false

/-!
What a file is made of. While code is written down, the imports of exactly what it mentions are
collected in order, and each declaration is exported under its name.
-/

namespace LexiconCompiler.TypeScript

open LexiconCompiler.Code

def Imports.record (own : String) (i : Imports) : Mention -> Imports
  | .library handle => (binding? handle).elim i i.useBinding
  | .type unit _ => if unit == own then i else i.useWhole unit
  | .value unit name => if unit == own then i else i.useName unit name

/-- Wherever something is written down, the imports collected are those of some mentions. -/
def Collects {α : Type} (own : String) (print : Print α) (mentions : List Mention) : Prop :=
  ∀ i a j, print i = .ok (a, j) → j = mentions.foldl (Imports.record own) i

section Steps

variable {α β : Type} {own : String}

private theorem collects_pure (a : α) : Collects own (pure a) [] := by
  intro i b j h
  obtain ⟨_, rfl⟩ := Prod.mk.inj (Except.ok.inj h)
  rfl

private theorem collects_refuse (fault : PrintFault) (mentions : List Mention) :
    Collects own (refuse fault : Print α) mentions := by
  intro i a j h
  cases h

private theorem Collects.bind {first : Print α} {rest : α → Print β} {mentions more : List Mention}
    (h : Collects own first mentions) (k : ∀ a, Collects own (rest a) more) :
    Collects own (first >>= rest) (mentions ++ more) := by
  intro i b j hrun
  have hsteps : (first i >>= fun p => rest p.1 p.2) = .ok (b, j) := hrun
  obtain ⟨⟨a, middle⟩, hfirst, hrest⟩ := Outcome.bind_eq_ok.mp hsteps
  rw [List.foldl_append, ← h i a middle hfirst]
  exact k a middle b j hrest

private theorem Collects.map {print : Print α} {mentions : List Mention}
    (h : Collects own print mentions) (f : α → β) :
    Collects own (print >>= fun a => pure (f a)) mentions := by
  have hthen := h.bind fun a => collects_pure (f a)
  rwa [List.append_nil] at hthen

private theorem Collects.within {print : Print α} {mentions : List Mention}
    (h : Collects own print mentions) (place : String) :
    Collects own (within place print) mentions := by
  intro i a j hrun
  exact h i a j (Outcome.mapError_eq_ok.mp hrun)

private theorem collects_useRuntime (handle : RuntimeHandle) :
    Collects own (useRuntime handle) [.library handle] := by
  intro i text j h
  unfold useRuntime at h
  cases hb : binding? handle with
  | none =>
    rw [hb] at h
    cases h
  | some binding =>
    rw [hb] at h
    obtain ⟨_, rfl⟩ := Prod.mk.inj (Except.ok.inj h)
    simp [Imports.record, hb]

private theorem collects_unlessOwn {unit here there : String} {mention : Mention}
    {use : Imports → Imports}
    (h : ∀ i, Imports.record own i mention = if unit == own then i else use i) :
    Collects own (if unit == own then pure here else modify use >>= fun _ => pure there)
      [mention] := by
  intro i text j hrun
  rw [List.foldl_cons, h, List.foldl_nil]
  by_cases hown : (unit == own) = true
  · rw [if_pos hown] at hrun ⊢
    exact (Prod.mk.inj (Except.ok.inj hrun)).2.symm
  · rw [if_neg hown] at hrun ⊢
    exact (Prod.mk.inj (Except.ok.inj hrun)).2.symm

end Steps

section Types

variable {site : Site}

private theorem Collects.unlessVoid {α : Type} {type : TypeExpr} {depth : Nat}
    {rest : String → Print α} {more : List Mention}
    (h : Collects site.unit (typeText site type depth) type.mentions)
    (k : ∀ text, Collects site.unit (rest text) more) :
    Collects site.unit
      (if isVoid type then pure "void" >>= rest else typeText site type depth >>= rest)
      (type.mentions ++ more) := by
  cases type with
  | void => exact (collects_pure "void").bind k
  | _ => exact h.bind k

-- The types inside a type are written one after the other, in the order of their mentions.
mutual

private theorem typeText_collects : (type : TypeExpr) → (depth : Nat) →
    Collects site.unit (typeText site type depth) type.mentions
  | .missing, _ => by
    rw [typeText]
    exact collects_refuse _ _
  | .scalar _, _ | .literal _, _ | .ref none _, _ | .bytes, _ | .void, _ => by
    rw [typeText, TypeExpr.mentions]
    exact collects_pure _
  | .union members _ _, depth => by
    rw [typeText, TypeExpr.mentions]
    exact (memberTexts_collects members depth).map _
  | .object fields _, depth => by
    rw [typeText, TypeExpr.mentions]
    exact (fieldLines_collects ";" fields (depth + 1)).map _
  | .array element, depth => by
    rw [typeText, TypeExpr.mentions]
    exact (typeText_collects element depth).map _
  | .blob _ _ _, _ => by
    rw [typeText, TypeExpr.mentions]
    exact collects_useRuntime _
  | .ref (some unit) name, _ => by
    rw [typeText, TypeExpr.mentions]
    exact collects_unlessOwn fun _ => rfl
  | .func params result _, depth => by
    rw [typeText, TypeExpr.mentions, ← List.append_nil result.mentions]
    refine (paramTexts_collects params depth).bind fun _ => ?_
    exact (typeText_collects result depth).unlessVoid fun _ => collects_pure _
  | .runtime handle, _ => by
    rw [typeText, TypeExpr.mentions]
    exact collects_useRuntime handle
  | .predicate _ target, depth => by
    rw [typeText, TypeExpr.mentions]
    exact (typeText_collects target depth).map _

private theorem memberTexts_collects : (members : List TypeExpr) → (depth : Nat) →
    Collects site.unit (memberTexts site members depth) (memberMentions members)
  | [], _ => by
    rw [memberTexts, memberMentions]
    exact collects_pure _
  | member :: rest, depth => by
    rw [memberTexts, memberMentions]
    refine (typeText_collects member depth).unlessVoid fun _ => ?_
    exact (memberTexts_collects rest depth).map _

private theorem fieldLines_collects (ending : String) : (fields : List (FieldSpec TypeExpr)) →
    (depth : Nat) → Collects site.unit (fieldLines site ending fields depth) (fieldMentions fields)
  | [], _ => by
    rw [fieldLines, fieldMentions]
    exact collects_pure _
  | ⟨name, type, _, _⟩ :: rest, depth => by
    rw [fieldLines, fieldMentions]
    have hfield := (typeText_collects type depth).within ("field " ++ name)
    exact hfield.bind fun _ => (fieldLines_collects ending rest depth).map _

private theorem paramTexts_collects : (params : List (Param TypeExpr)) → (depth : Nat) →
    Collects site.unit (paramTexts site params depth) (paramMentions params)
  | [], _ => by
    rw [paramTexts, paramMentions]
    exact collects_pure _
  | ⟨name, type, _⟩ :: rest, depth => by
    rw [paramTexts, paramMentions]
    have hparam := (typeText_collects type depth).within ("parameter " ++ name)
    exact hparam.bind fun _ => (paramTexts_collects rest depth).map _

end

end Types

section Values

variable {site : Site}

mutual

private theorem exprText_collects : (expr : Expr) → (depth : Nat) →
    Collects site.unit (exprText site expr depth) expr.mentions
  | .missing, _ => by
    rw [exprText]
    exact collects_refuse _ _
  | .ident _, _ | .this, _ | .str _, _ | .tagCheck _ _, _ => by
    rw [exprText, Expr.mentions]
    exact collects_pure _
  | .member receiver _, depth => by
    rw [exprText, Expr.mentions]
    exact (exprText_collects receiver depth).map _
  | .call function args, depth => by
    rw [exprText, Expr.mentions]
    exact (exprText_collects function depth).bind fun _ => (argTexts_collects args depth).map _
  | .construct cls args, depth => by
    rw [exprText, Expr.mentions]
    exact (exprText_collects cls depth).bind fun _ => (argTexts_collects args depth).map _
  | .object entries, depth => by
    rw [exprText, Expr.mentions]
    exact (entryLines_collects entries (depth + 1)).map _
  | .json text, depth => by
    rw [exprText, Expr.mentions]
    split
    · exact collects_pure _
    · exact collects_refuse _ _
  | .values subject, depth => by
    rw [exprText, Expr.mentions]
    exact (exprText_collects subject depth).map _
  | .cast subject type, depth => by
    rw [exprText, Expr.mentions]
    exact (exprText_collects subject depth).bind fun _ => (typeText_collects type depth).map _
  | .runtime handle, _ => by
    rw [exprText, Expr.mentions]
    exact collects_useRuntime handle
  | .imported unit name, _ => by
    rw [exprText, Expr.mentions]
    exact collects_unlessOwn fun _ => rfl

private theorem argTexts_collects : (args : List Expr) → (depth : Nat) →
    Collects site.unit (argTexts site args depth) (argMentions args)
  | [], _ => by
    rw [argTexts, argMentions]
    exact collects_pure _
  | arg :: rest, depth => by
    rw [argTexts, argMentions]
    exact (exprText_collects arg depth).bind fun _ => (argTexts_collects rest depth).map _

private theorem entryLines_collects : (entries : List (Entry Expr)) → (depth : Nat) →
    Collects site.unit (entryLines site entries depth) (entryMentions entries)
  | [], _ => by
    rw [entryLines, entryMentions]
    exact collects_pure _
  | ⟨key, value⟩ :: rest, depth => by
    rw [entryLines, entryMentions]
    have hentry := (exprText_collects value depth).within ("entry " ++ key)
    exact hentry.bind fun _ => (entryLines_collects rest depth).map _

end

private theorem stmtText_collects (depth : Nat) (stmt : Stmt) :
    Collects site.unit (stmtText site depth stmt) stmt.mentions := by
  cases stmt with
  | ret value => exact (exprText_collects value depth).map _
  | assign target value =>
    exact (exprText_collects target depth).bind fun _ => (exprText_collects value depth).map _

private theorem bodyLines_collects (depth : Nat) (body : List Stmt) :
    Collects site.unit (bodyLines site depth body) (body.flatMap Stmt.mentions) := by
  induction body with
  | nil => exact collects_pure _
  | cons stmt rest ih => exact (stmtText_collects depth stmt).bind fun _ => ih.map _

private theorem ascription_collects (depth : Nat) (type : Option TypeExpr) :
    Collects site.unit (ascription site depth type) (type.elim [] TypeExpr.mentions) := by
  cases type with
  | none => exact collects_pure _
  | some type => exact (typeText_collects type depth).map _

private theorem callableText_collects (head : String) (callable : Callable) (depth : Nat) :
    Collects site.unit (callableText site head callable depth) callable.mentions := by
  rw [Callable.mentions, List.append_assoc]
  refine (paramTexts_collects callable.params depth).bind fun _ => ?_
  refine (ascription_collects depth callable.result).bind fun _ => ?_
  exact (bodyLines_collects (depth + 1) callable.body).map _

end Values

section Declarations

variable {site : Site}

private theorem constructorText_collects (constructor? : Option Callable) :
    Collects site.unit (constructorText site constructor?)
      (constructor?.elim [] fun callable => { callable with result := none }.mentions) := by
  cases constructor? with
  | none => exact collects_pure _
  | some callable => exact ((callableText_collects _ _ 1).within "constructor").map _

private theorem methodTexts_collects (methods : List ClassMethod) :
    Collects site.unit (methodTexts site methods)
      (methods.flatMap fun method => method.callable.mentions) := by
  induction methods with
  | nil => exact collects_pure _
  | cons method rest ih =>
    refine ((callableText_collects _ method.callable 1).within _).bind fun _ => ?_
    exact ih.map _

private theorem declaredText_collects (name : String) : (declared : Declared) →
    Collects site.unit (declaredText site name declared) declared.mentions
  | .interface fields isOpen => by
    have hobject : Collects site.unit (typeText site (.object fields isOpen) 0)
        (fieldMentions fields) := typeText_collects _ 0
    exact hobject.map _
  | .alias type => (typeText_collects type 0).map _
  | .const type value => by
    exact (ascription_collects 0 type).bind fun _ => (exprText_collects value 0).map _
  | .function callable => callableText_collects _ callable 0
  | .cls fields constructor? methods => by
    rw [Declared.mentions, List.append_assoc]
    refine (fieldLines_collects "" fields 1).bind fun _ => ?_
    refine (constructorText_collects constructor?).bind fun _ => ?_
    exact (methodTexts_collects methods).map _

private theorem declTexts_collects (decls : List Decl) :
    Collects site.unit (declTexts site decls) (decls.flatMap Decl.mentions) := by
  induction decls with
  | nil => exact collects_pure _
  | cons decl rest ih =>
    have hdecl : Collects site.unit (declText site decl) decl.mentions :=
      (declaredText_collects (declaredName decl.name) decl.declared).map _
    exact (hdecl.within _).bind fun _ => ih.map _

end Declarations

def keyword : Declared -> String
  | .interface .. => "interface"
  | .alias .. => "type"
  | .const .. => "const"
  | .function .. => "function"
  | .cls .. => "class"

/-- A text declares a name for other files, after its comment. -/
def Exports (style : Style) (decl : Decl) (text : String) : Prop :=
  ∃ rest, text = comment style decl.doc 0 ++
    ("export " ++ keyword decl.declared ++ " " ++ declaredName decl.name ++ rest)

section Exports

variable {site : Site}

/-- Whatever is written down is of a certain form. -/
private def Gives {α : Type} (print : Print α) (form : α → Prop) : Prop :=
  ∀ i a j, print i = .ok (a, j) → form a

private theorem gives_pure {α : Type} {a : α} {form : α → Prop} (h : form a) :
    Gives (pure a) form := by
  intro i b j hrun
  obtain ⟨rfl, _⟩ := Prod.mk.inj (Except.ok.inj hrun)
  exact h

private theorem Gives.bind {α β : Type} {first : Print α} {rest : α → Print β} {form : α → Prop}
    {whole : β → Prop} (h : Gives first form) (k : ∀ a, form a → Gives (rest a) whole) :
    Gives (first >>= rest) whole := by
  intro i b j hrun
  have hsteps : (first i >>= fun p => rest p.1 p.2) = .ok (b, j) := hrun
  obtain ⟨⟨a, middle⟩, hfirst, hrest⟩ := Outcome.bind_eq_ok.mp hsteps
  exact k a (h i a middle hfirst) middle b j hrest

private theorem gives_after {α β : Type} {first : Print α} {rest : α → Print β} {form : β → Prop}
    (k : ∀ a, Gives (rest a) form) : Gives (first >>= rest) form := by
  have hany : Gives first fun _ => True := fun _ _ _ _ => trivial
  exact hany.bind fun a _ => k a

private theorem callableText_gives (head : String) (callable : Callable) (depth : Nat) :
    Gives (callableText site head callable depth) fun text => ∃ rest, text = head ++ rest := by
  refine gives_after fun params => gives_after fun result => gives_after fun lines => ?_
  exact gives_pure ⟨_, by simp only [String.append_assoc]; rfl⟩

private theorem declaredText_gives (name : String) : (declared : Declared) →
    Gives (declaredText site name declared) fun text =>
      ∃ rest, text = "export " ++ keyword declared ++ " " ++ name ++ rest
  | .interface _ _ | .alias _ => by
    refine gives_after fun type => ?_
    exact gives_pure ⟨_, by simp only [String.append_assoc]; rfl⟩
  | .const _ _ => by
    refine gives_after fun type => gives_after fun value => ?_
    exact gives_pure ⟨_, by simp only [String.append_assoc]; rfl⟩
  | .function callable => callableText_gives _ callable 0
  | .cls _ _ _ => by
    refine gives_after fun fields => gives_after fun constructor => gives_after fun methods => ?_
    exact gives_pure ⟨_, by simp only [String.append_assoc]; rfl⟩

private theorem declText_gives (decl : Decl) :
    Gives (declText site decl) (Exports site.style decl) := by
  refine (declaredText_gives (declaredName decl.name) decl.declared).bind fun text htext => ?_
  obtain ⟨rest, rfl⟩ := htext
  exact gives_pure ⟨rest, rfl⟩

private theorem declTexts_exports {decls : List Decl} {i j : Imports} {texts : List String}
    (h : declTexts site decls i = .ok (texts, j)) :
    List.Forall₂ (Exports site.style) decls texts := by
  have hall : Gives (declTexts site decls) (List.Forall₂ (Exports site.style) decls) := by
    clear h
    induction decls with
    | nil => exact gives_pure .nil
    | cons decl rest ih =>
      have hdecl : Gives (within (decl.declared.kindName ++ " " ++ decl.name) (declText site decl))
          (Exports site.style decl) := by
        intro i text j hrun
        exact declText_gives decl i text j (Outcome.mapError_eq_ok.mp hrun)
      exact hdecl.bind fun _ hfirst => ih.bind fun _ hothers => gives_pure (.cons hfirst hothers)
  exact hall i texts j h

end Exports

def Imports.ofUnit (u : SourceUnit) : Imports :=
  u.mentions.foldl (record u.name) none

/-- A file imports what its declarations mention, and then exports them one after the other. -/
theorem unitText_eq_ok {style : Style} {u : SourceUnit} {text : String}
    (h : unitText style u = .ok text) :
    ∃ bodies, List.Forall₂ (Exports style) u.decls bodies ∧
      text = assemble style.frontmatter
        ((Imports.ofUnit u).lines u.path style.importExtension u.deps) bodies := by
  obtain ⟨⟨bodies, imports⟩, hrun, hassembled⟩ := Outcome.bind_eq_ok.mp h
  refine ⟨bodies, declTexts_exports hrun, ?_⟩
  have himports : imports = Imports.ofUnit u := declTexts_collects u.decls _ _ _ hrun
  rw [← himports]
  exact (Except.ok.inj hassembled).symm

end LexiconCompiler.TypeScript
