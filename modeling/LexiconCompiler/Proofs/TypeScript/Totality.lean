import LexiconCompiler.Proofs.Code.Obstacles
import LexiconCompiler.Proofs.Outcome
import LexiconCompiler.TypeScript.Printer

set_option autoImplicit false
set_option relaxedAutoImplicit false

/-!
When code can be written down: exactly if each of its obstacles can. Gaps cannot; what a library
supplies can if it has a binding, and JSON text if it has a layout.
-/

namespace LexiconCompiler.TypeScript

open LexiconCompiler.Code LexiconCompiler.Text

def Writable : Obstacle -> Prop
  | .missingType => False
  | .missingExpression => False
  | .library handle => (binding? handle).isSome = true
  | .json text => (jsonLayout? "" "" text).isSome = true

theorem writable_of_isLibrary {o : Obstacle} (h : o.IsLibrary) : Writable o := by
  have hall : ∀ handle ∈ RuntimeHandle.known, (binding? handle).isSome = true := by decide
  cases o with
  | library handle => exact hall handle h
  | _ => exact h.elim

private theorem isSome_jsonLayout? (start step text : String) :
    (jsonLayout? start step text).isSome = (jsonLayout? "" "" text).isSome := by
  unfold jsonLayout?
  cases JsonToken.read? text.toList with
  | none => rfl
  | some tokens => cases hc : JsonToken.completes [] .value tokens <;> simp [hc]

/-- Something is written down exactly if its obstacles can be, whatever was imported before. -/
def Demands {α : Type} (print : Print α) (obstacles : List Obstacle) : Prop :=
  ∀ i, (∃ r, print i = .ok r) ↔ ∀ o ∈ obstacles, Writable o

section Steps

variable {α β : Type}

private theorem demands_of_ok {print : Print α} (h : ∀ i, ∃ r, print i = .ok r) : Demands print
    [] := by
  intro i
  simp [h i]

private theorem demands_pure (a : α) : Demands (pure a) [] := demands_of_ok fun i => ⟨(a, i), rfl⟩

private theorem demands_refuse (fault : PrintFault) {o : Obstacle} (h : ¬ Writable o) :
    Demands (refuse fault : Print α) [o] := by
  intro i
  rw [List.forall_mem_singleton]
  constructor
  · rintro ⟨_, ⟨⟩⟩
  · exact fun hw => absurd hw h

private theorem Demands.bind {first : Print α} {rest : α → Print β} {obstacles more : List Obstacle}
    (h : Demands first obstacles) (k : ∀ a, Demands (rest a) more) :
    Demands (first >>= rest) (obstacles ++ more) := by
  intro i
  have hrun : (first >>= rest) i = (first i >>= fun p => rest p.1 p.2) := rfl
  rw [List.forall_mem_append, ← h i, hrun]
  constructor
  · rintro ⟨r, hr⟩
    obtain ⟨⟨a, j⟩, hfirst, hrest⟩ := Outcome.bind_eq_ok.mp hr
    exact ⟨⟨_, hfirst⟩, (k a j).mp ⟨r, hrest⟩⟩
  · rintro ⟨⟨⟨a, j⟩, hfirst⟩, hmore⟩
    obtain ⟨r, hr⟩ := (k a j).mpr hmore
    exact ⟨r, Outcome.bind_eq_ok.mpr ⟨_, hfirst, hr⟩⟩

private theorem Demands.map {print : Print α} {obstacles : List Obstacle}
    (h : Demands print obstacles) (f : α → β) :
    Demands (print >>= fun a => pure (f a)) obstacles := by
  have hthen := h.bind fun a => demands_pure (f a)
  rwa [List.append_nil] at hthen

private theorem Demands.within {print : Print α} {obstacles : List Obstacle}
    (h : Demands print obstacles) (place : String) : Demands (within place print) obstacles := by
  intro i
  rw [← h i]
  exact exists_congr fun r => Outcome.mapError_eq_ok

private theorem demands_useRuntime (handle : RuntimeHandle) :
    Demands (useRuntime handle) [.library handle] := by
  unfold useRuntime
  cases hb : binding? handle with
  | none =>
    have hnone : ¬ Writable (.library handle) := by simp [Writable, hb]
    exact demands_refuse _ hnone
  | some binding =>
    intro i
    have hsome : Writable (.library handle) := by simp [Writable, hb]
    rw [List.forall_mem_singleton, iff_true_right hsome]
    exact ⟨_, rfl⟩

private theorem demands_unlessOwn {unit own here there : String} {use : Imports → Imports} :
    Demands (if unit == own then pure here else modify use >>= fun _ => pure there) [] := by
  split
  · exact demands_pure _
  · exact demands_of_ok fun i => ⟨_, rfl⟩

end Steps

section Types

variable {site : Site}

private theorem Demands.unlessVoid {α : Type} {type : TypeExpr} {depth : Nat}
    {rest : String → Print α} {more : List Obstacle}
    (h : Demands (typeText site type depth) type.obstacles) (k : ∀ text, Demands (rest text) more) :
    Demands (if isVoid type then pure "void" >>= rest else typeText site type depth >>= rest)
      (type.obstacles ++ more) := by
  cases type with
  | void => exact (demands_pure "void").bind k
  | _ => exact h.bind k

mutual

private theorem typeText_demands : (type : TypeExpr) → (depth : Nat) →
    Demands (typeText site type depth) type.obstacles
  | .missing, _ => by
    rw [typeText, TypeExpr.obstacles]
    exact demands_refuse _ id
  | .scalar _, _ | .literal _, _ | .ref none _, _ | .bytes, _ | .void, _ => by
    rw [typeText, TypeExpr.obstacles]
    exact demands_pure _
  | .union members _ _, depth => by
    rw [typeText, TypeExpr.obstacles]
    exact (memberTexts_demands members depth).map _
  | .object fields _, depth => by
    rw [typeText, TypeExpr.obstacles]
    exact (fieldLines_demands ";" fields (depth + 1)).map _
  | .array element, depth => by
    rw [typeText, TypeExpr.obstacles]
    exact (typeText_demands element depth).map _
  | .blob _ _ _, _ => by
    rw [typeText, TypeExpr.obstacles]
    exact demands_useRuntime _
  | .ref (some unit) name, _ => by
    rw [typeText, TypeExpr.obstacles]
    exact demands_unlessOwn
  | .func params result _, depth => by
    rw [typeText, TypeExpr.obstacles, ← List.append_nil result.obstacles]
    refine (paramTexts_demands params depth).bind fun _ => ?_
    exact (typeText_demands result depth).unlessVoid fun _ => demands_pure _
  | .runtime handle, _ => by
    rw [typeText, TypeExpr.obstacles]
    exact demands_useRuntime handle
  | .predicate _ target, depth => by
    rw [typeText, TypeExpr.obstacles]
    exact (typeText_demands target depth).map _

private theorem memberTexts_demands : (members : List TypeExpr) → (depth : Nat) →
    Demands (memberTexts site members depth) (memberObstacles members)
  | [], _ => by
    rw [memberTexts, memberObstacles]
    exact demands_pure _
  | member :: rest, depth => by
    rw [memberTexts, memberObstacles]
    refine (typeText_demands member depth).unlessVoid fun _ => ?_
    exact (memberTexts_demands rest depth).map _

private theorem fieldLines_demands (ending : String) : (fields : List (FieldSpec TypeExpr)) →
    (depth : Nat) → Demands (fieldLines site ending fields depth) (fieldObstacles fields)
  | [], _ => by
    rw [fieldLines, fieldObstacles]
    exact demands_pure _
  | ⟨name, type, _, _⟩ :: rest, depth => by
    rw [fieldLines, fieldObstacles]
    have hfield := (typeText_demands type depth).within ("field " ++ name)
    exact hfield.bind fun _ => (fieldLines_demands ending rest depth).map _

private theorem paramTexts_demands : (params : List (Param TypeExpr)) → (depth : Nat) →
    Demands (paramTexts site params depth) (paramObstacles params)
  | [], _ => by
    rw [paramTexts, paramObstacles]
    exact demands_pure _
  | ⟨name, type, _⟩ :: rest, depth => by
    rw [paramTexts, paramObstacles]
    have hparam := (typeText_demands type depth).within ("parameter " ++ name)
    exact hparam.bind fun _ => (paramTexts_demands rest depth).map _

end

end Types

section Values

variable {site : Site}

private theorem demands_json (text : String) (depth : Nat) :
    Demands (exprText site (.json text) depth) [.json text] := by
  have hsome := isSome_jsonLayout? (site.style.indent depth) (site.style.indent 1) text
  rw [exprText]
  cases hlayout : jsonLayout? (site.style.indent depth) (site.style.indent 1) text with
  | none =>
    rw [hlayout] at hsome
    have hnone : ¬ Writable (.json text) := by simp [Writable, ← hsome]
    exact demands_refuse _ hnone
  | some laidOut =>
    rw [hlayout] at hsome
    have hwritable : Writable (.json text) := by simp [Writable, ← hsome]
    intro i
    rw [List.forall_mem_singleton, iff_true_right hwritable]
    exact ⟨_, rfl⟩

mutual

private theorem exprText_demands : (expr : Expr) → (depth : Nat) →
    Demands (exprText site expr depth) expr.obstacles
  | .missing, _ => by
    rw [exprText, Expr.obstacles]
    exact demands_refuse _ id
  | .ident _, _ | .this, _ | .str _, _ | .tagCheck _ _, _ => by
    rw [exprText, Expr.obstacles]
    exact demands_pure _
  | .member receiver _, depth => by
    rw [exprText, Expr.obstacles]
    exact (exprText_demands receiver depth).map _
  | .call function args, depth => by
    rw [exprText, Expr.obstacles]
    exact (exprText_demands function depth).bind fun _ => (argTexts_demands args depth).map _
  | .construct cls args, depth => by
    rw [exprText, Expr.obstacles]
    exact (exprText_demands cls depth).bind fun _ => (argTexts_demands args depth).map _
  | .object entries, depth => by
    rw [exprText, Expr.obstacles]
    exact (entryLines_demands entries (depth + 1)).map _
  | .json text, depth => by
    rw [Expr.obstacles]
    exact demands_json text depth
  | .values subject, depth => by
    rw [exprText, Expr.obstacles]
    exact (exprText_demands subject depth).map _
  | .cast subject type, depth => by
    rw [exprText, Expr.obstacles]
    exact (exprText_demands subject depth).bind fun _ => (typeText_demands type depth).map _
  | .runtime handle, _ => by
    rw [exprText, Expr.obstacles]
    exact demands_useRuntime handle
  | .imported unit name, _ => by
    rw [exprText, Expr.obstacles]
    exact demands_unlessOwn

private theorem argTexts_demands : (args : List Expr) → (depth : Nat) →
    Demands (argTexts site args depth) (argObstacles args)
  | [], _ => by
    rw [argTexts, argObstacles]
    exact demands_pure _
  | arg :: rest, depth => by
    rw [argTexts, argObstacles]
    exact (exprText_demands arg depth).bind fun _ => (argTexts_demands rest depth).map _

private theorem entryLines_demands : (entries : List (Entry Expr)) → (depth : Nat) →
    Demands (entryLines site entries depth) (entryObstacles entries)
  | [], _ => by
    rw [entryLines, entryObstacles]
    exact demands_pure _
  | ⟨key, value⟩ :: rest, depth => by
    rw [entryLines, entryObstacles]
    have hentry := (exprText_demands value depth).within ("entry " ++ key)
    exact hentry.bind fun _ => (entryLines_demands rest depth).map _

end

private theorem stmtText_demands (depth : Nat) (stmt : Stmt) :
    Demands (stmtText site depth stmt) stmt.obstacles := by
  cases stmt with
  | ret value => exact (exprText_demands value depth).map _
  | assign target value =>
    exact (exprText_demands target depth).bind fun _ => (exprText_demands value depth).map _

private theorem bodyLines_demands (depth : Nat) (body : List Stmt) :
    Demands (bodyLines site depth body) (body.flatMap Stmt.obstacles) := by
  induction body with
  | nil => exact demands_pure _
  | cons stmt rest ih => exact (stmtText_demands depth stmt).bind fun _ => ih.map _

private theorem ascription_demands (depth : Nat) (type : Option TypeExpr) :
    Demands (ascription site depth type) (type.elim [] TypeExpr.obstacles) := by
  cases type with
  | none => exact demands_pure _
  | some type => exact (typeText_demands type depth).map _

private theorem callableText_demands (head : String) (callable : Callable) (depth : Nat) :
    Demands (callableText site head callable depth) callable.obstacles := by
  rw [Callable.obstacles, List.append_assoc]
  refine (paramTexts_demands callable.params depth).bind fun _ => ?_
  refine (ascription_demands depth callable.result).bind fun _ => ?_
  exact (bodyLines_demands (depth + 1) callable.body).map _

end Values

section Declarations

variable {site : Site}

private theorem constructorText_demands (constructor? : Option Callable) :
    Demands (constructorText site constructor?)
      (constructor?.elim [] fun callable => { callable with result := none }.obstacles) := by
  cases constructor? with
  | none => exact demands_pure _
  | some callable => exact ((callableText_demands _ _ 1).within "constructor").map _

private theorem methodTexts_demands (methods : List ClassMethod) :
    Demands (methodTexts site methods)
      (methods.flatMap fun method => method.callable.obstacles) := by
  induction methods with
  | nil => exact demands_pure _
  | cons method rest ih =>
    refine ((callableText_demands _ method.callable 1).within _).bind fun _ => ?_
    exact ih.map _

private theorem declaredText_demands (name : String) : (declared : Declared) →
    Demands (declaredText site name declared) declared.obstacles
  | .interface fields isOpen => by
    have hobject : Demands (typeText site (.object fields isOpen) 0) (fieldObstacles fields) :=
      typeText_demands _ 0
    exact hobject.map _
  | .alias type => (typeText_demands type 0).map _
  | .const type value => by
    exact (ascription_demands 0 type).bind fun _ => (exprText_demands value 0).map _
  | .function callable => callableText_demands _ callable 0
  | .cls fields constructor? methods => by
    rw [Declared.obstacles, List.append_assoc]
    refine (fieldLines_demands "" fields 1).bind fun _ => ?_
    refine (constructorText_demands constructor?).bind fun _ => ?_
    exact (methodTexts_demands methods).map _

private theorem declTexts_demands (decls : List Decl) :
    Demands (declTexts site decls) (decls.flatMap Decl.obstacles) := by
  induction decls with
  | nil => exact demands_pure _
  | cons decl rest ih =>
    have hdecl : Demands (declText site decl) decl.obstacles :=
      (declaredText_demands (declaredName decl.name) decl.declared).map _
    exact (hdecl.within _).bind fun _ => ih.map _

end Declarations

/-- A unit has a text exactly if nothing in it stands in the way. -/
theorem unitText_isOk_iff (style : Style) (u : SourceUnit) :
    (∃ text, unitText style u = .ok text) ↔ ∀ o ∈ u.obstacles, Writable o := by
  have hrun : Demands (declTexts ⟨style, u.name⟩ u.decls) u.obstacles := declTexts_demands u.decls
  rw [← hrun .none]
  constructor
  · rintro ⟨text, htext⟩
    obtain ⟨r, hr, _⟩ := Outcome.bind_eq_ok.mp htext
    exact ⟨r, hr⟩
  · rintro ⟨r, hr⟩
    exact ⟨_, Outcome.bind_eq_ok.mpr ⟨r, hr, rfl⟩⟩

end LexiconCompiler.TypeScript
