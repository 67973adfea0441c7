import LexiconCompiler.Code.Unit

set_option autoImplicit false
set_option relaxedAutoImplicit false

/-!
What generated code takes from libraries and from units by name, in the order in which it is written
down.
-/

namespace LexiconCompiler.Code

/-- Something that generated code does not declare where it stands. -/
inductive Mention where
  | library (handle : RuntimeHandle)
  /-- A type of the unit of this name. -/
  | type (unit name : String)
  /-- A value of the unit of this name. -/
  | value (unit name : String)
  deriving DecidableEq, Repr

def Mention.unit? : Mention -> Option String
  | .library _ => none
  | .type unit _ => some unit
  | .value unit _ => some unit

mutual

def TypeExpr.mentions : TypeExpr -> List Mention
  | .missing => []
  | .scalar _ => []
  | .literal _ => []
  | .union members _ _ => memberMentions members
  | .object fields _ => fieldMentions fields
  | .array element => element.mentions
  | .blob _ _ _ => [.library .blobRef]
  | .ref none _ => []
  | .ref (some unit) name => [.type unit name]
  | .bytes => []
  | .void => []
  | .func params result _ => paramMentions params ++ result.mentions
  | .runtime handle => [.library handle]
  | .predicate _ target => target.mentions

def memberMentions : List TypeExpr -> List Mention
  | [] => []
  | member :: rest => member.mentions ++ memberMentions rest

def fieldMentions : List (FieldSpec TypeExpr) -> List Mention
  | [] => []
  | ⟨_, type, _, _⟩ :: rest => type.mentions ++ fieldMentions rest

def paramMentions : List (Param TypeExpr) -> List Mention
  | [] => []
  | ⟨_, type, _⟩ :: rest => type.mentions ++ paramMentions rest

end

mutual

def Expr.mentions : Expr -> List Mention
  | .missing => []
  | .ident _ => []
  | .this => []
  | .str _ => []
  | .member receiver _ => receiver.mentions
  | .call function args => function.mentions ++ argMentions args
  | .construct cls args => cls.mentions ++ argMentions args
  | .object entries => entryMentions entries
  | .json _ => []
  | .values subject => subject.mentions
  | .cast subject type => subject.mentions ++ type.mentions
  | .tagCheck _ _ => []
  | .runtime handle => [.library handle]
  | .imported unit name => [.value unit name]

def argMentions : List Expr -> List Mention
  | [] => []
  | arg :: rest => arg.mentions ++ argMentions rest

def entryMentions : List (Entry Expr) -> List Mention
  | [] => []
  | ⟨_, value⟩ :: rest => value.mentions ++ entryMentions rest

end

def Stmt.mentions : Stmt -> List Mention
  | .ret value => value.mentions
  | .assign target value => target.mentions ++ value.mentions

def Callable.mentions (callable : Callable) : List Mention :=
  paramMentions callable.params ++ callable.result.elim [] TypeExpr.mentions ++
    callable.body.flatMap Stmt.mentions

def Declared.mentions : Declared -> List Mention
  | .interface fields _ => fieldMentions fields
  | .alias type => type.mentions
  | .const type value => type.elim [] TypeExpr.mentions ++ value.mentions
  | .function callable => callable.mentions
  | .cls fields constructor? methods =>
    fieldMentions fields ++
      constructor?.elim [] (fun callable => { callable with result := none }.mentions) ++
      methods.flatMap fun method => method.callable.mentions

def Decl.mentions (decl : Decl) : List Mention := decl.declared.mentions

-- The equations are derived here, once for all the proofs that rewrite with them.
attribute [grind =] TypeExpr.mentions memberMentions fieldMentions paramMentions Expr.mentions
  argMentions entryMentions Stmt.mentions Callable.mentions Declared.mentions

def unitsOf (mentions : List Mention) : List String := mentions.filterMap Mention.unit?

@[simp] theorem unitsOf_nil : unitsOf [] = [] := rfl

@[simp] theorem unitsOf_library (handle : RuntimeHandle) (mentions : List Mention) :
    unitsOf (.library handle :: mentions) = unitsOf mentions := rfl

@[simp] theorem unitsOf_value (unit name : String) (mentions : List Mention) :
    unitsOf (.value unit name :: mentions) = unit :: unitsOf mentions := rfl

@[simp] theorem unitsOf_append (front back : List Mention) :
    unitsOf (front ++ back) = unitsOf front ++ unitsOf back :=
  List.filterMap_append

theorem unitsOf_flatMap {α : Type} (mentions : α → List Mention) (xs : List α) :
    unitsOf (xs.flatMap mentions) = xs.flatMap fun x => unitsOf (mentions x) := by
  induction xs with
  | nil => rfl
  | cons x rest ih => rw [List.flatMap_cons, unitsOf_append, ih, List.flatMap_cons]

section Lists

theorem memberMentions_eq (members : List TypeExpr) :
    memberMentions members = members.flatMap TypeExpr.mentions := by
  induction members with
  | nil => rfl
  | cons member rest ih => rw [memberMentions, ih, List.flatMap_cons]

theorem fieldMentions_eq (fields : List (FieldSpec TypeExpr)) :
    fieldMentions fields = fields.flatMap fun field => field.type.mentions := by
  induction fields with
  | nil => rfl
  | cons field rest ih => rw [fieldMentions, ih, List.flatMap_cons]

theorem entryMentions_eq (entries : List (Entry Expr)) :
    entryMentions entries = entries.flatMap fun entry => entry.value.mentions := by
  induction entries with
  | nil => rfl
  | cons entry rest ih => rw [entryMentions, ih, List.flatMap_cons]

end Lists

theorem Decl.mentions_ofType (name : String) (doc : Documentation) (type : TypeExpr) :
    (Decl.ofType name doc type).mentions = type.mentions := by
  cases type <;> simp [Decl.ofType, Decl.mentions, Declared.mentions, TypeExpr.mentions]

theorem TypeExpr.mentions_texts (values : List String) : (TypeExpr.texts values).mentions = [] := by
  simp [TypeExpr.texts, TypeExpr.oneOf, TypeExpr.mentions, memberMentions_eq]

namespace SourceUnit

def mentions (u : SourceUnit) : List Mention := u.decls.flatMap Decl.mentions

/-- A unit needs the units that its declarations mention, and no others. -/
def Exact (u : SourceUnit) : Prop :=
  u = (unitsOf u.mentions).foldl addDep { u with deps := [] }

theorem foldl_addDep_eq (u : SourceUnit) (needs : List String) :
    needs.foldl addDep u = { u with deps := (needs.foldl addDep u).deps } := by
  induction needs generalizing u with
  | nil => rfl
  | cons name rest ih =>
    have hstep : u.addDep name = { u with deps := (u.addDep name).deps } := by
      unfold addDep
      split <;> rfl
    rw [List.foldl_cons, ih, hstep]

theorem nodup_deps_foldl_addDep {u : SourceUnit} (h : u.deps.Nodup) (needs : List String) :
    (needs.foldl addDep u).deps.Nodup := by
  induction needs generalizing u with
  | nil => exact h
  | cons name rest ih =>
    refine ih ?_
    unfold addDep
    split
    · rename_i hnew
      simp only [isNewDep, Bool.not_eq_true', Bool.or_eq_false_iff] at hnew
      have hmem : name ∉ u.deps := by simpa using hnew.2
      refine List.nodup_append.mpr ⟨h, List.pairwise_singleton _ name, fun other ho new hn he => ?_⟩
      rw [he, List.mem_singleton.mp hn] at ho
      exact hmem ho
    · exact h

theorem Exact.nodup_deps {u : SourceUnit} (h : u.Exact) : u.deps.Nodup := by
  rw [h]
  exact nodup_deps_foldl_addDep List.nodup_nil _

end SourceUnit

end LexiconCompiler.Code
