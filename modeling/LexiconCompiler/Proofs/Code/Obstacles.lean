import LexiconCompiler.Code.Unit

set_option autoImplicit false
set_option relaxedAutoImplicit false

/-!
What in generated code may keep it from being written down: gaps, things that a library has to
supply, and JSON text. They are listed in the order in which the code is written.
-/

namespace LexiconCompiler.Code

/-- Something that cannot be written down in every language, or in none. -/
inductive Obstacle where
  | missingType
  | missingExpression
  | library (handle : RuntimeHandle)
  | json (text : String)
  deriving DecidableEq, Repr

/-- Obstacles that are none where all libraries are at hand. -/
def Obstacle.IsLibrary : Obstacle -> Prop
  | .library handle => handle ∈ RuntimeHandle.known
  | _ => False

instance : DecidablePred Obstacle.IsLibrary
  | .library handle => inferInstanceAs (Decidable (handle ∈ RuntimeHandle.known))
  | .missingType => isFalse id
  | .missingExpression => isFalse id
  | .json _ => isFalse id

mutual

def TypeExpr.obstacles : TypeExpr -> List Obstacle
  | .missing => [.missingType]
  | .scalar _ => []
  | .literal _ => []
  | .union members _ _ => memberObstacles members
  | .object fields _ => fieldObstacles fields
  | .array element => element.obstacles
  | .blob _ _ _ => [.library .blobRef]
  | .ref _ _ => []
  | .bytes => []
  | .void => []
  | .func params result _ => paramObstacles params ++ result.obstacles
  | .runtime handle => [.library handle]
  | .predicate _ target => target.obstacles

def memberObstacles : List TypeExpr -> List Obstacle
  | [] => []
  | member :: rest => member.obstacles ++ memberObstacles rest

def fieldObstacles : List (FieldSpec TypeExpr) -> List Obstacle
  | [] => []
  | ⟨_, type, _, _⟩ :: rest => type.obstacles ++ fieldObstacles rest

def paramObstacles : List (Param TypeExpr) -> List Obstacle
  | [] => []
  | ⟨_, type, _⟩ :: rest => type.obstacles ++ paramObstacles rest

end

mutual

def Expr.obstacles : Expr -> List Obstacle
  | .missing => [.missingExpression]
  | .ident _ => []
  | .this => []
  | .str _ => []
  | .member receiver _ => receiver.obstacles
  | .call function args => function.obstacles ++ argObstacles args
  | .construct cls args => cls.obstacles ++ argObstacles args
  | .object entries => entryObstacles entries
  | .json text => [.json text]
  | .values subject => subject.obstacles
  | .cast subject type => subject.obstacles ++ type.obstacles
  | .tagCheck _ _ => []
  | .runtime handle => [.library handle]
  | .imported _ _ => []

def argObstacles : List Expr -> List Obstacle
  | [] => []
  | arg :: rest => arg.obstacles ++ argObstacles rest

def entryObstacles : List (Entry Expr) -> List Obstacle
  | [] => []
  | ⟨_, value⟩ :: rest => value.obstacles ++ entryObstacles rest

end

def Stmt.obstacles : Stmt -> List Obstacle
  | .ret value => value.obstacles
  | .assign target value => target.obstacles ++ value.obstacles

def Callable.obstacles (callable : Callable) : List Obstacle :=
  paramObstacles callable.params ++ callable.result.elim [] TypeExpr.obstacles ++
    callable.body.flatMap Stmt.obstacles

def Declared.obstacles : Declared -> List Obstacle
  | .interface fields _ => fieldObstacles fields
  | .alias type => type.obstacles
  | .const type value => type.elim [] TypeExpr.obstacles ++ value.obstacles
  | .function callable => callable.obstacles
  | .cls fields constructor? methods =>
    fieldObstacles fields ++
      constructor?.elim [] (fun callable => { callable with result := none }.obstacles) ++
      methods.flatMap fun method => method.callable.obstacles

def Decl.obstacles (decl : Decl) : List Obstacle := decl.declared.obstacles

def SourceUnit.obstacles (u : SourceUnit) : List Obstacle := u.decls.flatMap Decl.obstacles

section Lists

theorem memberObstacles_eq (members : List TypeExpr) :
    memberObstacles members = members.flatMap TypeExpr.obstacles := by
  induction members with
  | nil => rfl
  | cons member rest ih => rw [memberObstacles, ih, List.flatMap_cons]

theorem fieldObstacles_eq (fields : List (FieldSpec TypeExpr)) :
    fieldObstacles fields = fields.flatMap fun field => field.type.obstacles := by
  induction fields with
  | nil => rfl
  | cons field rest ih => rw [fieldObstacles, ih, List.flatMap_cons]

theorem entryObstacles_eq (entries : List (Entry Expr)) :
    entryObstacles entries = entries.flatMap fun entry => entry.value.obstacles := by
  induction entries with
  | nil => rfl
  | cons entry rest ih => rw [entryObstacles, ih, List.flatMap_cons]

end Lists

theorem Decl.obstacles_ofType (name : String) (doc : Documentation) (type : TypeExpr) :
    (Decl.ofType name doc type).obstacles = type.obstacles := by
  cases type <;> simp [Decl.ofType, Decl.obstacles, Declared.obstacles, TypeExpr.obstacles]

theorem TypeExpr.obstacles_texts (values : List String) :
    (TypeExpr.texts values).obstacles = [] := by
  simp [TypeExpr.texts, TypeExpr.oneOf, TypeExpr.obstacles, memberObstacles_eq]

end LexiconCompiler.Code
