import LexiconCompiler.Code.Unit

set_option autoImplicit false
set_option relaxedAutoImplicit false

/-!
Names in generated code and what they are bound to. `Bound` says of a piece of code that every name
in it is known: declarations by `known`, where no unit means the unit that the code stands in, and
parameters by the scope of the place.
-/

namespace LexiconCompiler.Code

/-- Which declarations are known: the unit, if it is another one, and the name. -/
abbrev Known := Option String -> String -> Prop

/-- All names in a type are bound. -/
inductive TypeExpr.Bound (known : Known) : List String -> TypeExpr -> Prop
  | missing {scope : List String} : Bound known scope .missing
  | scalar {scope : List String} {kind : ScalarKind} : Bound known scope (.scalar kind)
  | literal {scope : List String} {value : Literal} : Bound known scope (.literal value)
  | union {scope : List String} {members : List TypeExpr} {isOpen : Bool}
      {base : Option ScalarKind} : (∀ member ∈ members, Bound known scope member) →
      Bound known scope (.union members isOpen base)
  | object {scope : List String} {fields : List (FieldSpec TypeExpr)} {isOpen : Bool} :
      (∀ field ∈ fields, Bound known scope field.type) →
      Bound known scope (.object fields isOpen)
  | array {scope : List String} {element : TypeExpr} : Bound known scope element →
      Bound known scope (.array element)
  | blob {scope : List String} {variant : String} {accept : List String} {maxSize : Option Int} :
      Bound known scope (.blob variant accept maxSize)
  | ref {scope : List String} {unit : Option String} {name : String} : known unit name →
      Bound known scope (.ref unit name)
  | bytes {scope : List String} : Bound known scope .bytes
  | void {scope : List String} : Bound known scope .void
  | func {scope : List String} {params : List (Param TypeExpr)} {result : TypeExpr}
      {maybeAsync : Bool} : (∀ param ∈ params, Bound known scope param.type) →
      Bound known (params.map Param.name ++ scope) result →
      Bound known scope (.func params result maybeAsync)
  | runtime {scope : List String} {handle : RuntimeHandle} : Bound known scope (.runtime handle)
  | predicate {scope : List String} {param : String} {target : TypeExpr} : param ∈ scope →
      Bound known scope target → Bound known scope (.predicate param target)

/-- All names in a value are bound. An identifier is a parameter in scope or a declaration of the
same unit. -/
inductive Expr.Bound (known : Known) (scope : List String) : Expr -> Prop
  | missing : Bound known scope .missing
  | ident {name : String} : name ∈ scope ∨ known none name → Bound known scope (.ident name)
  | this : Bound known scope .this
  | str {value : String} : Bound known scope (.str value)
  | member {receiver : Expr} {name : String} : Bound known scope receiver →
      Bound known scope (.member receiver name)
  | call {function : Expr} {args : List Expr} : Bound known scope function →
      (∀ arg ∈ args, Bound known scope arg) → Bound known scope (.call function args)
  | construct {cls : Expr} {args : List Expr} : Bound known scope cls →
      (∀ arg ∈ args, Bound known scope arg) → Bound known scope (.construct cls args)
  | object {entries : List (Entry Expr)} : (∀ entry ∈ entries, Bound known scope entry.value) →
      Bound known scope (.object entries)
  | json {text : String} : Bound known scope (.json text)
  | values {subject : Expr} : Bound known scope subject → Bound known scope (.values subject)
  | cast {subject : Expr} {type : TypeExpr} : Bound known scope subject →
      type.Bound known scope → Bound known scope (.cast subject type)
  | tagCheck {param : String} {tags : List String} : param ∈ scope →
      Bound known scope (.tagCheck param tags)
  | runtime {handle : RuntimeHandle} : Bound known scope (.runtime handle)
  | imported {unit name : String} : known (some unit) name →
      Bound known scope (.imported unit name)

def Stmt.Bound (known : Known) (scope : List String) : Stmt -> Prop
  | .ret value => value.Bound known scope
  | .assign target value => target.Bound known scope ∧ value.Bound known scope

/-- All names in a function are bound; its parameters are in scope in its result and body. -/
structure Callable.Bound (known : Known) (callable : Callable) : Prop where
  params : ∀ param ∈ callable.params, param.type.Bound known []
  result : ∀ type ∈ callable.result, type.Bound known (callable.params.map Param.name)
  body : ∀ stmt ∈ callable.body, stmt.Bound known (callable.params.map Param.name)

/-- All names in a declaration are bound. -/
def Decl.Bound (known : Known) (decl : Decl) : Prop :=
  match decl.declared with
  | .interface fields _ => ∀ field ∈ fields, field.type.Bound known []
  | .alias type => type.Bound known []
  | .const type value => (∀ t ∈ type, t.Bound known []) ∧ value.Bound known []
  | .function callable => callable.Bound known
  | .cls fields constructor? methods =>
    (∀ field ∈ fields, field.type.Bound known []) ∧
      (∀ callable ∈ constructor?, callable.Bound known) ∧
      ∀ method ∈ methods, method.callable.Bound known

section Mono

variable {known more : Known} (h : ∀ unit name, known unit name → more unit name)
include h

theorem TypeExpr.Bound.mono {scope : List String} {type : TypeExpr}
    (hb : type.Bound known scope) : type.Bound more scope := by
  induction hb with
  | missing => exact .missing
  | scalar => exact .scalar
  | literal => exact .literal
  | union _ ih => exact .union ih
  | object _ ih => exact .object ih
  | array _ ih => exact .array ih
  | blob => exact .blob
  | ref hk => exact .ref (h _ _ hk)
  | bytes => exact .bytes
  | void => exact .void
  | func _ _ hparams hresult => exact .func hparams hresult
  | runtime => exact .runtime
  | predicate hp _ ih => exact .predicate hp ih

private theorem Expr.Bound.mono {scope : List String} {value : Expr}
    (hb : value.Bound known scope) :
    value.Bound more scope := by
  induction hb with
  | missing => exact .missing
  | ident hn => exact .ident (hn.imp id (h _ _))
  | this => exact .this
  | str => exact .str
  | member _ ih => exact .member ih
  | call _ _ hf ha => exact .call hf ha
  | construct _ _ hc ha => exact .construct hc ha
  | object _ ih => exact .object ih
  | json => exact .json
  | values _ ih => exact .values ih
  | cast _ ht ih => exact .cast ih (ht.mono h)
  | tagCheck hp => exact .tagCheck hp
  | runtime => exact .runtime
  | imported hk => exact .imported (h _ _ hk)

private theorem Stmt.Bound.mono {scope : List String} {stmt : Stmt} (hb : stmt.Bound known scope) :
    stmt.Bound more scope := by
  cases stmt with
  | ret value => exact Expr.Bound.mono h hb
  | assign target value => exact ⟨hb.1.mono h, hb.2.mono h⟩

private theorem Callable.Bound.mono {callable : Callable} (hb : callable.Bound known) :
    callable.Bound more where
  params := fun param hp => (hb.params param hp).mono h
  result := fun type ht => (hb.result type ht).mono h
  body := fun stmt hs => (hb.body stmt hs).mono h

theorem Decl.Bound.mono {decl : Decl} (hb : decl.Bound known) : decl.Bound more := by
  unfold Decl.Bound at hb ⊢
  split at hb
  · exact fun field hf => (hb field hf).mono h
  · exact hb.mono h
  · exact ⟨fun type ht => (hb.1 type ht).mono h, hb.2.mono h⟩
  · exact hb.mono h
  · exact ⟨fun field hf => (hb.1 field hf).mono h, fun callable hc => (hb.2.1 callable hc).mono h,
      fun method hm => (hb.2.2 method hm).mono h⟩

end Mono

theorem Decl.bound_ofType {known : Known} {name : String} {doc : Documentation} {type : TypeExpr}
    (h : type.Bound known []) : (Decl.ofType name doc type).Bound known := by
  unfold Decl.ofType
  split
  · cases h with
    | object hf => exact hf
  · exact h

theorem Decl.name_ofType (name : String) (doc : Documentation) (type : TypeExpr) :
    (Decl.ofType name doc type).name = name := by
  unfold Decl.ofType
  split <;> rfl

theorem TypeExpr.bound_texts (known : Known) (scope : List String) (values : List String) :
    (TypeExpr.texts values).Bound known scope := by
  refine .union fun member hm => ?_
  obtain ⟨value, _, rfl⟩ := List.mem_map.mp hm
  exact .literal

end LexiconCompiler.Code
