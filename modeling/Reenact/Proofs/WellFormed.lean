/-
  Well-formed syntax trees.

  `Formed` is what a tree must fulfil for its text to be Lua: names are names, literals have their
  own text, what is called, assigned or declared can be, and a computed key does not begin with a
  bracket.  What it asks of operators, their operands and numbers is a parameter, the `rule`.

  `Expr.Formed` and `Stat.FormedAll` go down the tree; a method is formed only where it is `called`.
-/
import Reenact.Proofs.Grammar
import Reenact.Syntax.Layout

namespace Reenact

/-! ## Names, parameters and clauses -/

namespace Expr

/-- A name, with members behind points. -/
def isNamePath : Expr → Bool
  | name n => isName n
  | member base .dot n => base.isNamePath && isName n
  | _ => false

/-- The name of a function.  If it is not local, it can be a member, and a method. -/
def isFunctionName (isLocal : Bool) : Expr → Bool
  | name n => isName n
  | member base _ n => !isLocal && base.isNamePath && isName n
  | _ => false

end Expr

/-- Names, of which only the last can be the variable arguments. -/
def Param.areFormed : List Param → Bool
  | [] => true
  | [vararg] => true
  | name n :: rest => isName n && areFormed rest
  | _ => false

/-- Further conditions, and at most one last clause without. -/
def Clause.follow : List Clause → Bool
  | [] => true
  | [otherwise _] => true
  | elseIf .. :: rest => follow rest
  | _ => false

/-- A first condition, and what can follow it. -/
def Clause.areFormed : List Clause → Bool
  | ifThen .. :: rest => follow rest
  | _ => false

def Stat.isReturn : Stat → Bool
  | ret _ => true
  | _ => false

/-! ## Trees -/

mutual

/-- The expression can be written and read back.  Methods stand only before arguments, where the
    expression is `called`. -/
def Expr.Formed (rule : Expr → Prop) (called : Bool) : Expr → Prop
  | .name n => isName n = true
  | .text v source => source = textLiteral v
  | .number x source =>
    rule (.number x source) ∧ x.isFinite = true ∧ source = numberLiteral x
  | .boolean _ | .nil | .vararg => True
  | .binary op left right =>
    rule (.binary op left right) ∧ left.Formed rule false ∧ right.Formed rule false
  | .logical op left right =>
    rule (.logical op left right) ∧ left.Formed rule false ∧ right.Formed rule false
  | .unary op argument => rule (.unary op argument) ∧ argument.Formed rule false
  | .member base access n =>
    base.Formed rule false ∧ (access = .colon → called = true) ∧ isName n = true
  | .index base key =>
    base.Formed rule false ∧ key.Formed rule false ∧ (key.write {}).head? ≠ some '['
  | .call base arguments => base.Formed rule true ∧ Expr.FormedEach rule arguments
  | .tableCall base fields => base.Formed rule true ∧ Field.FormedEach rule fields
  | .textCall base v source => base.Formed rule true ∧ source = textLiteral v
  | .table fields => Field.FormedEach rule fields
  | .function params body => Param.areFormed params = true ∧ Stat.FormedAll rule body
  | .raw _ => False

/-- All expressions can be written and read back. -/
def Expr.FormedEach (rule : Expr → Prop) : List Expr → Prop
  | [] => True
  | e :: rest => e.Formed rule false ∧ Expr.FormedEach rule rest

/-- The field can be written and read back. -/
def Field.Formed (rule : Expr → Prop) : Field → Prop
  | .keyed key value =>
    key.Formed rule false ∧ value.Formed rule false ∧ (key.write {}).head? ≠ some '['
  | .named n value => isName n = true ∧ value.Formed rule false
  | .positional value => value.Formed rule false

/-- All fields can be written and read back. -/
def Field.FormedEach (rule : Expr → Prop) : List Field → Prop
  | [] => True
  | f :: rest => f.Formed rule ∧ Field.FormedEach rule rest

/-- The statement can be written and read back. -/
def Stat.Formed (rule : Expr → Prop) : Stat → Prop
  | .localNames names values =>
    names ≠ [] ∧ names.all isName = true ∧ Expr.FormedEach rule values
  | .function name isLocal params body =>
    name.any (Expr.isFunctionName isLocal) = true ∧ Param.areFormed params = true ∧
      Stat.FormedAll rule body
  | .call expr => expr.isCall = true ∧ expr.Formed rule false
  | .assign targets values =>
    targets ≠ [] ∧ values ≠ [] ∧ targets.all Expr.isTarget = true ∧
      Expr.FormedEach rule targets ∧ Expr.FormedEach rule values
  | .branch clauses => Clause.areFormed clauses = true ∧ Clause.FormedAll rule clauses
  | .ret values => Expr.FormedEach rule values
  | .whileLoop condition body => condition.Formed rule false ∧ Stat.FormedAll rule body
  | .breakLoop => True
  | .block body => Stat.FormedAll rule body
  | .repeatLoop body condition => Stat.FormedAll rule body ∧ condition.Formed rule false
  | .forRange n first last step body =>
    isName n = true ∧ first.Formed rule false ∧ last.Formed rule false ∧
      Expr.FormedOptional rule step ∧ Stat.FormedAll rule body
  | .forEach names iterators body =>
    names ≠ [] ∧ iterators ≠ [] ∧ names.all isName = true ∧ Expr.FormedEach rule iterators ∧
      Stat.FormedAll rule body
  | .goto label => isName label = true
  | .label n => isName n = true

/-- All statements can be written and read back, and nothing stands behind a `return`. -/
def Stat.FormedAll (rule : Expr → Prop) : List Stat → Prop
  | [] => True
  | s :: rest => s.Formed rule ∧ (s.isReturn = true → rest = []) ∧ Stat.FormedAll rule rest

/-- The clause can be written and read back. -/
def Clause.Formed (rule : Expr → Prop) : Clause → Prop
  | .ifThen condition body | .elseIf condition body =>
    condition.Formed rule false ∧ Stat.FormedAll rule body
  | .otherwise body => Stat.FormedAll rule body

/-- All clauses can be written and read back. -/
def Clause.FormedAll (rule : Expr → Prop) : List Clause → Prop
  | [] => True
  | c :: rest => c.Formed rule ∧ Clause.FormedAll rule rest

/-- The expression, if there is one, can be written and read back. -/
def Expr.FormedOptional (rule : Expr → Prop) : Option Expr → Prop
  | none => True
  | some e => e.Formed rule false

end

theorem Expr.FormedEach.of_mem {rule : Expr → Prop} : ∀ {es : List Expr},
    Expr.FormedEach rule es → ∀ e ∈ es, e.Formed rule false
  | e :: es, h, e', he' => by
    rcases List.mem_cons.1 he' with rfl | he'
    · exact h.1
    · exact of_mem h.2 e' he'

end Reenact
