/-
  Syntax trees of Lua source text.

  Trees are built, never parsed, and nothing is checked when one is built.  The literals of strings
  and numbers carry the text they are written with beside their value; the smart constructors
  `Expr.ofText` and `Expr.ofNumber` give them the text of `Literal/Text` and `Literal/Number`.
-/
import Reenact.Literal.Text
import Reenact.Literal.Number
import Reenact.Binary64.Rounding

namespace Reenact

/-! ## Operators -/

/-- Operators between two operands that are written in parentheses. -/
inductive BinaryOp where
  | add | sub | mul | div | floorDiv | mod | pow | concat
  | eq | notEq | lt | ltEq | gt | gtEq
  | bitAnd | bitOr | bitXor | shl | shr
deriving DecidableEq, Repr

def BinaryOp.symbol : BinaryOp → String
  | add => "+" | sub => "-" | mul => "*" | div => "/" | floorDiv => "//" | mod => "%" | pow => "^"
  | concat => ".." | eq => "==" | notEq => "~=" | lt => "<" | ltEq => "<=" | gt => ">"
  | gtEq => ">=" | bitAnd => "&" | bitOr => "|" | bitXor => "~" | shl => "<<" | shr => ">>"

/-- Operators between two operands that decide whether the second is evaluated. -/
inductive LogicalOp where
  | and | or
deriving DecidableEq, Repr

def LogicalOp.symbol : LogicalOp → String
  | and => "and" | or => "or"

/-- Operators before one operand. -/
inductive UnaryOp where
  | not | neg | len | bitNot
deriving DecidableEq, Repr

def UnaryOp.symbol : UnaryOp → String
  | not => "not" | neg => "-" | len => "#" | bitNot => "~"

/-- What stands between a value and the name of its member. -/
inductive Access where
  /-- `base.name` -/
  | dot
  /-- `base:name`, a method -/
  | colon
deriving DecidableEq, Repr

def Access.symbol : Access → String
  | dot => "." | colon => ":"

/-- A parameter of a function. -/
inductive Param where
  | name (name : String)
  /-- `...` -/
  | vararg
deriving DecidableEq, Repr

/-! ## Expressions and statements -/

mutual

/-- An expression. -/
inductive Expr where
  | name (name : String)
  /-- A string literal and the text it is written with -/
  | text (value source : String)
  /-- A number literal and the text it is written with -/
  | number (value : Binary64) (source : String)
  | boolean (value : Bool)
  | nil
  /-- `...` -/
  | vararg
  /-- `(left op right)` -/
  | binary (op : BinaryOp) (left right : Expr)
  /-- `left op right` -/
  | logical (op : LogicalOp) (left right : Expr)
  /-- `op argument` -/
  | unary (op : UnaryOp) (argument : Expr)
  /-- `base.name` or `base:name` -/
  | member (base : Expr) (access : Access) (name : String)
  /-- `base[key]` -/
  | index (base key : Expr)
  /-- `base(arguments)` -/
  | call (base : Expr) (arguments : List Expr)
  /-- `base({fields})` -/
  | tableCall (base : Expr) (fields : List Field)
  /-- `base("text")` -/
  | textCall (base : Expr) (value source : String)
  /-- `{fields}` -/
  | table (fields : List Field)
  /-- `(function(params) body end)` -/
  | function (params : List Param) (body : List Stat)
  /-- Source text that stands for itself -/
  | raw (source : String)

/-- A field of a table constructor. -/
inductive Field where
  /-- `[key] = value` -/
  | keyed (key value : Expr)
  /-- `name = value` -/
  | named (name : String) (value : Expr)
  /-- `value`, at the next position -/
  | positional (value : Expr)

/-- A statement. -/
inductive Stat where
  /-- `local names = values`, or without values `local names` -/
  | localNames (names : List String) (values : List Expr)
  /-- `function name(params) body end` -/
  | function (name : Option Expr) (isLocal : Bool) (params : List Param) (body : List Stat)
  /-- An expression, for its effect -/
  | call (expr : Expr)
  /-- `targets = values` -/
  | assign (targets values : List Expr)
  /-- `if ... elseif ... else ... end` -/
  | branch (clauses : List Clause)
  | ret (values : List Expr)
  /-- `while condition do body end` -/
  | whileLoop (condition : Expr) (body : List Stat)
  | breakLoop
  /-- `do body end` -/
  | block (body : List Stat)
  /-- `repeat body until condition` -/
  | repeatLoop (body : List Stat) (condition : Expr)
  /-- `for name = first, last, step do body end` -/
  | forRange (name : String) (first last : Expr) (step : Option Expr) (body : List Stat)
  /-- `for names in iterators do body end` -/
  | forEach (names : List String) (iterators : List Expr) (body : List Stat)
  | goto (label : String)
  | label (name : String)

/-- A clause of an `if` statement. -/
inductive Clause where
  | ifThen (condition : Expr) (body : List Stat)
  | elseIf (condition : Expr) (body : List Stat)
  | otherwise (body : List Stat)

end

/-! ## Smart constructors -/

namespace Expr

/-- The literal of a string. -/
def ofText (value : String) : Expr := text value (textLiteral value)

/-- The literal of a number. -/
def ofNumber (value : Binary64) : Expr := number value (numberLiteral value)

/-- The literal of a natural number. -/
def ofNat (n : Nat) : Expr := ofNumber (Binary64.ofInt n)

/-- `base:method(arguments)` -/
def methodCall (base : Expr) (method : String) (arguments : List Expr) : Expr :=
  call (member base .colon method) arguments

/-- The expression can stand before `.name`, `[key]` and `(arguments)` as it is.  Functions and
    binary operations can, because they are written in parentheses of their own, and raw text is
    taken to. -/
def isHead : Expr → Bool
  | name _ | member .. | index .. | call .. | tableCall .. | textCall .. | function .. | binary ..
  | raw _ => true
  | text .. | number .. | boolean _ | nil | vararg | logical .. | unary .. | table _ => false

end Expr

namespace Stat

/-- `local name = value` -/
def localName (name : String) (value : Expr) : Stat := localNames [name] [value]

/-- `target = value` -/
def assignOne (target value : Expr) : Stat := assign [target] [value]

/-- `if condition then body end` -/
def ifThen (condition : Expr) (body : List Stat) : Stat := branch [.ifThen condition body]

end Stat

end Reenact
