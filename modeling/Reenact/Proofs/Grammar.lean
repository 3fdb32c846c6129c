/-
  Reading source text as syntax trees.

  The reader goes down the grammar of Lua with one function for each form.  Operators are read by
  their priorities: an operand belongs to the operator that holds it most strongly, and to the left
  one if both do equally, but for `..` and `^`.  Parentheses leave no trace in the tree.  What a
  numeral denotes is left to the `Reader`.

  * `Reader.expr?` and `Reader.block?` read an expression and a block, and give back the terminals
    behind them;
  * `readExpr?` and `read?` read a text that is an expression or a chunk.
-/
import Reenact.Proofs.Terminals

namespace Reenact

/-! ## Operators -/

/-- An operator between two operands. -/
inductive Operator where
  | binary (op : BinaryOp)
  | logical (op : LogicalOp)
deriving DecidableEq, Repr

namespace Operator

def apply : Operator → Expr → Expr → Expr
  | binary op => .binary op
  | logical op => .logical op

/-- How strongly an operator holds the operand on its left. -/
def left : Operator → Nat
  | logical .or => 1
  | logical .and => 2
  | binary op => match op with
    | .eq | .notEq | .lt | .ltEq | .gt | .gtEq => 3
    | .bitOr => 4
    | .bitXor => 5
    | .bitAnd => 6
    | .shl | .shr => 7
    | .concat => 9
    | .add | .sub => 10
    | .mul | .div | .floorDiv | .mod => 11
    | .pow => 14

/-- How strongly an operator holds the operand on its right.  Two operators group to the right. -/
def right : Operator → Nat
  | binary .concat => 8
  | binary .pow => 13
  | op => op.left

/-- How strongly the operators in front of one operand hold it. -/
def unary : Nat := 12

/-- How strongly an operator holds its operands at most. -/
def strongest : Nat := 14

theorem left_le_strongest (op : Operator) : op.left ≤ strongest := by
  rcases op with op | op <;> cases op <;> decide

def terminal : Operator → Terminal
  | logical .or => .word .or
  | logical .and => .word .and
  | binary op => .symbol <| match op with
    | .add => .add | .sub => .sub | .mul => .mul | .div => .div | .floorDiv => .floorDiv
    | .mod => .mod | .pow => .pow | .concat => .concat | .eq => .eq | .notEq => .notEq | .lt => .lt
    | .ltEq => .ltEq | .gt => .gt | .gtEq => .gtEq | .bitAnd => .bitAnd | .bitOr => .bitOr
    | .bitXor => .tilde | .shl => .shl | .shr => .shr

end Operator

def UnaryOp.terminal : UnaryOp → Terminal
  | not => .word .not
  | neg => .symbol .sub
  | len => .symbol .len
  | bitNot => .symbol .tilde

namespace Terminal

/-- The operator between two operands that a terminal is. -/
def operator? : Terminal → Option Operator
  | .word .or => some (.logical .or)
  | .word .and => some (.logical .and)
  | .symbol s => Option.map Operator.binary <| match s with
    | .add => some .add | .sub => some .sub | .mul => some .mul | .div => some .div
    | .floorDiv => some .floorDiv | .mod => some .mod | .pow => some .pow
    | .concat => some .concat | .eq => some .eq | .notEq => some .notEq | .lt => some .lt
    | .ltEq => some .ltEq | .gt => some .gt | .gtEq => some .gtEq | .bitAnd => some .bitAnd
    | .bitOr => some .bitOr | .tilde => some .bitXor | .shl => some .shl | .shr => some .shr
    | _ => none
  | _ => none

/-- The operator in front of one operand that a terminal is. -/
def unary? : Terminal → Option UnaryOp
  | .word .not => some .not
  | .symbol .sub => some .neg
  | .symbol .len => some .len
  | .symbol .tilde => some .bitNot
  | _ => none

/-- The terminal begins what can stand behind a base: a member, a key or arguments. -/
def beginsSuffix : Terminal → Bool
  | .symbol .dot | .symbol .colon | .symbol .openBracket | .symbol .openParen
  | .symbol .openBrace | .text _ => true
  | _ => false

/-- The terminal stands behind a block. -/
def endsBlock : Terminal → Bool
  | .word .end_ | .word .else_ | .word .elseif | .word .until_ => true
  | _ => false

end Terminal

theorem Operator.operator?_terminal (op : Operator) : op.terminal.operator? = some op := by
  rcases op with op | op <;> cases op <;> rfl

/-- No terminals, or one that stands behind a block. -/
def blockEnds : List Terminal → Bool
  | [] => true
  | t :: _ => t.endsBlock

/-! ## Kinds of expressions -/

namespace Expr

def isLogical : Expr → Bool
  | logical .. => true
  | _ => false

/-- How strongly the text of an expression holds together: an operator behind it that holds its left
    operand more strongly takes only the end of it.  A minus sign in front of a number is an
    operator. -/
def grip : Expr → Nat
  | logical op .. => (Operator.logical op).left
  | unary .. => Operator.unary
  | number _ source =>
    if source.toList.head? = some '-' then Operator.unary else Operator.strongest
  | _ => Operator.strongest

/-- The expression is read as a whole behind an operator that holds it with the given strength. -/
def fits (limit : Nat) (e : Expr) : Bool := !e.isLogical || limit < e.grip

/-- Both operands of an operator are read as a whole, if nothing is in parentheses. -/
def groups (op : Operator) (left right : Expr) : Bool :=
  op.left ≤ left.grip && right.fits op.right

/-- The operands of an expression are read as they stand in the tree. -/
def isGrouped : Expr → Bool
  | binary op left right => groups (.binary op) left right
  | logical op left right => groups (.logical op) left right
  | unary _ argument => argument.fits Operator.unary
  | _ => true

def isCall : Expr → Bool
  | call .. | tableCall .. | textCall .. => true
  | _ => false

/-- The expression can be assigned to. -/
def isTarget : Expr → Bool
  | name _ | member _ .dot _ | index .. => true
  | _ => false

end Expr

/-! ## Names and parameters -/

/-- What the grammar leaves open. -/
structure Reader where
  /-- The number that a numeral denotes -/
  valueOf : String → Binary64

namespace Reader

/-- The terminals behind a given one. -/
def skip? (t : Terminal) : List Terminal → Option (List Terminal)
  | [] => none
  | t' :: ts => if t' = t then some ts else none

def name? : List Terminal → Option (String × List Terminal)
  | .name n :: ts => some (n, ts)
  | _ => none

/-- Names with commas between. -/
def names? : List Terminal → Option (List String × List Terminal)
  | .name n :: .symbol .comma :: ts => do
    let (ns, ts) ← names? ts
    return (n :: ns, ts)
  | .name n :: ts => some ([n], ts)
  | _ => none

/-- Parameters with commas between, up to the closing parenthesis. -/
def paramsRest? : List Terminal → Option (List Param × List Terminal)
  | .name n :: .symbol .comma :: ts => do
    let (ps, ts) ← paramsRest? ts
    return (.name n :: ps, ts)
  | .name n :: .symbol .closeParen :: ts => some ([.name n], ts)
  | .symbol .dots :: .symbol .closeParen :: ts => some ([.vararg], ts)
  | _ => none

/-- Parameters in parentheses. -/
def params? : List Terminal → Option (List Param × List Terminal)
  | .symbol .openParen :: .symbol .closeParen :: ts => some ([], ts)
  | .symbol .openParen :: ts => paramsRest? ts
  | _ => none

/-- The members behind the first name of a function. -/
def functionPath (base : Expr) : List Terminal → Expr × List Terminal
  | .symbol .dot :: .name n :: ts => functionPath (.member base .dot n) ts
  | .symbol .colon :: .name n :: ts => (.member base .colon n, ts)
  | ts => (base, ts)

/-- The name of a function. -/
def functionName? : List Terminal → Option (Expr × List Terminal)
  | .name n :: ts => some (functionPath (.name n) ts)
  | _ => none

/-! ## Expressions and statements -/

mutual

/-- An expression whose operators all hold their operands more strongly than the limit. -/
def expr? (reader : Reader) (limit : Nat) (ts : List Terminal) : Option (Expr × List Terminal) := do
  let (e, ts) ← reader |>.operand? ts
  reader |>.operators? limit e ts
partial_fixpoint

/-- The operators and operands behind a first operand. -/
def operators? (reader : Reader) (limit : Nat) (e : Expr) (ts : List Terminal) :
    Option (Expr × List Terminal) :=
  match ts with
  | [] => some (e, [])
  | t :: rest =>
    match t.operator? with
    | some op =>
      if limit < op.left then do
        let (operand, rest) ← reader |>.expr? op.right rest
        reader |>.operators? limit (op.apply e operand) rest
      else some (e, t :: rest)
    | none => some (e, t :: rest)
partial_fixpoint

/-- An operand, with the operators in front of it. -/
def operand? (reader : Reader) (ts : List Terminal) : Option (Expr × List Terminal) :=
  match ts with
  | .number digits :: ts => some (.number (reader.valueOf digits) digits, ts)
  | .text v :: ts => some (.ofText v, ts)
  | .word .true :: ts => some (.boolean true, ts)
  | .word .false :: ts => some (.boolean false, ts)
  | .word .nil :: ts => some (.nil, ts)
  | .symbol .dots :: ts => some (.vararg, ts)
  | .symbol .openBrace :: ts => do
    let (fields, ts) ← reader |>.fields? ts
    return (.table fields, ts)
  | .word .function :: ts => do
    let (params, body, ts) ← reader |>.function? ts
    return (.function params body, ts)
  | .name n :: ts => reader |>.suffixed? (.name n :: ts)
  | .symbol .openParen :: ts => reader |>.suffixed? (.symbol .openParen :: ts)
  | t :: ts => do
    let op ← t.unary?
    let (argument, ts) ← reader |>.expr? Operator.unary ts
    return (.unary op argument, ts)
  | [] => none
partial_fixpoint

/-- A name or an expression in parentheses, with members, keys and arguments behind it. -/
def suffixed? (reader : Reader) (ts : List Terminal) : Option (Expr × List Terminal) :=
  match ts with
  | .name n :: ts => reader |>.suffixes? (.name n) ts
  | .symbol .openParen :: ts => do
    let (e, ts) ← reader |>.expr? 0 ts
    let ts ← skip? (.symbol .closeParen) ts
    reader |>.suffixes? e ts
  | _ => none
partial_fixpoint

/-- The members, keys and arguments behind a base. -/
def suffixes? (reader : Reader) (base : Expr) (ts : List Terminal) :
    Option (Expr × List Terminal) :=
  match ts with
  | .symbol .dot :: .name n :: ts => reader |>.suffixes? (.member base .dot n) ts
  | .symbol .colon :: .name n :: ts => do
    let (e, ts) ← reader |>.arguments? (.member base .colon n) ts
    reader |>.suffixes? e ts
  | .symbol .openBracket :: ts => do
    let (key, ts) ← reader |>.expr? 0 ts
    let ts ← skip? (.symbol .closeBracket) ts
    reader |>.suffixes? (.index base key) ts
  | .symbol .openParen :: _ | .symbol .openBrace :: _ | .text _ :: _ => do
    let (e, ts) ← reader |>.arguments? base ts
    reader |>.suffixes? e ts
  | ts => some (base, ts)
partial_fixpoint

/-- The call of a base with the arguments that the terminals begin with. -/
def arguments? (reader : Reader) (base : Expr) (ts : List Terminal) :
    Option (Expr × List Terminal) :=
  match ts with
  | .symbol .openParen :: .symbol .closeParen :: ts => some (.call base [], ts)
  | .symbol .openParen :: ts => do
    let (arguments, ts) ← reader |>.exprs? ts
    let ts ← skip? (.symbol .closeParen) ts
    return (.call base arguments, ts)
  | .symbol .openBrace :: ts => do
    let (fields, ts) ← reader |>.fields? ts
    return (.tableCall base fields, ts)
  | .text v :: ts => some (.textCall base v (textLiteral v), ts)
  | _ => none
partial_fixpoint

/-- Expressions with commas between. -/
def exprs? (reader : Reader) (ts : List Terminal) : Option (List Expr × List Terminal) := do
  let (e, ts) ← reader |>.expr? 0 ts
  match ts with
  | .symbol .comma :: ts =>
    let (es, ts) ← reader |>.exprs? ts
    return (e :: es, ts)
  | ts => return ([e], ts)
partial_fixpoint

/-- The fields of a table up to the closing brace. -/
def fields? (reader : Reader) (ts : List Terminal) : Option (List Field × List Terminal) :=
  match ts with
  | .symbol .closeBrace :: ts => some ([], ts)
  | ts => do
    let (f, ts) ← reader |>.field? ts
    match ts with
    | .symbol .comma :: ts | .symbol .semicolon :: ts =>
      let (fs, ts) ← reader |>.fields? ts
      return (f :: fs, ts)
    | ts =>
      let ts ← skip? (.symbol .closeBrace) ts
      return ([f], ts)
partial_fixpoint

/-- A field of a table. -/
def field? (reader : Reader) (ts : List Terminal) : Option (Field × List Terminal) :=
  match ts with
  | .symbol .openBracket :: ts => do
    let (key, ts) ← reader |>.expr? 0 ts
    let ts ← skip? (.symbol .closeBracket) ts
    let ts ← skip? (.symbol .assign) ts
    let (value, ts) ← reader |>.expr? 0 ts
    return (.keyed key value, ts)
  | .name n :: .symbol .assign :: ts => do
    let (value, ts) ← reader |>.expr? 0 ts
    return (.named n value, ts)
  | ts => do
    let (value, ts) ← reader |>.expr? 0 ts
    return (.positional value, ts)
partial_fixpoint

/-- Parameters, a body and its closing word. -/
def function? (reader : Reader) (ts : List Terminal) :
    Option (List Param × List Stat × List Terminal) := do
  let (params, ts) ← params? ts
  let (body, ts) ← reader |>.block? ts
  let ts ← skip? (.word .end_) ts
  return (params, body, ts)
partial_fixpoint

/-- Statements, up to a word that stands behind a block. -/
def block? (reader : Reader) (ts : List Terminal) : Option (List Stat × List Terminal) :=
  match ts with
  | .symbol .semicolon :: ts => reader |>.block? ts
  | .word .return_ :: ts => do
    let (values, ts) ← reader |>.returned? ts
    let ts := if ts.head? = some (.symbol .semicolon) then ts.tail else ts
    if blockEnds ts then return ([.ret values], ts) else none
  | ts =>
    if blockEnds ts then some ([], ts)
    else do
      let (s, ts) ← reader |>.stat? ts
      let (body, ts) ← reader |>.block? ts
      return (s :: body, ts)
partial_fixpoint

/-- The values that a function returns. -/
def returned? (reader : Reader) (ts : List Terminal) : Option (List Expr × List Terminal) :=
  if blockEnds ts || ts.head? = some (.symbol .semicolon) then some ([], ts)
  else reader |>.exprs? ts
partial_fixpoint

/-- A statement. -/
def stat? (reader : Reader) (ts : List Terminal) : Option (Stat × List Terminal) :=
  match ts with
  | .word k :: ts => reader |>.keywordStat? k ts
  | .symbol .doubleColon :: .name n :: .symbol .doubleColon :: ts => some (.label n, ts)
  | ts => reader |>.plainStat? ts
partial_fixpoint

/-- A statement behind the reserved word that it begins with. -/
def keywordStat? (reader : Reader) (k : Keyword) (ts : List Terminal) :
    Option (Stat × List Terminal) :=
  match k with
  | .local_ => reader |>.localStat? ts
  | .function => do
    let (name, ts) ← functionName? ts
    let (params, body, ts) ← reader |>.function? ts
    return (.function (some name) false params body, ts)
  | .if_ => do
    let (condition, ts) ← reader |>.expr? 0 ts
    let ts ← skip? (.word .then_) ts
    let (body, ts) ← reader |>.block? ts
    let (clauses, ts) ← reader |>.clauses? ts
    return (.branch (.ifThen condition body :: clauses), ts)
  | .while_ => do
    let (condition, ts) ← reader |>.expr? 0 ts
    let ts ← skip? (.word .do_) ts
    let (body, ts) ← reader |>.block? ts
    let ts ← skip? (.word .end_) ts
    return (.whileLoop condition body, ts)
  | .break_ => some (.breakLoop, ts)
  | .do_ => do
    let (body, ts) ← reader |>.block? ts
    let ts ← skip? (.word .end_) ts
    return (.block body, ts)
  | .repeat_ => do
    let (body, ts) ← reader |>.block? ts
    let ts ← skip? (.word .until_) ts
    let (condition, ts) ← reader |>.expr? 0 ts
    return (.repeatLoop body condition, ts)
  | .for_ => reader |>.forStat? ts
  | .goto => do
    let (n, ts) ← name? ts
    return (.goto n, ts)
  | _ => none
partial_fixpoint

/-- The declaration of a local function or of locals, behind its word. -/
def localStat? (reader : Reader) (ts : List Terminal) : Option (Stat × List Terminal) :=
  match ts with
  | .word .function :: ts => do
    let (n, ts) ← name? ts
    let (params, body, ts) ← reader |>.function? ts
    return (.function (some (.name n)) true params body, ts)
  | ts => do
    let (names, ts) ← names? ts
    match ts with
    | .symbol .assign :: ts =>
      let (values, ts) ← reader |>.exprs? ts
      return (.localNames names values, ts)
    | ts => return (.localNames names [], ts)
partial_fixpoint

/-- A loop over numbers or over the results of an iterator, behind its word. -/
def forStat? (reader : Reader) (ts : List Terminal) : Option (Stat × List Terminal) := do
  let (names, ts) ← names? ts
  match names, ts with
  | [n], .symbol .assign :: ts =>
    let (bounds, ts) ← reader |>.exprs? ts
    let ts ← skip? (.word .do_) ts
    let (body, ts) ← reader |>.block? ts
    let ts ← skip? (.word .end_) ts
    match bounds with
    | [first, last] => return (.forRange n first last none body, ts)
    | [first, last, step] => return (.forRange n first last (some step) body, ts)
    | _ => none
  | names, ts =>
    let ts ← skip? (.word .in_) ts
    let (iterators, ts) ← reader |>.exprs? ts
    let ts ← skip? (.word .do_) ts
    let (body, ts) ← reader |>.block? ts
    let ts ← skip? (.word .end_) ts
    return (.forEach names iterators body, ts)
partial_fixpoint

/-- An assignment or a call. -/
def plainStat? (reader : Reader) (ts : List Terminal) : Option (Stat × List Terminal) := do
  let (es, ts) ← reader |>.targets? ts
  match es, ts with
  | es, .symbol .assign :: ts =>
    let (values, ts) ← reader |>.exprs? ts
    if es.all Expr.isTarget then return (.assign es values, ts) else none
  | [e], ts => if e.isCall then return (.call e, ts) else none
  | _, _ => none
partial_fixpoint

/-- The clauses behind the first one of an `if` statement, and its closing word. -/
def clauses? (reader : Reader) (ts : List Terminal) : Option (List Clause × List Terminal) :=
  match ts with
  | .word .elseif :: ts => do
    let (condition, ts) ← reader |>.expr? 0 ts
    let ts ← skip? (.word .then_) ts
    let (body, ts) ← reader |>.block? ts
    let (clauses, ts) ← reader |>.clauses? ts
    return (.elseIf condition body :: clauses, ts)
  | .word .else_ :: ts => do
    let (body, ts) ← reader |>.block? ts
    let ts ← skip? (.word .end_) ts
    return ([.otherwise body], ts)
  | .word .end_ :: ts => some ([], ts)
  | _ => none
partial_fixpoint

/-- What can be assigned to or called, with commas between. -/
def targets? (reader : Reader) (ts : List Terminal) : Option (List Expr × List Terminal) := do
  let (e, ts) ← reader |>.suffixed? ts
  match ts with
  | .symbol .comma :: ts =>
    let (es, ts) ← reader |>.targets? ts
    return (e :: es, ts)
  | ts => return ([e], ts)
partial_fixpoint

end

end Reader

/-! ## Texts -/

/-- A text that is an expression. -/
def readExpr? (reader : Reader) (text : String) : Option Expr := do
  let ts ← terminals? text.toList
  let (e, ts) ← reader.expr? 0 ts
  if ts.isEmpty then return e else none

/-- A text that is a chunk. -/
def read? (reader : Reader) (text : String) : Option (List Stat) := do
  let ts ← terminals? text.toList
  let (body, ts) ← reader.block? ts
  if ts.isEmpty then return body else none

end Reenact
