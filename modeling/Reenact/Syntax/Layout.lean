/-
  Writing syntax trees as text.

  Every statement starts with the indentation of its depth and ends with the separator.  The body of
  a block is one level deeper, and its closing word is back at the level of the block; of the
  clauses of an `if` statement only the last has one.  A table has one field on a line, one level
  deeper, with a comma after all but the last.  Binary operations are always in parentheses, logical
  and unary ones never.

  * `Layout` holds the separator, the line break, the width of a level and the depth;
  * `Expr.render` is the text of an expression, `Stat.render` that of a list of statements.
-/
import Reenact.Syntax.Tree

namespace Reenact

/-- How trees are laid out. -/
structure Layout where
  /-- Written after every statement, with its line break. -/
  separator : String := ";\n"
  /-- The number of spaces of one level. -/
  indentWidth : Nat := 2
  /-- The level of the outermost statements. -/
  depth : Nat := 0
  /-- Written after the head of a block and after a field. -/
  lineBreak : String := "\n"
deriving DecidableEq, Repr

namespace Layout

/-- The layout one level deeper. -/
def nested (l : Layout) : Layout := { l with depth := l.depth + 1 }

/-- The spaces at the start of a line. -/
def indentation (l : Layout) : List Char := List.replicate (l.indentWidth * l.depth) ' '

end Layout

/-- Texts with a comma and a space between each two. -/
def commaSeparated (texts : List (List Char)) : List Char := [',', ' '].intercalate texts

/-- Texts in parentheses, with commas between. -/
def parenthesized (texts : List (List Char)) : List Char := '(' :: commaSeparated texts ++ [')']

/-- Names with commas between. -/
def writeNames (names : List String) : List Char := commaSeparated (names.map String.toList)

def Param.write : Param → List Char
  | name n => n.toList
  | vararg => ['.', '.', '.']

/-- The literal of a boolean. -/
def booleanText (b : Bool) : List Char := (if b then "true" else "false").toList

/-- A table constructor around the texts of its fields. -/
def Layout.tableText (l : Layout) (fields : List (List Char)) : List Char :=
  if fields.isEmpty then ['{', '}']
  else '{' :: l.lineBreak.toList ++ (',' :: l.lineBreak.toList).intercalate fields ++
    l.lineBreak.toList ++ l.indentation ++ ['}']

/-- The body of a block between the end of its head and its closing word. -/
def Layout.blockText (l : Layout) (body : List Char) : List Char :=
  l.lineBreak.toList ++ body ++ l.indentation

/-- The closing word of a block, and the end of its statement. -/
def Layout.endText (l : Layout) : List Char := "end".toList ++ l.separator.toList

/-- The text of an expression as it stands before `.name`, `[key]` or `(arguments)`. -/
def Expr.headText (e : Expr) (text : List Char) : List Char :=
  if e.isHead then text else '(' :: text ++ [')']

mutual

/-- The text of an expression. -/
def Expr.write : Layout → Expr → List Char
  | _, .name n => n.toList
  | _, .text _ source => source.toList
  | _, .number _ source => source.toList
  | _, .boolean b => booleanText b
  | _, .nil => "nil".toList
  | _, .vararg => "...".toList
  | l, .binary op left right =>
    '(' :: left.write l ++ ' ' :: op.symbol.toList ++ ' ' :: right.write l ++ [')']
  | l, .logical op left right => left.write l ++ ' ' :: op.symbol.toList ++ ' ' :: right.write l
  | l, .unary op argument => op.symbol.toList ++ ' ' :: argument.write l
  | l, .member base access name =>
    base.headText (base.write l) ++ access.symbol.toList ++ name.toList
  | l, .index base key => base.headText (base.write l) ++ '[' :: key.write l ++ [']']
  | l, .call base arguments =>
    base.headText (base.write l) ++ parenthesized (Expr.writeEach l arguments)
  | l, .tableCall base fields =>
    base.headText (base.write l) ++ '(' :: l.tableText (Field.writeEach l.nested fields) ++ [')']
  | l, .textCall base _ source => base.headText (base.write l) ++ '(' :: source.toList ++ [')']
  | l, .table fields => l.tableText (Field.writeEach l.nested fields)
  | l, .function params body =>
    "(function".toList ++ parenthesized (params.map Param.write) ++
      l.blockText (Stat.writeAll l.nested body) ++ "end)".toList
  | _, .raw source => source.toList

/-- The texts of expressions. -/
def Expr.writeEach : Layout → List Expr → List (List Char)
  | _, [] => []
  | l, e :: rest => e.write l :: Expr.writeEach l rest

/-- The text of a field, with its indentation. -/
def Field.write : Layout → Field → List Char
  | l, .keyed key value => l.indentation ++ '[' :: key.write l ++ "] = ".toList ++ value.write l
  | l, .named name value => l.indentation ++ name.toList ++ " = ".toList ++ value.write l
  | l, .positional value => l.indentation ++ value.write l

/-- The texts of fields. -/
def Field.writeEach : Layout → List Field → List (List Char)
  | _, [] => []
  | l, f :: rest => f.write l :: Field.writeEach l rest

/-- The text of a statement, from its indentation to its separator. -/
def Stat.write : Layout → Stat → List Char
  | l, .localNames names values =>
    l.indentation ++ "local ".toList ++ writeNames names ++
      (if values.isEmpty then []
        else " = ".toList ++ commaSeparated (Expr.writeEach l values)) ++
      l.separator.toList
  | l, .function name isLocal params body =>
    l.indentation ++ (if isLocal then "local ".toList else []) ++ "function".toList ++
      Expr.writeOptional [' '] l name ++ parenthesized (params.map Param.write) ++
      l.blockText (Stat.writeAll l.nested body) ++ l.endText
  | l, .call expr => l.indentation ++ expr.write l ++ l.separator.toList
  | l, .assign targets values =>
    l.indentation ++ commaSeparated (Expr.writeEach l targets) ++ " = ".toList ++
      commaSeparated (Expr.writeEach l values) ++ l.separator.toList
  | l, .branch clauses =>
    l.indentation ++ Clause.writeAll l clauses ++ (if clauses.isEmpty then [] else l.endText)
  | l, .ret values =>
    l.indentation ++ "return".toList ++
      (if values.isEmpty then [] else ' ' :: commaSeparated (Expr.writeEach l values)) ++
      l.separator.toList
  | l, .whileLoop condition body =>
    l.indentation ++ "while ".toList ++ condition.write l ++ " do".toList ++
      l.blockText (Stat.writeAll l.nested body) ++ l.endText
  | l, .breakLoop => l.indentation ++ "break".toList ++ l.separator.toList
  | l, .block body =>
    l.indentation ++ "do".toList ++ l.blockText (Stat.writeAll l.nested body) ++ l.endText
  | l, .repeatLoop body condition =>
    l.indentation ++ "repeat".toList ++ l.blockText (Stat.writeAll l.nested body) ++
      "until ".toList ++ condition.write l ++ l.separator.toList
  | l, .forRange name first last step body =>
    l.indentation ++ "for ".toList ++ name.toList ++ " = ".toList ++ first.write l ++
      ", ".toList ++ last.write l ++ Expr.writeOptional [',', ' '] l step ++ " do".toList ++
      l.blockText (Stat.writeAll l.nested body) ++ l.endText
  | l, .forEach names iterators body =>
    l.indentation ++ "for ".toList ++ writeNames names ++ " in ".toList ++
      commaSeparated (Expr.writeEach l iterators) ++ " do".toList ++
      l.blockText (Stat.writeAll l.nested body) ++ l.endText
  | l, .goto label => l.indentation ++ "goto ".toList ++ label.toList ++ l.separator.toList
  | l, .label name =>
    l.indentation ++ "::".toList ++ name.toList ++ "::".toList ++ l.separator.toList

/-- The text of statements one after another. -/
def Stat.writeAll : Layout → List Stat → List Char
  | _, [] => []
  | l, s :: rest => s.write l ++ Stat.writeAll l rest

/-- The text of a clause up to its closing word. -/
def Clause.write : Layout → Clause → List Char
  | l, .ifThen condition body =>
    "if ".toList ++ condition.write l ++ " then".toList ++
      l.blockText (Stat.writeAll l.nested body)
  | l, .elseIf condition body =>
    "elseif ".toList ++ condition.write l ++ " then".toList ++
      l.blockText (Stat.writeAll l.nested body)
  | l, .otherwise body => "else".toList ++ l.blockText (Stat.writeAll l.nested body)

/-- The text of clauses one after another. -/
def Clause.writeAll : Layout → List Clause → List Char
  | _, [] => []
  | l, c :: rest => c.write l ++ Clause.writeAll l rest

/-- The text of an expression after a lead, if there is one. -/
def Expr.writeOptional (lead : List Char) : Layout → Option Expr → List Char
  | _, none => []
  | l, some e => lead ++ e.write l

end

/-- The text of an expression. -/
def Expr.render (l : Layout) (e : Expr) : String := String.ofList (e.write l)

/-- The text of a list of statements. -/
def Stat.render (l : Layout) (body : List Stat) : String := String.ofList (Stat.writeAll l body)

end Reenact
