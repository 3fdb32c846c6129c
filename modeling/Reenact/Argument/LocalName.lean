/-
  Names of the locals of a snippet.

  All begin with `_4lve`.  The local of an argument is named after its form and its position,
  counted from one; a table or instance inside an argument has a running number besides.
-/
import Reenact.Value.Basic
import Reenact.Text.Ascii

namespace Reenact

namespace LocalName

/-- How every name begins. -/
def lead : String := "_4lve"

/-- The name of a form at a position. -/
def ofKind (kind : Kind) (position : Nat) : String := lead ++ kind.tag ++ toString position

/-- A type name with an underscore for each character that no name has. -/
def sanitized (typeName : String) : String :=
  typeName.map fun c => if isWordChar c then c else '_'

/-- The local of the argument at a position.  A value of another form is named after its type, and
    an underscore keeps its position apart. -/
def ofArgument (value : Value) (position : Nat) : String :=
  match value with
  | .other typeName _ => lead ++ sanitized typeName ++ "_" ++ toString position
  | value => ofKind value.kind position

/-- The local of a table, or the handle of an instance, inside the argument at a position. -/
def ofNested (kind : Kind) (position number : Nat) : String :=
  ofKind kind position ++ "_" ++ toString number

/-- The local that stands for an argument that cannot be written. -/
def ofFailed (position : Nat) : String := lead ++ "Error" ++ toString position

end LocalName

end Reenact
