/-
  Paths: source text that leads from the root of the scene to an instance.

  The path of an instance is that of its parent and a segment: a member access if the name can be
  written as one, else an index by the quoted name, or by its code points if it has a character that
  is neither a word character nor ASCII punctuation or blank.  An instance whose ancestors end short
  of the root starts with its own name and is marked as detached.
-/
import Reenact.Instance.Basic
import Reenact.Literal.Name
import Reenact.Literal.Quoted

namespace Reenact

/-- Follows the name of an object that has no parent and is not the root. -/
def detachedMark : String := " --[[ PARENTED TO NIL OR DESTROYED ]]"

namespace Segment

/-- A character that a quoted name does not show as it is. -/
def isExotic (c : Char) : Bool := !isWordChar c && !isBlank c && !isPunctuation c

/-- A name is quoted if it starts with a digit, if its characters are ordinary but do not make up a
    word, or if it is a reserved word. -/
def isQuoted (name : List Char) : Bool :=
  (name.head?.any Char.isDigit) ||
  (name.any (!isWordChar ·) && !name.any isExotic) ||
  keywords.contains (String.ofList name)

/-- The code points of a text, with commas between. -/
def codePoints (name : List Char) : List Char :=
  [',', ' '].intercalate (name.map fun c => digitsOf c.toNat)

/-- The segment that selects a child by its name. -/
def write (name : List Char) : List Char :=
  if name.isEmpty then "['']".toList
  else if isQuoted name then '[' :: Quoted.write '"' name ++ [']']
  else if name.any isExotic then "[utf8.char(".toList ++ codePoints name ++ ")]".toList
  else '.' :: name

end Segment

namespace Instance

/-- The path of a node below the given ancestors. -/
def pathText (node : Node) : List Node → List Char
  | [] =>
    if node.role = .dataModel then "game".toList
    else Segment.write node.name.toList ++ detachedMark.toList
  | parent :: above =>
    match node.role with
    | .dataModel => "game".toList
    | .workspace => "workspace".toList
    | .service =>
      pathText parent above ++ ":GetService(".toList ++ Quoted.write '"' node.className.toList ++
        [')']
    | .localPlayer => pathText parent above ++ ".LocalPlayer".toList
    | .plain => pathText parent above ++ Segment.write node.name.toList

/-- The path of an instance. -/
def path (i : Instance) : String := String.ofList (pathText i.toNode i.ancestors)

end Instance

end Reenact
