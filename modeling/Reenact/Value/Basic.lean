/-
  Captured values: what a script passed to a remote call.

  Scalars and tables are those of the language; the other forms are values of the host.  A table is
  the list of its pairs in the order in which they were met, without any rule on its keys.

  * `Value.kind` and `Kind.tag`: the name of the form, as it occurs in the names of locals;
  * `Value.equals`: equality, in which numbers are compared as numbers.
-/
import Reenact.Instance.Basic
import Reenact.Literal.Number
import Reenact.Binary64.Rounding

namespace Reenact

/-! ## Values of the host -/

/-- A point or direction in space. -/
structure Vector3 where
  x : Binary64
  y : Binary64
  z : Binary64
deriving DecidableEq

namespace Vector3

/-- The components with commas between. -/
def text (v : Vector3) : List Char :=
  numberText v.x ++ ", ".toList ++ numberText v.y ++ ", ".toList ++ numberText v.z

def equals (v w : Vector3) : Bool := v.x.equals w.x && v.y.equals w.y && v.z.equals w.z

/-- An operation on each component. -/
def zipWith (f : Binary64 → Binary64 → Binary64) (v w : Vector3) : Vector3 :=
  ⟨f v.x w.x, f v.y w.y, f v.z w.z⟩

def half (v : Vector3) : Vector3 := ⟨v.x.half, v.y.half, v.z.half⟩

end Vector3

/-- A color; the components are meant to lie between `0` and `1`. -/
structure Color3 where
  r : Binary64
  g : Binary64
  b : Binary64
deriving DecidableEq

namespace Color3

/-- A component on the scale from `0` to `255`. -/
def channel (component : Binary64) : Nat := (component.scale 255).toNatClamped 255

/-- The components on the scale from `0` to `255`. -/
def channels (c : Color3) : List Nat := [channel c.r, channel c.g, channel c.b]

def equals (c d : Color3) : Bool := c.r.equals d.r && c.g.equals d.g && c.b.equals d.b

end Color3

/-- A point of a sequence of colors. -/
structure ColorKeypoint where
  time : Binary64
  value : Color3
deriving DecidableEq

def ColorKeypoint.equals (k l : ColorKeypoint) : Bool :=
  k.time.equals l.time && k.value.equals l.value

/-- A point of a sequence of numbers. -/
structure NumberKeypoint where
  time : Binary64
  value : Binary64
  envelope : Binary64 := .zero
deriving DecidableEq

def NumberKeypoint.equals (k l : NumberKeypoint) : Bool :=
  k.time.equals l.time && k.value.equals l.value && k.envelope.equals l.envelope

/-! ## Values -/

/-- A captured value. -/
inductive Value where
  | nil
  | boolean (value : Bool)
  | number (value : Binary64)
  | text (value : String)
  /-- The pairs of a table in the order in which they were met -/
  | table (pairs : List (Value × Value))
  /-- A reference to an object -/
  | reference (target : Instance)
  /-- A point in time, in milliseconds since 1970 -/
  | dateTime (millis : Int64)
  /-- `action` is source text -/
  | pathWaypoint (position : Vector3) (action : String)
  | ray (origin direction : Vector3)
  /-- A box with its edges along the axes, by its center and its size -/
  | region (center size : Vector3)
  | colorSequence (keypoints : List ColorKeypoint)
  | numberSequence (keypoints : List NumberKeypoint)
  | colorKeypoint (keypoint : ColorKeypoint)
  | numberKeypoint (keypoint : NumberKeypoint)
  /-- Any other value of the host: the name of its type, and its content as source text -/
  | other (typeName source : String)

/-- The form of a value. -/
inductive Kind where
  | nil | boolean | number | text | table | reference | dateTime | pathWaypoint | ray | region
  | colorSequence | numberSequence | colorKeypoint | numberKeypoint | other
deriving DecidableEq, Repr

/-- The name of a form.  That of a region ends in an underscore, which keeps the digit in it apart
    from one that follows. -/
def Kind.tag : Kind → String
  | nil => "Nil" | boolean => "Boolean" | number => "Number" | text => "String"
  | table => "Table" | reference => "Instance" | dateTime => "DateTime"
  | pathWaypoint => "PathWaypoint" | ray => "Ray" | region => "Region3_"
  | colorSequence => "ColorSequence" | numberSequence => "NumberSequence"
  | colorKeypoint => "ColorSequenceKeypoint" | numberKeypoint => "NumberSequenceKeypoint"
  | other => "Other"

namespace Value

def kind : Value → Kind
  | nil => .nil | boolean _ => .boolean | number _ => .number | text _ => .text
  | table _ => .table | reference _ => .reference | dateTime _ => .dateTime
  | pathWaypoint .. => .pathWaypoint | ray .. => .ray | region .. => .region
  | colorSequence _ => .colorSequence | numberSequence _ => .numberSequence
  | colorKeypoint _ => .colorKeypoint | numberKeypoint _ => .numberKeypoint | other .. => .other

/-- The table with the given values under the keys `1`, `2`, `3`, .... -/
def array (values : List Value) : Value :=
  table (values.mapIdx fun i v => (number (Binary64.ofInt (i + 1)), v))

/-- Lists of the same length whose items are equal one by one. -/
def listEquals {α : Type} (f : α → α → Bool) : List α → List α → Bool
  | [], [] => true
  | a :: as, b :: bs => f a b && listEquals f as bs
  | _, _ => false

mutual

/-- Equality of values, with numbers compared as numbers: a NaN differs from itself, and the two
    zeros are equal. -/
def equals : Value → Value → Bool
  | nil, nil => true
  | boolean a, boolean b => a == b
  | number a, number b => a.equals b
  | text a, text b => a == b
  | table as, table bs => pairsEqual as bs
  | reference a, reference b => a == b
  | dateTime a, dateTime b => a == b
  | pathWaypoint p a, pathWaypoint q b => p.equals q && a == b
  | ray o d, ray o' d' => o.equals o' && d.equals d'
  | region c s, region c' s' => c.equals c' && s.equals s'
  | colorSequence as, colorSequence bs => listEquals ColorKeypoint.equals as bs
  | numberSequence as, numberSequence bs => listEquals NumberKeypoint.equals as bs
  | colorKeypoint a, colorKeypoint b => a.equals b
  | numberKeypoint a, numberKeypoint b => a.equals b
  | other a s, other b t => a == b && s == t
  | _, _ => false

/-- Equality of lists of pairs. -/
def pairsEqual : List (Value × Value) → List (Value × Value) → Bool
  | [], [] => true
  | (k, v) :: as, (l, w) :: bs => k.equals l && v.equals w && pairsEqual as bs
  | _, _ => false

end

end Value

end Reenact
