/-
  Constructor calls for the values of the host, as source text.
-/
import Reenact.Settings
import Reenact.Value.Basic

namespace Reenact

namespace Constructor

/-- Texts in braces, with commas between. -/
def braced (texts : List (List Char)) : List Char := '{' :: [',', ' '].intercalate texts ++ ['}']

def vector (v : Vector3) : List Char := "Vector3.new(".toList ++ v.text ++ [')']

/-- The corner of a box with the least coordinates. -/
def lowCorner (center size : Vector3) : Vector3 := center.zipWith Binary64.sub size.half

/-- The corner of a box with the greatest coordinates. -/
def highCorner (center size : Vector3) : Vector3 := center.zipWith Binary64.add size.half

def color (c : Color3) : List Char :=
  "Color3.fromRGB(".toList ++ [',', ' '].intercalate (c.channels.map digitsOf) ++ [')']

def colorKeypoint (k : ColorKeypoint) : List Char :=
  "ColorSequenceKeypoint.new(".toList ++ numberText k.time ++ ", ".toList ++ color k.value ++ [')']

def numberKeypoint (k : NumberKeypoint) : List Char :=
  "NumberSequenceKeypoint.new(".toList ++ numberText k.time ++ ", ".toList ++
    numberText k.value ++ ", ".toList ++ numberText k.envelope ++ [')']

def dateTime (settings : Settings) (millis : Int64) : List Char :=
  if settings.useNowDateTime then "DateTime.now()".toList
  else "DateTime.fromUnixTimestampMillis(".toList ++ integerText millis.toInt ++ [')']

def pathWaypoint (position : Vector3) (action : String) : List Char :=
  "PathWaypoint.new(".toList ++ vector position ++ ", ".toList ++ action.toList ++ [')']

def ray (origin direction : Vector3) : List Char :=
  "Ray.new(".toList ++ vector origin ++ ", ".toList ++ vector direction ++ [')']

def region (center size : Vector3) : List Char :=
  "Region3.new(".toList ++ vector (lowCorner center size) ++ ", ".toList ++
    vector (highCorner center size) ++ [')']

def colorSequence (keypoints : List ColorKeypoint) : List Char :=
  "ColorSequence.new(".toList ++ braced (keypoints.map colorKeypoint) ++ [')']

def numberSequence (keypoints : List NumberKeypoint) : List Char :=
  "NumberSequence.new(".toList ++ braced (keypoints.map numberKeypoint) ++ [')']

def other (typeName text : String) : List Char :=
  typeName.toList ++ ".new(".toList ++ text.toList ++ [')']

end Constructor

end Reenact
