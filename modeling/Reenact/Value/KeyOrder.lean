/-
  The order of table keys: numbers first, in the total order of their bit patterns, then all other
  keys by a text, compared by code points.  Keys of different forms may have the same text.
-/
import Reenact.Value.Basic

namespace Reenact

namespace Value

/-- The text by which a key other than a number is ordered. -/
def keyText : Value → String
  | text s => s
  | boolean b => if b then "true" else "false"
  | reference i => i.debugId
  | key => key.kind.tag

/-- The order of table keys. -/
def compareKeys : Value → Value → Ordering
  | number x, number y => x.compare y
  | number _, _ => .lt
  | _, number _ => .gt
  | a, b => compare a.keyText b.keyText

/-- Pairs in the order of their keys; those with equal keys stay as they were. -/
def sortPairs (pairs : List (Value × Value)) : List (Value × Value) :=
  pairs.mergeSort fun a b => (compareKeys a.1 b.1).isLE

theorem sortPairs_perm (pairs : List (Value × Value)) : (sortPairs pairs).Perm pairs :=
  List.mergeSort_perm _ _

end Value

end Reenact
