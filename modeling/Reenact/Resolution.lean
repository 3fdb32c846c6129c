/-
  Resolution: how a snippet gets its instances from their debug ids.

  A snippet with handles starts with a function of any number of arguments and a statement that
  calls it with the debug ids and binds the handles to the results.  The function goes through the
  objects without a parent and then through all descendants of the root until every id is resolved;
  it puts each object in the place of the ids that are its own, leaves arguments that are objects
  already, and puts a text that says so in the place of an id that no object has.
-/
import Reenact.Handles
import Reenact.Syntax.Tree

namespace Reenact

namespace Resolution

/-- The name of the function. -/
def functionName : String := "GetInstancesFromIds"

/-- What an id that no object has is put behind. -/
def notFoundLead : String := "nil -- Could not find instance with id: "

/-! ## The function -/

/-- `ids` -/
def ids : Expr := .name "ids"

/-- `ids[i]` -/
def idAtIndex : Expr := .index ids (.name "i")

/-- `ids.n` -/
def idCount : Expr := .member ids .dot "n"

/-- `remaining` -/
def remaining : Expr := .name "remaining"

/-- `(type(ids[i]) == "string")` -/
def isPending : Expr := .binary .eq (.call (.name "type") [idAtIndex]) (.ofText "string")

/-- `for i = 1, ids.n do ... end` -/
def forEachIndex (body : List Stat) : Stat := .forRange "i" (.ofNat 1) idCount none body

/-- Visits the objects of a list, and stops once no id is left. -/
def visitEach (objects : Expr) : Stat :=
  .forEach ["_", "instance"] [.call (.name "ipairs") [objects]]
    [.ifThen (.binary .eq remaining (.ofNat 0)) [.breakLoop],
      .call (.call (.name "visit") [.name "instance"])]

/-- Counts the ids to be resolved. -/
def countPending : Stat :=
  forEachIndex [.ifThen isPending [.assignOne remaining (.binary .add remaining (.ofNat 1))]]

/-- Puts an object in the place of its id, wherever that is. -/
def visitFunction : Stat :=
  .function (some (.name "visit")) true [.name "instance"]
    [.localName "debugId" (.methodCall (.name "instance") "GetDebugId" []),
      forEachIndex
        [.ifThen (.binary .eq idAtIndex (.name "debugId"))
          [.assignOne idAtIndex (.name "instance"),
            .assignOne remaining (.binary .sub remaining (.ofNat 1))]]]

/-- Puts a text in the place of every id that is left. -/
def markPending : Stat :=
  forEachIndex
    [.ifThen isPending [.assignOne idAtIndex (.binary .concat (.ofText notFoundLead) idAtIndex)]]

/-- The body of the function. -/
def body : List Stat :=
  [.localName "ids" (.call (.member (.name "table") .dot "pack") [.vararg]),
    .localName "remaining" (.ofNat 0),
    countPending,
    visitFunction,
    visitEach (.call (.name "getnilinstances") []),
    visitEach (.call (.name "getweakdescendants") [.name "game"]),
    markPending,
    .ret [.call (.member (.name "table") .dot "unpack") [ids, .ofNat 1, idCount]]]

/-- The declaration of the function. -/
def function : Stat := .function (some (.name functionName)) true [.vararg] body

/-! ## The call -/

/-- The statement that binds handles to the objects with their debug ids. -/
def bind (h : Handles) : Stat :=
  .localNames h.names [.call (.name functionName) (h.debugIds.map .ofText)]

end Resolution

end Reenact
