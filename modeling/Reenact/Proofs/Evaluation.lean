/-
  Running syntax trees.

  A chunk runs on a store: cells hold the values of locals, tables and functions have addresses, and
  a scope says which cell a name stands for.  A function keeps the scope that it was made in, so it
  changes the locals around it.  Numbers are whole and exact; running something that is an error, or
  that is not one of the forms below, has no result, and neither has running for ever.

  The host has a root object, two lists of objects, and a debug id for each object.

  * `Host.eval`, `Host.exec`, `Host.call`: what expressions, statements and calls do;
  * `loopRange_of_step`: a loop over numbers keeps what each of its rounds keeps.
-/
import Mathlib
import Reenact.Roster
import Reenact.Syntax.Tree

namespace Reenact.Lua

/-! ## Values -/

/-- The functions of the language and of the host. -/
inductive Builtin where
  | type
  | ipairs
  /-- The function that goes from one place of a list to the next -/
  | ipairsNext
  | tablePack
  | tableUnpack
  | nilInstances
  | weakDescendants
deriving DecidableEq

/-- The values of a running chunk. -/
inductive Value (Object : Type) where
  | nil
  | boolean (b : Bool)
  | number (n : Int)
  | text (s : String)
  /-- An object of the host -/
  | object (o : Object)
  | table (address : Nat)
  | closure (address : Nat)
  | builtin (f : Builtin)
  /-- The table of the functions on tables -/
  | tableLibrary
deriving DecidableEq

/-- The host of a running chunk. -/
structure Host (Object : Type) where
  /-- The root of all descendants -/
  root : Object
  /-- The objects without a parent -/
  nilInstances : List Object
  descendants : List Object
  debugId : Object → String

/-- The cells that names stand for; the first one counts. -/
abbrev Scope := List (String × Nat)

/-- A function, and the scope it was made in. -/
structure Closure where
  params : List Param
  body : List Stat
  scope : Scope

variable {Object : Type}

namespace Value

def typeName : Value Object → String
  | nil => "nil"
  | boolean _ => "boolean"
  | number _ => "number"
  | text _ => "string"
  | object _ => "userdata"
  | table _ | tableLibrary => "table"
  | closure _ | builtin _ => "function"

/-- The value counts as true in a condition. -/
def isTruthy : Value Object → Bool
  | nil | boolean false => false
  | _ => true

end Value

/-- The contents of a table with the values of a list at 1, 2 and so on. -/
def listContents (vs : List (Value Object)) : Value Object → Value Object
  | .number n => if 1 ≤ n then vs.getD (n - 1).toNat .nil else .nil
  | _ => .nil

theorem listContents_number (vs : List (Value Object)) (k : Nat) :
    listContents vs (.number (k + 1)) = vs.getD k .nil := by
  have hk : (k : Int) + 1 - 1 = k := by omega
  rw [listContents, if_pos (by omega), hk, Int.toNat_natCast]

/-! ## Stores -/

/-- Cells, tables and functions; their addresses are given out in order. -/
structure Store (Object : Type) where
  cells : Nat → Value Object := fun _ => .nil
  nextCell : Nat := 0
  tables : Nat → Value Object → Value Object := fun _ _ => .nil
  nextTable : Nat := 0
  closures : Nat → Option Closure := fun _ => none
  nextClosure : Nat := 0

namespace Store

/-- The store with a new cell, at `nextCell`. -/
def newCell (s : Store Object) (v : Value Object) : Store Object :=
  { s with
    cells := Function.update s.cells s.nextCell v
    nextCell := s.nextCell + 1 }

def setCell (s : Store Object) (a : Nat) (v : Value Object) : Store Object :=
  { s with cells := Function.update s.cells a v }

/-- The store with a new table, at `nextTable`. -/
def newTable (s : Store Object) (contents : Value Object → Value Object) : Store Object :=
  { s with
    tables := Function.update s.tables s.nextTable contents
    nextTable := s.nextTable + 1 }

def setIndex [DecidableEq Object] (s : Store Object) (a : Nat) (key v : Value Object) :
    Store Object :=
  { s with tables := Function.update s.tables a (Function.update (s.tables a) key v) }

/-- The store with a new function, at `nextClosure`. -/
def newClosure (s : Store Object) (c : Closure) : Store Object :=
  { s with
    closures := Function.update s.closures s.nextClosure (some c)
    nextClosure := s.nextClosure + 1 }

/-- What stands in a table under a key. -/
def index (s : Store Object) : Value Object → Value Object → Option (Value Object)
  | .table a, key => some (s.tables a key)
  | .tableLibrary, .text "pack" => some (.builtin .tablePack)
  | .tableLibrary, .text "unpack" => some (.builtin .tableUnpack)
  | _, _ => none

/-- Declares names; those that have no value are nil. -/
def declare : Scope → List String → List (Value Object) → Store Object → Scope × Store Object
  | scope, [], _, s => (scope, s)
  | scope, n :: names, vs, s =>
    declare ((n, s.nextCell) :: scope) names vs.tail (s.newCell (vs.headD .nil))

/-- Declares parameters; what is left of the arguments belongs to `...`. -/
def bind : Scope → List Param → List (Value Object) → Store Object →
    Scope × List (Value Object) × Store Object
  | scope, [], _, s => (scope, [], s)
  | scope, .name n :: params, vs, s =>
    bind ((n, s.nextCell) :: scope) params vs.tail (s.newCell (vs.headD .nil))
  | scope, .vararg :: _, vs, s => (scope, vs, s)

theorem lookup_declare_of_not_mem {name : String} : ∀ {names : List String} {scope : Scope}
    {vs : List (Value Object)} {s : Store Object}, name ∉ names →
    (declare scope names vs s).1.lookup name = scope.lookup name
  | [], _, _, _, _ => rfl
  | n :: names, scope, vs, s, h => by
    rw [List.mem_cons, not_or] at h
    rw [declare, lookup_declare_of_not_mem h.2, Roster.lookup_cons, if_neg h.1]

theorem cells_declare {a : Nat} : ∀ {names : List String} {scope : Scope}
    {vs : List (Value Object)} {s : Store Object}, a < s.nextCell →
    (declare scope names vs s).2.cells a = s.cells a
  | [], _, _, _, _ => rfl
  | n :: names, scope, vs, s, h => by
    rw [declare, cells_declare (Nat.lt_succ_of_lt h)]
    exact Function.update_of_ne (Nat.ne_of_lt h) _ _

/-- A name that is declared once stands for a new cell with its value. -/
theorem exists_cell_declare {name : String} {v : Value Object} : ∀ {names : List String}
    {scope : Scope} {vs : List (Value Object)} {s : Store Object} {k : Nat}, names.Nodup →
    names[k]? = some name → vs[k]? = some v →
    ∃ a, (declare scope names vs s).1.lookup name = some a ∧
      (declare scope names vs s).2.cells a = v
  | n :: names, scope, w :: vs, s, 0, hnodup, hname, hv => by
    cases hname
    cases hv
    refine ⟨s.nextCell, ?_, ?_⟩
    · rw [declare, lookup_declare_of_not_mem (List.nodup_cons.1 hnodup).1, Roster.lookup_cons,
        if_pos rfl]
    · rw [declare, cells_declare (Nat.lt_succ_self _)]
      exact Function.update_self ..
  | n :: names, scope, w :: vs, s, k + 1, hnodup, hname, hv => by
    have hrest : ∃ a, (declare ((n, s.nextCell) :: scope) names vs (s.newCell w)).1.lookup name =
        some a ∧ (declare ((n, s.nextCell) :: scope) names vs (s.newCell w)).2.cells a = v :=
      exists_cell_declare (List.nodup_cons.1 hnodup).2 hname hv
    exact hrest

/-! ## What a store keeps -/

/-- Of what was in the store, only a cell and a table may be others. -/
structure Keeps (cell table : Nat) (s s' : Store Object) : Prop where
  cells : ∀ a < s.nextCell, a ≠ cell → s'.cells a = s.cells a
  tables : ∀ a < s.nextTable, a ≠ table → s'.tables a = s.tables a
  closures : ∀ a < s.nextClosure, s'.closures a = s.closures a
  nextCell : s.nextCell ≤ s'.nextCell
  nextTable : s.nextTable ≤ s'.nextTable
  nextClosure : s.nextClosure ≤ s'.nextClosure

section
variable (cell table : Nat) (s : Store Object)

theorem Keeps.refl : Keeps cell table s s :=
  ⟨fun _ _ _ => rfl, fun _ _ _ => rfl, fun _ _ => rfl, Nat.le_refl _, Nat.le_refl _, Nat.le_refl _⟩

theorem keeps_newCell (v : Value Object) : Keeps cell table s (s.newCell v) :=
  { Keeps.refl cell table s with
    cells := fun _ ha _ => Function.update_of_ne (Nat.ne_of_lt ha) _ _
    nextCell := Nat.le_succ _ }

theorem keeps_setCell (v : Value Object) : Keeps cell table s (s.setCell cell v) :=
  { Keeps.refl cell table s with cells := fun _ _ hne => Function.update_of_ne hne _ _ }

theorem keeps_newTable (contents : Value Object → Value Object) :
    Keeps cell table s (s.newTable contents) :=
  { Keeps.refl cell table s with
    tables := fun _ ha _ => Function.update_of_ne (Nat.ne_of_lt ha) _ _
    nextTable := Nat.le_succ _ }

theorem keeps_setIndex [DecidableEq Object] (key v : Value Object) :
    Keeps cell table s (s.setIndex table key v) :=
  { Keeps.refl cell table s with tables := fun _ _ hne => Function.update_of_ne hne _ _ }

theorem keeps_newClosure (c : Closure) : Keeps cell table s (s.newClosure c) :=
  { Keeps.refl cell table s with
    closures := fun _ ha => Function.update_of_ne (Nat.ne_of_lt ha) _ _
    nextClosure := Nat.le_succ _ }

@[simp] theorem cells_newCell (v : Value Object) : (s.newCell v).cells s.nextCell = v :=
  Function.update_self ..

@[simp] theorem tables_newTable (contents : Value Object → Value Object) :
    (s.newTable contents).tables s.nextTable = contents := Function.update_self ..

@[simp] theorem closures_newClosure (c : Closure) :
    (s.newClosure c).closures s.nextClosure = some c := Function.update_self ..

end

theorem Keeps.trans {cell table : Nat} {s s₁ s₂ : Store Object} (h : Keeps cell table s s₁)
    (h' : Keeps cell table s₁ s₂) : Keeps cell table s s₂ where
  cells a ha hne := (h'.cells a (Nat.lt_of_lt_of_le ha h.nextCell) hne).trans (h.cells a ha hne)
  tables a ha hne :=
    (h'.tables a (Nat.lt_of_lt_of_le ha h.nextTable) hne).trans (h.tables a ha hne)
  closures a ha :=
    (h'.closures a (Nat.lt_of_lt_of_le ha h.nextClosure)).trans (h.closures a ha)
  nextCell := Nat.le_trans h.nextCell h'.nextCell
  nextTable := Nat.le_trans h.nextTable h'.nextTable
  nextClosure := Nat.le_trans h.nextClosure h'.nextClosure

end Store

/-! ## The host -/

variable [DecidableEq Object]

namespace Host

variable (host : Host Object)

/-- What a name stands for that is not declared. -/
def global : String → Value Object
  | "type" => .builtin .type
  | "ipairs" => .builtin .ipairs
  | "table" => .tableLibrary
  | "game" => .object host.root
  | "getnilinstances" => .builtin .nilInstances
  | "getweakdescendants" => .builtin .weakDescendants
  | _ => .nil

/-- What a name stands for. -/
def lookup (scope : Scope) (s : Store Object) (name : String) : Value Object :=
  match scope.lookup name with
  | some a => s.cells a
  | none => host.global name

/-- The results of a function that is built in. -/
def callBuiltin : Builtin → List (Value Object) → Store Object →
    Option (List (Value Object) × Store Object)
  | .type, v :: _, s => some ([.text v.typeName], s)
  | .ipairs, v :: _, s => some ([.builtin .ipairsNext, v, .number 0], s)
  | .ipairsNext, [.table a, .number i], s =>
    let v := s.tables a (.number (i + 1))
    some (if v = .nil then [.nil] else [.number (i + 1), v], s)
  | .tablePack, vs, s =>
    some ([.table s.nextTable],
      s.newTable (Function.update (listContents vs) (.text "n") (.number vs.length)))
  | .tableUnpack, [.table a, .number i, .number j], s =>
    some ((List.range (j - i + 1).toNat).map fun k : Nat => s.tables a (.number (i + k)), s)
  | .nilInstances, [], s =>
    some ([.table s.nextTable], s.newTable (listContents (host.nilInstances.map .object)))
  | .weakDescendants, [.object o], s =>
    if o = host.root then
      some ([.table s.nextTable], s.newTable (listContents (host.descendants.map .object)))
    else none
  | _, _, _ => none

/-- The results of a method. -/
def callMethod : Value Object → String → List (Value Object) → Option (List (Value Object))
  | .object o, "GetDebugId", [] => some [.text (host.debugId o)]
  | _, _, _ => none

end Host

/-! ## Expressions and statements -/

def applyBinary : BinaryOp → Value Object → Value Object → Option (Value Object)
  | .add, .number m, .number n => some (.number (m + n))
  | .sub, .number m, .number n => some (.number (m - n))
  | .concat, .text a, .text b => some (.text (a ++ b))
  | .eq, v, w => some (.boolean (v = w))
  | _, _, _ => none

/-- How a statement ends. -/
inductive Signal (Object : Type) where
  | next
  /-- The innermost loop ends -/
  | broke
  /-- The function ends with results -/
  | returned (values : List (Value Object))

namespace Host

mutual

/-- The values of an expression, where `rest` are those of `...`; only a call and `...` itself can
    have any number of them. -/
def evalMany (host : Host Object) (scope : Scope) (rest : List (Value Object)) (e : Expr)
    (s : Store Object) : Option (List (Value Object) × Store Object) :=
  match e with
  | .name n => some ([host.lookup scope s n], s)
  | .text value _ => some ([.text value], s)
  | .number value _ => value.smallInteger?.map fun n => ([.number n], s)
  | .boolean b => some ([.boolean b], s)
  | .nil => some ([.nil], s)
  | .vararg => some (rest, s)
  | .binary op left right => do
    let (v, s) ← host |>.eval scope rest left s
    let (w, s) ← host |>.eval scope rest right s
    let result ← applyBinary op v w
    some ([result], s)
  | .member base .dot name => do
    let (b, s) ← host |>.eval scope rest base s
    let result ← s.index b (.text name)
    some ([result], s)
  | .index base key => do
    let (b, s) ← host |>.eval scope rest base s
    let (k, s) ← host |>.eval scope rest key s
    let result ← s.index b k
    some ([result], s)
  | .call (.member base .colon method) arguments => do
    let (o, s) ← host |>.eval scope rest base s
    let (vs, s) ← host |>.evalAll scope rest arguments s
    let results ← host.callMethod o method vs
    some (results, s)
  | .call f arguments => do
    let (f, s) ← host |>.eval scope rest f s
    let (vs, s) ← host |>.evalAll scope rest arguments s
    host |>.call f vs s
  | _ => none
partial_fixpoint

/-- The first value of an expression. -/
def eval (host : Host Object) (scope : Scope) (rest : List (Value Object)) (e : Expr)
    (s : Store Object) : Option (Value Object × Store Object) := do
  let (vs, s) ← host |>.evalMany scope rest e s
  some (vs.headD .nil, s)
partial_fixpoint

/-- The first value of each expression, and all of the last one. -/
def evalAll (host : Host Object) (scope : Scope) (rest : List (Value Object)) (es : List Expr)
    (s : Store Object) : Option (List (Value Object) × Store Object) :=
  match es with
  | [] => some ([], s)
  | [e] => host |>.evalMany scope rest e s
  | e :: es => do
    let (v, s) ← host |>.eval scope rest e s
    let (vs, s) ← host |>.evalAll scope rest es s
    some (v :: vs, s)
partial_fixpoint

/-- The results of a call. -/
def call (host : Host Object) (f : Value Object) (arguments : List (Value Object))
    (s : Store Object) : Option (List (Value Object) × Store Object) :=
  match f with
  | .builtin b => host.callBuiltin b arguments s
  | .closure a => do
    let c ← s.closures a
    let (scope, rest, s) := Store.bind c.scope c.params arguments s
    let (signal, _, s) ← host |>.execAll scope rest c.body s
    match signal with
    | .returned vs => some (vs, s)
    | .next => some ([], s)
    | .broke => none
  | _ => none
partial_fixpoint

/-- Runs statements one after another.  What they declare is in the scope at the end. -/
def execAll (host : Host Object) (scope : Scope) (rest : List (Value Object))
    (stats : List Stat) (s : Store Object) : Option (Signal Object × Scope × Store Object) :=
  match stats with
  | [] => some (.next, scope, s)
  | stat :: stats => do
    let (signal, scope, s) ← host |>.exec scope rest stat s
    match signal with
    | .next => host |>.execAll scope rest stats s
    | signal => some (signal, scope, s)
partial_fixpoint

/-- Runs a statement. -/
def exec (host : Host Object) (scope : Scope) (rest : List (Value Object)) (stat : Stat)
    (s : Store Object) : Option (Signal Object × Scope × Store Object) :=
  match stat with
  | .localNames names values => do
    let (vs, s) ← host |>.evalAll scope rest values s
    some (.next, Store.declare scope names vs s)
  | .function (some (.name n)) true params body =>
    -- the function can call itself, so its name is in its own scope
    let inner := (n, s.nextCell) :: scope
    some (.next, inner,
      (s.newCell (.closure s.nextClosure)).newClosure ⟨params, body, inner⟩)
  | .call e => do
    let (_, s) ← host |>.evalMany scope rest e s
    some (.next, scope, s)
  | .assign [.name n] [value] => do
    let (v, s) ← host |>.eval scope rest value s
    let a ← scope.lookup n
    some (.next, scope, s.setCell a v)
  | .assign [.index base key] [value] => do
    let (b, s) ← host |>.eval scope rest base s
    let (k, s) ← host |>.eval scope rest key s
    let (v, s) ← host |>.eval scope rest value s
    match b with
    | .table a => some (.next, scope, s.setIndex a k v)
    | _ => none
  | .branch clauses => do
    let (signal, s) ← host |>.execClauses scope rest clauses s
    some (signal, scope, s)
  | .ret values => do
    let (vs, s) ← host |>.evalAll scope rest values s
    some (.returned vs, scope, s)
  | .breakLoop => some (.broke, scope, s)
  | .forRange name first last none body => do
    let (i, s) ← host |>.eval scope rest first s
    let (j, s) ← host |>.eval scope rest last s
    match i, j with
    | .number i, .number j => do
      let (signal, s) ← host |>.loopRange scope rest name body i j s
      some (signal, scope, s)
    | _, _ => none
  | .forEach names iterators body => do
    let (vs, s) ← host |>.evalAll scope rest iterators s
    let (signal, s) ← host |>.loopEach scope rest names body
      (vs.getD 0 .nil) (vs.getD 1 .nil) (vs.getD 2 .nil) s
    some (signal, scope, s)
  | _ => none
partial_fixpoint

/-- Runs the first clause whose condition holds. -/
def execClauses (host : Host Object) (scope : Scope) (rest : List (Value Object))
    (clauses : List Clause) (s : Store Object) : Option (Signal Object × Store Object) :=
  match clauses with
  | [] => some (.next, s)
  | .ifThen condition body :: clauses | .elseIf condition body :: clauses => do
    let (v, s) ← host |>.eval scope rest condition s
    if v.isTruthy then do
      let (signal, _, s) ← host |>.execAll scope rest body s
      some (signal, s)
    else host |>.execClauses scope rest clauses s
  | .otherwise body :: _ => do
    let (signal, _, s) ← host |>.execAll scope rest body s
    some (signal, s)
partial_fixpoint

/-- Runs a body with a new local for each number from `i` to `last`. -/
def loopRange (host : Host Object) (scope : Scope) (rest : List (Value Object)) (name : String)
    (body : List Stat) (i last : Int) (s : Store Object) : Option (Signal Object × Store Object) :=
  if last < i then some (.next, s)
  else do
    let (signal, _, s) ← host |>.execAll ((name, s.nextCell) :: scope) rest body
      (s.newCell (.number i))
    match signal with
    | .next => host |>.loopRange scope rest name body (i + 1) last s
    | .broke => some (.next, s)
    | .returned vs => some (.returned vs, s)
partial_fixpoint

/-- Runs a body with new locals for the results of each call of `f`, until the first one is nil. -/
def loopEach (host : Host Object) (scope : Scope) (rest : List (Value Object))
    (names : List String) (body : List Stat) (f state control : Value Object)
    (s : Store Object) : Option (Signal Object × Store Object) := do
  let (vs, s) ← host |>.call f [state, control] s
  if vs.headD .nil = .nil then some (.next, s)
  else do
    let (inner, s) := Store.declare scope names vs s
    let (signal, _, s) ← host |>.execAll inner rest body s
    match signal with
    | .next => host |>.loopEach scope rest names body f state (vs.headD .nil) s
    | .broke => some (.next, s)
    | .returned vs => some (.returned vs, s)
partial_fixpoint

end

end Host

open Host (evalMany eval evalAll call execAll exec execClauses loopRange loopEach)

variable (host : Host Object)

/-! ## Rules -/

section
variable {host} {scope inner : Scope} {rest vs ws : List (Value Object)} {s s₁ s₂ s₃ : Store Object}
  {v w : Value Object} {base key left right f e condition : Expr} {stat : Stat}
  {body stats : List Stat} {signal : Signal Object}

theorem evalMany_name (n : String) :
    evalMany host scope rest (.name n) s = some ([host.lookup scope s n], s) := by
  rw [Host.evalMany.eq_def]

theorem evalMany_ofText (value : String) :
    evalMany host scope rest (.ofText value) s = some ([.text value], s) := by
  rw [Expr.ofText, Host.evalMany.eq_def]

theorem evalMany_ofNat (n : Nat) (hn : (Binary64.ofInt n).smallInteger? = some (n : Int)) :
    evalMany host scope rest (.ofNat n) s = some ([.number n], s) := by
  rw [Expr.ofNat, Expr.ofNumber, Host.evalMany.eq_def]
  simp only [hn]
  rfl

theorem evalMany_vararg : evalMany host scope rest .vararg s = some (rest, s) := by
  rw [Host.evalMany.eq_def]

theorem eval_of_evalMany (h : evalMany host scope rest e s = some (v :: vs, s₁)) :
    eval host scope rest e s = some (v, s₁) := by
  rw [eval, h]; rfl

theorem evalMany_binary {op : BinaryOp} {x : Value Object}
    (hleft : evalMany host scope rest left s = some (v :: vs, s₁))
    (hright : evalMany host scope rest right s₁ = some (w :: ws, s₂))
    (hop : applyBinary op v w = some x) :
    evalMany host scope rest (.binary op left right) s = some ([x], s₂) := by
  rw [Host.evalMany.eq_def]
  simp [eval_of_evalMany hleft, eval_of_evalMany hright, hop]

theorem evalMany_member {name : String}
    (hbase : evalMany host scope rest base s = some (v :: vs, s₁))
    (hindex : s₁.index v (.text name) = some w) :
    evalMany host scope rest (.member base .dot name) s = some ([w], s₁) := by
  rw [Host.evalMany.eq_def]
  simp [eval_of_evalMany hbase, hindex]

theorem evalMany_index {x : Value Object}
    (hbase : evalMany host scope rest base s = some (v :: vs, s₁))
    (hkey : evalMany host scope rest key s₁ = some (w :: ws, s₂)) (hindex : s₂.index v w = some x) :
    evalMany host scope rest (.index base key) s = some ([x], s₂) := by
  rw [Host.evalMany.eq_def]
  simp [eval_of_evalMany hbase, eval_of_evalMany hkey, hindex]

theorem evalMany_call {arguments : List Expr} {us : List (Value Object)}
    (hmethod : ∀ base name, f ≠ .member base .colon name)
    (hf : evalMany host scope rest f s = some (v :: vs, s₁))
    (harguments : evalAll host scope rest arguments s₁ = some (ws, s₂))
    (hcall : call host v ws s₂ = some (us, s₃)) :
    evalMany host scope rest (.call f arguments) s = some (us, s₃) := by
  rw [evalMany]
  · simp [eval_of_evalMany hf, harguments, hcall]
  · exact hmethod

theorem evalMany_methodCall {name : String} {arguments : List Expr} {us : List (Value Object)}
    (hbase : evalMany host scope rest base s = some (v :: vs, s₁))
    (harguments : evalAll host scope rest arguments s₁ = some (ws, s₂))
    (hcall : host.callMethod v name ws = some us) :
    evalMany host scope rest (.methodCall base name arguments) s = some (us, s₂) := by
  rw [Expr.methodCall, Host.evalMany.eq_def]
  simp [eval_of_evalMany hbase, harguments, hcall]

theorem evalAll_nil : evalAll host scope rest [] s = some ([], s) := by rw [evalAll]

theorem evalAll_singleton (e : Expr) :
    evalAll host scope rest [e] s = evalMany host scope rest e s := by rw [evalAll]

theorem evalAll_cons {e' : Expr} {es : List Expr}
    (he : evalMany host scope rest e s = some (v :: vs, s₁))
    (hes : evalAll host scope rest (e' :: es) s₁ = some (ws, s₂)) :
    evalAll host scope rest (e :: e' :: es) s = some (v :: ws, s₂) := by
  simp [evalAll, eval_of_evalMany he, hes]

theorem evalAll_ofText : ∀ texts : List String,
    evalAll host scope rest (texts.map .ofText) s = some (texts.map .text, s)
  | [] => evalAll_nil
  | [text] => (evalAll_singleton _).trans (evalMany_ofText text)
  | text :: next :: texts => evalAll_cons (evalMany_ofText text) (evalAll_ofText (next :: texts))

theorem call_builtin (b : Builtin) : call host (.builtin b) vs s = host.callBuiltin b vs s := by
  rw [call]

theorem call_closure {a : Nat} {c : Closure} (hc : s.closures a = some c)
    (hbind : Store.bind c.scope c.params vs s = (inner, rest, s₁))
    (hbody : execAll host inner rest c.body s₁ = some (signal, scope, s₂))
    (hsignal : signal = .returned ws ∨ signal = .next ∧ ws = []) :
    call host (.closure a) vs s = some (ws, s₂) := by
  rw [call]
  rcases hsignal with rfl | ⟨rfl, rfl⟩ <;> simp [hc, hbind, hbody]

theorem execAll_nil : execAll host scope rest [] s = some (.next, scope, s) := by rw [execAll]

theorem execAll_cons (hstat : exec host scope rest stat s = some (.next, inner, s₁)) :
    execAll host scope rest (stat :: stats) s = execAll host inner rest stats s₁ := by
  rw [execAll, hstat]; rfl

theorem execAll_singleton (hstat : exec host scope rest stat s = some (.next, inner, s₁)) :
    execAll host scope rest [stat] s = some (.next, inner, s₁) :=
  (execAll_cons hstat).trans execAll_nil

theorem execAll_cons_broke (hstat : exec host scope rest stat s = some (.broke, inner, s₁)) :
    execAll host scope rest (stat :: stats) s = some (.broke, inner, s₁) := by
  rw [execAll, hstat]; rfl

theorem execAll_cons_returned
    (hstat : exec host scope rest stat s = some (.returned vs, inner, s₁)) :
    execAll host scope rest (stat :: stats) s = some (.returned vs, inner, s₁) := by
  rw [execAll, hstat]; rfl

theorem exec_localNames {values : List Expr} (names : List String)
    (hvalues : evalAll host scope rest values s = some (vs, s₁)) :
    exec host scope rest (.localNames names values) s =
      some (.next, Store.declare scope names vs s₁) := by
  rw [Host.exec.eq_def]
  simp only [hvalues]
  rfl

theorem exec_localName (name : String) (he : evalMany host scope rest e s = some (v :: vs, s₁)) :
    exec host scope rest (.localName name e) s =
      some (.next, (name, s₁.nextCell) :: scope, s₁.newCell v) := by
  rw [Stat.localName, exec_localNames [name] ((evalAll_singleton e).trans he)]; rfl

theorem exec_function (name : String) (params : List Param) (body : List Stat) :
    exec host scope rest (.function (some (.name name)) true params body) s =
      some (.next, (name, s.nextCell) :: scope, (s.newCell (.closure s.nextClosure)).newClosure
        ⟨params, body, (name, s.nextCell) :: scope⟩) := by
  rw [Host.exec.eq_def]

theorem exec_call (he : evalMany host scope rest e s = some (vs, s₁)) :
    exec host scope rest (.call e) s = some (.next, scope, s₁) := by
  rw [Host.exec.eq_def]
  simp only [he]
  rfl

theorem exec_assignName {name : String} {a : Nat} (ha : scope.lookup name = some a)
    (he : evalMany host scope rest e s = some (v :: vs, s₁)) :
    exec host scope rest (.assignOne (.name name) e) s = some (.next, scope, s₁.setCell a v) := by
  rw [Stat.assignOne, Host.exec.eq_def]
  simp [eval_of_evalMany he, ha]

theorem exec_assignIndex {a : Nat} {us : List (Value Object)}
    (hbase : evalMany host scope rest base s = some (.table a :: us, s₁))
    (hkey : evalMany host scope rest key s₁ = some (w :: ws, s₂))
    (he : evalMany host scope rest e s₂ = some (v :: vs, s₃)) :
    exec host scope rest (.assignOne (.index base key) e) s =
      some (.next, scope, s₃.setIndex a w v) := by
  rw [Stat.assignOne, Host.exec.eq_def]
  simp [eval_of_evalMany hbase, eval_of_evalMany hkey, eval_of_evalMany he]

theorem exec_ifThen_of_true
    (hcondition : evalMany host scope rest condition s = some (.boolean true :: vs, s₁))
    (hbody : execAll host scope rest body s₁ = some (signal, inner, s₂)) :
    exec host scope rest (.ifThen condition body) s = some (signal, scope, s₂) := by
  rw [Stat.ifThen, Host.exec.eq_def]
  simp [execClauses, eval_of_evalMany hcondition, Value.isTruthy, hbody]

theorem exec_ifThen_of_false
    (hcondition : evalMany host scope rest condition s = some (.boolean false :: vs, s₁)) :
    exec host scope rest (.ifThen condition body) s = some (.next, scope, s₁) := by
  rw [Stat.ifThen, Host.exec.eq_def]
  simp [execClauses, eval_of_evalMany hcondition, Value.isTruthy]

theorem exec_breakLoop : exec host scope rest .breakLoop s = some (.broke, scope, s) := by
  rw [Host.exec.eq_def]

theorem exec_ret {values : List Expr}
    (hvalues : evalAll host scope rest values s = some (vs, s₁)) :
    exec host scope rest (.ret values) s = some (.returned vs, scope, s₁) := by
  rw [Host.exec.eq_def]
  simp only [hvalues]
  rfl

theorem exec_forRange {name : String} {i j : Int}
    (hi : evalMany host scope rest left s = some (.number i :: vs, s₁))
    (hj : evalMany host scope rest right s₁ = some (.number j :: ws, s₂))
    (hloop : loopRange host scope rest name body i j s₂ = some (signal, s₃)) :
    exec host scope rest (.forRange name left right none body) s = some (signal, scope, s₃) := by
  rw [Host.exec.eq_def]
  simp [eval_of_evalMany hi, eval_of_evalMany hj, hloop]

theorem exec_forEach {names : List String} {u : Value Object}
    (he : evalMany host scope rest e s = some ([u, v, w], s₁))
    (hloop : loopEach host scope rest names body u v w s₁ = some (signal, s₂)) :
    exec host scope rest (.forEach names [e] body) s = some (signal, scope, s₂) := by
  rw [Host.exec.eq_def]
  simp [evalAll_singleton, he, hloop]

/-- **A loop over numbers keeps what each round keeps**, where `P k` holds after `k` rounds. -/
theorem loopRange_of_step {name : String} {n : Nat} (P : Nat → Store Object → Prop)
    (hstep : ∀ k s, k < n → P k s → ∃ inner s', execAll host ((name, s.nextCell) :: scope) rest body
      (s.newCell (.number (k + 1 : Nat))) = some (.next, inner, s') ∧ P (k + 1) s') :
    ∀ {s} (k : Nat), k ≤ n → P k s →
      ∃ s', loopRange host scope rest name body (k + 1 : Nat) n s = some (.next, s') ∧ P n s' := by
  intro s k hk h
  induction hm : n - k generalizing k s with
  | zero =>
    obtain rfl : k = n := by omega
    refine ⟨s, ?_, h⟩
    rw [loopRange, if_pos (by omega)]
  | succ m ih =>
    obtain ⟨inner, s₁, hbody, h₁⟩ := hstep k s (by omega) h
    obtain ⟨s₂, hloop, h₂⟩ := ih (k + 1) (by omega) h₁ (by omega)
    refine ⟨s₂, ?_, h₂⟩
    rw [loopRange, if_neg (by omega), hbody]
    exact hloop

theorem loopEach_of_nil {names : List String} {u : Value Object}
    (hcall : call host u [v, w] s = some (.nil :: vs, s₁)) :
    loopEach host scope rest names body u v w s = some (.next, s₁) := by
  rw [loopEach, hcall]; rfl

theorem loopEach_of_broke {names : List String} {u x : Value Object}
    (hcall : call host u [v, w] s = some (x :: vs, s₁)) (hx : x ≠ .nil)
    (hbody : execAll host (Store.declare scope names (x :: vs) s₁).1 rest body
      (Store.declare scope names (x :: vs) s₁).2 = some (.broke, inner, s₂)) :
    loopEach host scope rest names body u v w s = some (.next, s₂) := by
  rw [loopEach, hcall]
  simp [hx, hbody]

theorem loopEach_of_next {names : List String} {u x : Value Object}
    (hcall : call host u [v, w] s = some (x :: vs, s₁)) (hx : x ≠ .nil)
    (hbody : execAll host (Store.declare scope names (x :: vs) s₁).1 rest body
      (Store.declare scope names (x :: vs) s₁).2 = some (.next, inner, s₂)) :
    loopEach host scope rest names body u v w s =
      loopEach host scope rest names body u v x s₂ := by
  rw [loopEach, hcall]
  simp [hx, hbody]

end

end Reenact.Lua
