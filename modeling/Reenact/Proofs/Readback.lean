/-
  Reading back what was written.

  * `chunk_read`: a chunk without operations in operations and without negative numbers is read back
    as it is, but for the text of its literals, and for calls with one table or string, which are
    read as calls;
  * `operation_read`: a tree of operators is read back as it stands if all its operands are plain.
-/
import Reenact.Proofs.Grouping
import Reenact.Proofs.ReadStatements

namespace Reenact

open Reader

/-! ## Trees -/

/-- Under the rule, the operands of all well-formed expressions are plain. -/
def Expr.KeepsPlain (rule : Expr → Prop) : Prop :=
  ∀ (called : Bool) (e : Expr), e.Formed rule called → e.Plain

section

variable {rule : Expr → Prop} {reader : Reader}

theorem Expr.KeepsPlain.isGrouped {called : Bool} {e : Expr} (h : KeepsPlain rule)
    (hformed : e.Formed rule called) : e.isGrouped = true :=
  (isGrouped_iff_plain hformed).2 (h called e hformed)

mutual

/-- **The terminals of an expression are read as the expression.** -/
theorem Expr.read (hrule : Expr.KeepsPlain rule) : ∀ {called : Bool} (e : Expr),
    e.Formed rule called → e.Read reader called
  | _, .name n, _ => .name n
  | _, .text v source, _ => .text v source
  | _, .number x source, _ => .number x source
  | _, .boolean true, _ => .constant (t := .word .true) rfl rfl fun rest => by rw [operand?]; rfl
  | _, .boolean false, _ => .constant (t := .word .false) rfl rfl fun rest => by rw [operand?]; rfl
  | _, .nil, _ => .constant rfl rfl fun rest => by rw [operand?]; rfl
  | _, .vararg, _ => .constant rfl rfl fun rest => by rw [operand?]; rfl
  | _, .binary _ left right, h =>
    .binary (hrule.isGrouped h) (left.read hrule h.2.1) (right.read hrule h.2.2)
  | _, .logical _ left right, h =>
    .logical (hrule.isGrouped h) (left.read hrule h.2.1) (right.read hrule h.2.2)
  | _, .unary _ argument, h => .unary (hrule.isGrouped h) (argument.read hrule h.2)
  | _, .member base _ n, h => .member (base.first_head h.1) (base.read hrule h.1) h.2.1 n
  | _, .index base key, h =>
    .index (base.first_head h.1) (base.read hrule h.1) (key.read hrule h.2.1)
  | _, .call base arguments, h =>
    .call (base.first_head h.1) (base.read hrule h.1) h.2.first (Expr.readEach hrule arguments h.2)
  | _, .tableCall base fields, h =>
    .tableCall (base.first_head h.1) (base.read hrule h.1)
      (.table (Field.readEach hrule fields h.2))
  | _, .textCall base v source, h =>
    .textCall (base.first_head h.1) (base.read hrule h.1) v source
  | _, .table fields, h => .table (Field.readEach hrule fields h)
  | _, .function _ body, h => .function h.1 (Stat.readAll hrule body h.2)

theorem Expr.readEach (hrule : Expr.KeepsPlain rule) : ∀ es : List Expr, Expr.FormedEach rule es →
    ∀ e ∈ es, e.Read reader false
  | [], _ => nofun
  | e :: es, h => List.forall_mem_cons.2 ⟨e.read hrule h.1, Expr.readEach hrule es h.2⟩

theorem Field.read (hrule : Expr.KeepsPlain rule) : ∀ f : Field, f.Formed rule → f.Read reader
  | .keyed key value, h => .keyed (key.read hrule h.1) (value.read hrule h.2.1)
  | .named n value, h => .named n (value.read hrule h.2)
  | .positional value, h => .positional (value.first h) (value.unassigned h) (value.read hrule h)

theorem Field.readEach (hrule : Expr.KeepsPlain rule) : ∀ fs : List Field,
    Field.FormedEach rule fs → ∀ f ∈ fs, f.Read reader
  | [], _ => nofun
  | f :: fs, h => List.forall_mem_cons.2 ⟨f.read hrule h.1, Field.readEach hrule fs h.2⟩

/-- A statement is read in front of any other, or is a `return` and read at the end of a block. -/
theorem Stat.read (hrule : Expr.KeepsPlain rule) : ∀ s : Stat, s.Formed rule →
    s.Read reader ∨ s.isReturn = true ∧ Stat.ReadAll reader [s]
  | .localNames _ values, h => .inl (.localNames h.1 (Expr.readEach hrule values h.2.2))
  | .function (some _) _ _ body, h => .inl (.function h.1 h.2.1 (Stat.readAll hrule body h.2.2))
  | .call expr, h =>
    .inl (.call h.1 (expr.first_of_isHead h.2 (Expr.isHead_of_isCall h.1)) (expr.read hrule h.2))
  | .assign targets values, h =>
    .inl (.assign h.1 h.2.1 h.2.2.1
      (fun e he => e.first_of_isHead (h.2.2.2.1.of_mem e he)
        (Expr.isHead_of_isTarget (List.all_eq_true.1 h.2.2.1 e he)))
      (Expr.readEach hrule targets h.2.2.2.1) (Expr.readEach hrule values h.2.2.2.2))
  | .branch (.ifThen condition body :: clauses), h =>
    .inl (.branch (condition.read hrule h.2.1.1) (Stat.readAll hrule body h.2.1.2) h.1
      (Clause.readAll hrule clauses h.1 h.2.2))
  | .ret values, h => .inr ⟨rfl, Stat.readAll_return h.first (Expr.readEach hrule values h)⟩
  | .whileLoop condition body, h =>
    .inl (.whileLoop (condition.read hrule h.1) (Stat.readAll hrule body h.2))
  | .breakLoop, _ => .inl .breakLoop
  | .block body, h => .inl (.block (Stat.readAll hrule body h))
  | .repeatLoop body condition, h =>
    .inl (.repeatLoop (Stat.readAll hrule body h.1) (condition.read hrule h.2))
  | .forRange n first last step body, h =>
    .inl (.forRange n (first.read hrule h.2.1) (last.read hrule h.2.2.1)
      (Expr.readOptional hrule step h.2.2.2.1) (Stat.readAll hrule body h.2.2.2.2))
  | .forEach _ iterators body, h =>
    .inl (.forEach h.1 h.2.1 (Expr.readEach hrule iterators h.2.2.2.1)
      (Stat.readAll hrule body h.2.2.2.2))
  | .goto label, _ => .inl (.goto label)
  | .label n, _ => .inl (.label n)

/-- **The terminals of statements are read as the statements.** -/
theorem Stat.readAll (hrule : Expr.KeepsPlain rule) : ∀ body : List Stat,
    Stat.FormedAll rule body → Stat.ReadAll reader body
  | [], _ => Stat.readAll_nil
  | s :: rest, h => by
    rcases s.read hrule h.1 with hread | ⟨hreturn, hread⟩
    · exact Stat.readAll_cons hread (Stat.readAll hrule rest h.2.2)
    · rw [h.2.1 hreturn]
      exact hread

theorem Clause.readAll (hrule : Expr.KeepsPlain rule) : ∀ clauses : List Clause,
    Clause.follow clauses = true → Clause.FormedAll rule clauses → Clause.ReadAll reader clauses
  | [], _, _ => Clause.readAll_nil
  | [.otherwise body], _, h => Clause.readAll_otherwise (Stat.readAll hrule body h.1)
  | .elseIf condition body :: clauses, hfollow, h =>
    Clause.readAll_elseIf (condition.read hrule h.1.1) (Stat.readAll hrule body h.1.2) hfollow
      (Clause.readAll hrule clauses hfollow h.2)

theorem Expr.readOptional (hrule : Expr.KeepsPlain rule) : ∀ e : Option Expr,
    Expr.FormedOptional rule e → ∀ e' ∈ e, e'.Read reader false
  | none, _ => nofun
  | some e, h => by
    rintro _ ⟨⟩
    exact e.read hrule h

end

/-! ## Texts -/

theorem Expr.readExpr?_render (hrule : Expr.KeepsPlain rule) {l : Layout} (hl : l.Standard)
    {e : Expr} (h : e.Formed rule false) : readExpr? reader (e.render l) = some (e.asRead reader) := by
  have hread : Reader.expr? reader 0 (e.terminals ++ []) = some (e.asRead reader, []) :=
    (e.read hrule h).expr?_closes ⟨nofun, nofun⟩
  rw [List.append_nil] at hread
  rw [readExpr?, terminals?_render hl h]
  simp only [Option.bind_eq_bind, Option.bind_some, hread]
  rfl

theorem Stat.read?_render (hrule : Expr.KeepsPlain rule) {l : Layout} (hl : l.Standard)
    {body : List Stat} (h : Stat.FormedAll rule body) :
    read? reader (Stat.render l body) = some (Stat.asReadAll reader body) := by
  have hread : block? reader (Stat.terminalsAll body ++ []) =
      some (Stat.asReadAll reader body, []) := Stat.readAll hrule body h [] rfl
  rw [List.append_nil] at hread
  rw [read?, terminals?_render hl h]
  simp only [Option.bind_eq_bind, Option.bind_some, hread]
  rfl

end

/-! ## Chunks -/

namespace Expr

/-- An operation that is written without parentheses. -/
def isBare : Expr → Bool
  | logical .. | unary .. => true
  | _ => false

/-- No operand is an operation without parentheses, and no number is negative. -/
def Simple : Expr → Prop
  | number x _ => 0 ≤ x.units
  | binary _ left right | logical _ left right => left.isBare = false ∧ right.isBare = false
  | unary _ argument => argument.isBare = false
  | _ => True

theorem isLogical_of_not_isBare {e : Expr} (h : e.isBare = false) : e.isLogical = false := by
  cases e with
  | logical => cases h
  | _ => rfl

theorem isSigned_of_not_isBare {called : Bool} {e : Expr} (hformed : e.Formed Simple called)
    (h : e.isBare = false) : e.isSigned = false := by
  cases e with
  | unary => cases h
  | number x source => exact decide_eq_false (Int.not_lt.2 hformed.1)
  | _ => rfl

theorem keepsPlain_simple : KeepsPlain Simple := by
  intro called e h
  cases e with
  | binary op left right =>
    obtain ⟨⟨hleft, hright⟩, hformed, -⟩ := h
    exact ⟨isLogical_of_not_isBare hleft, isLogical_of_not_isBare hright,
      fun _ => isSigned_of_not_isBare hformed hleft⟩
  | logical op left right =>
    have hleft := isLogical_of_not_isBare h.1.1
    have hright := isLogical_of_not_isBare h.1.2
    cases op with
    | and => exact ⟨isOr_eq_false hleft, hright⟩
    | or => exact isOr_eq_false hright
  | unary op argument => exact isLogical_of_not_isBare h.1
  | _ => trivial

theorem parenthesized_singleton (text : List Char) :
    parenthesized [text] = '(' :: text ++ [')'] := by
  rw [parenthesized, commaSeparated, List.intercalate_singleton]

/-- A call with a table is written as any other, so no reader can tell it apart. -/
theorem write_tableCall (l : Layout) (base : Expr) (fields : List Field) :
    (tableCall base fields).write l = (call base [.table fields]).write l := by
  change base.headText (base.write l) ++ '(' :: l.tableText _ ++ [')'] =
    base.headText (base.write l) ++ parenthesized [l.tableText _]
  rw [parenthesized_singleton, List.append_assoc]

/-- A call with a string is written as any other. -/
theorem write_textCall (l : Layout) (base : Expr) (v : String) :
    (textCall base v (textLiteral v)).write l = (call base [.ofText v]).write l := by
  change base.headText (base.write l) ++ '(' :: (textLiteral v).toList ++ [')'] =
    base.headText (base.write l) ++ parenthesized [(textLiteral v).toList]
  rw [parenthesized_singleton, List.append_assoc]

end Expr

/-- **Chunks are read back** as they are, but for what `asRead` changes: the text of literals, and
    calls with one table or string, which are read as calls. -/
theorem chunk_read {body : List Stat} (h : Stat.FormedAll Expr.Simple body)
    (reader : Reader) :
    read? reader (Stat.render {} body) = some (Stat.asReadAll reader body) :=
  Stat.read?_render Expr.keepsPlain_simple Layout.standard h

/-- Reads numerals of decimal digits. -/
def Reader.decimal : Reader where
  valueOf digits := .ofInt (Nat.ofDigitChars 10 digits.toList 0)

/-- A sum over a list, given up at the first element that is not a number. -/
def sumOfList : List Stat :=
  [.localName "total" (.ofNat 0),
    .forEach ["_", "value"] [.call (.name "ipairs") [.name "list"]]
      [.branch
        [.ifThen (.binary .eq (.call (.name "type") [.name "value"]) (.ofText "number"))
          [.assignOne (.name "total") (.binary .add (.name "total") (.name "value"))],
        .otherwise [.ret [.unary .len (.name "list")]]]]]

/-- The sum is read back as it is. -/
theorem sumOfList_read : Stat.FormedAll Expr.Simple sumOfList ∧
    read? .decimal (Stat.render {} sumOfList) = some sumOfList := by
  have h : Stat.FormedAll Expr.Simple sumOfList := by
    simp [sumOfList, Stat.localName, Stat.assignOne, Stat.FormedAll, Stat.Formed, Stat.isReturn,
      Clause.FormedAll, Clause.Formed, Clause.areFormed, Clause.follow, Expr.FormedEach,
      Expr.Formed, Expr.Simple, Expr.isBare, Expr.isTarget, Expr.ofNat, Expr.ofNumber, Expr.ofText]
    decide +kernel
  exact ⟨h, chunk_read h _⟩

/-- The call `f{}` is written and read as the call of `f` with a table in parentheses. -/
theorem tableCall_not_told_apart :
    Stat.FormedAll Expr.Simple [.call (.tableCall (.name "f") [])] ∧
      Stat.FormedAll Expr.Simple [.call (.call (.name "f") [.table []])] ∧
      Stat.render {} [.call (.tableCall (.name "f") [])] =
        Stat.render {} [.call (.call (.name "f") [.table []])] ∧
      read? .decimal (Stat.render {} [.call (.tableCall (.name "f") [])]) =
        some [.call (.call (.name "f") [.table []])] ∧
      [Stat.call (.tableCall (.name "f") [])] ≠ [.call (.call (.name "f") [.table []])] := by
  have hname : isName "f" = true := by decide
  have htable : Stat.FormedAll Expr.Simple [.call (.tableCall (.name "f") [])] :=
    ⟨⟨rfl, hname, trivial⟩, nofun, trivial⟩
  have hcall : Stat.FormedAll Expr.Simple [.call (.call (.name "f") [.table []])] :=
    ⟨⟨rfl, hname, trivial, trivial⟩, nofun, trivial⟩
  refine ⟨htable, hcall, ?_, Stat.read?_render Expr.keepsPlain_simple Layout.standard htable, nofun⟩
  have hw : ∀ e, Stat.render {} [.call e] = String.ofList (e.write {} ++ [';', '\n'] ++ []) :=
    fun _ => rfl
  rw [hw, hw, Expr.write_tableCall]

/-! ## Operators -/

namespace Expr

/-- Operators over names and finite numbers. -/
def isOperation : Expr → Bool
  | name n => isName n
  | number x source => x.isFinite && source == numberLiteral x
  | binary _ left right | logical _ left right => left.isOperation && right.isOperation
  | unary _ argument => argument.isOperation
  | _ => false

/-- The operands of all operators are plain. -/
def AllPlain : Expr → Prop
  | binary op left right => (binary op left right).Plain ∧ left.AllPlain ∧ right.AllPlain
  | logical op left right => (logical op left right).Plain ∧ left.AllPlain ∧ right.AllPlain
  | unary op argument => (unary op argument).Plain ∧ argument.AllPlain
  | _ => True

theorem keepsPlain_plain : KeepsPlain Plain := by
  intro called e h
  cases e with
  | binary => exact h.1
  | logical => exact h.1
  | unary => exact h.1
  | _ => trivial

theorem formed_of_isOperation {called : Bool} : ∀ {e : Expr}, e.isOperation = true → e.AllPlain →
    e.Formed Plain called
  | name n, h, _ => h
  | number x source, h, _ => by
    obtain ⟨hfinite, hsource⟩ := Bool.and_eq_true_iff.1 h
    exact ⟨trivial, hfinite, beq_iff_eq.1 hsource⟩
  | binary op left right, h, hplain | logical op left right, h, hplain => by
    obtain ⟨hleft, hright⟩ := Bool.and_eq_true_iff.1 h
    exact ⟨hplain.1, formed_of_isOperation hleft hplain.2.1,
      formed_of_isOperation hright hplain.2.2⟩
  | unary op argument, h, hplain => ⟨hplain.1, formed_of_isOperation (e := argument) h hplain.2⟩

/-- The layout makes no difference. -/
theorem write_of_isOperation (l : Layout) : ∀ {e : Expr}, e.isOperation = true →
    e.write l = e.write {}
  | name n, _ | number _ source, _ => rfl
  | binary op left right, h => by
    obtain ⟨hleft, hright⟩ := Bool.and_eq_true_iff.1 h
    change '(' :: left.write l ++ ' ' :: op.symbol.toList ++ ' ' :: right.write l ++ [')'] = _
    rw [write_of_isOperation l hleft, write_of_isOperation l hright]
    rfl
  | logical op left right, h => by
    obtain ⟨hleft, hright⟩ := Bool.and_eq_true_iff.1 h
    change left.write l ++ ' ' :: op.symbol.toList ++ ' ' :: right.write l = _
    rw [write_of_isOperation l hleft, write_of_isOperation l hright]
    rfl
  | unary op argument, h =>
    congrArg (op.symbol.toList ++ ' ' :: ·) (write_of_isOperation l (e := argument) h)

end Expr

/-- **Operators are grouped as in the tree** if all operands are plain.  A negative number is read
    as a minus sign in front of a number. -/
theorem operation_read {e : Expr} (h : e.isOperation = true) (hplain : e.AllPlain) (l : Layout)
    (reader : Reader) : readExpr? reader (e.render l) = some (e.asRead reader) := by
  rw [Expr.render, Expr.write_of_isOperation l h, ← Expr.render]
  exact Expr.readExpr?_render Expr.keepsPlain_plain Layout.standard
    (Expr.formed_of_isOperation h hplain)

/-- `(- a + b) and c or not (2 ^ -3)` is read as it is meant. -/
theorem power_in_disjunction_read :
    let sum : Expr := .binary .add (.unary .neg (.name "a")) (.name "b")
    let both : Expr := .logical .and sum (.name "c")
    let power : Expr := .binary .pow (.ofNat 2) (.ofNumber (.ofInt (-3)))
    let e : Expr := .logical .or both (.unary .not power)
    e.isOperation = true ∧ e.AllPlain ∧
      readExpr? .decimal (e.render {}) =
        some (.logical .or both
          (.unary .not (.binary .pow (.ofNat 2) (.unary .neg (.ofNat 3))))) := by
  intro sum both power e
  have hoperation : e.isOperation = true := by decide +kernel
  have hboth : both.AllPlain :=
    ⟨⟨rfl, rfl⟩, ⟨⟨rfl, rfl, nofun⟩, ⟨rfl, trivial⟩, trivial⟩, trivial⟩
  have hpower : power.AllPlain := ⟨⟨rfl, rfl, fun _ => by decide +kernel⟩, trivial, trivial⟩
  have hplain : e.AllPlain := ⟨rfl, hboth, rfl, hpower⟩
  have htwo : numberLiteral (.ofInt 2) = "2" := by decide +kernel
  have hthree : numberLiteral (.ofInt 3) = "3" := by decide +kernel
  have hminus : numberLiteral (.ofInt (-3)) = "-3" := by decide +kernel
  refine ⟨hoperation, hplain, (operation_read hoperation hplain {} _).trans ?_⟩
  simp [e, both, sum, power, Expr.asRead, numberRead, Expr.ofNat, Expr.ofNumber, htwo, hthree,
    hminus]
  decide +kernel

/-- `not` in front of `a and b` is written and read as if it were in front of `a` only. -/
theorem not_and_regrouped :
    let e : Expr := .unary .not (.logical .and (.name "a") (.name "b"))
    e.isOperation = true ∧
      readExpr? .decimal (e.render {}) =
        some (.logical .and (.unary .not (.name "a")) (.name "b")) ∧
      e.asRead .decimal ≠ .logical .and (.unary .not (.name "a")) (.name "b") := by
  intro e
  have ha : isName "a" = true := by decide
  have hb : isName "b" = true := by decide
  have hw : e.render {} =
      (Expr.logical .and (.unary .not (.name "a")) (.name "b")).render {} := by decide
  refine ⟨by decide, ?_, nofun⟩
  rw [hw]
  exact Expr.readExpr?_render Expr.keepsPlain_plain Layout.standard
    ⟨⟨rfl, rfl⟩, ⟨rfl, ha⟩, hb⟩

end Reenact
