/-
  The terminals of syntax trees.

  `Expr.terminals` and `Stat.terminals` are what a tree is written with, apart from all spaces and
  line breaks.

  * `Expr.spells`, `Stat.spellsAll`: the text of a well-formed tree is read as just these, in any
    layout with one line a statement, so no two of its tokens are read as one;
  * `Expr.terminals?_render`, `Stat.terminals?_render`: that text, read to its end.
-/
import Reenact.Proofs.Terminals
import Reenact.Proofs.WellFormed

namespace Reenact

open Lexer

/-! ## Terminals of trees -/

/-- Lists of terminals with a comma between each two. -/
def separated (tss : List (List Terminal)) : List Terminal := [.symbol .comma].intercalate tss

/-- Names with commas between. -/
def nameTerminals (names : List String) : List Terminal :=
  separated (names.map fun n => [.name n])

def Param.terminals : Param → List Terminal
  | name n => [.name n]
  | vararg => [.symbol .dots]

/-- Parameters in parentheses. -/
def paramTerminals (params : List Param) : List Terminal :=
  [.symbol .openParen] ++ separated (params.map Param.terminals) ++ [.symbol .closeParen]

def Access.terminal : Access → Terminal
  | dot => .symbol .dot
  | colon => .symbol .colon

/-- The terminals of an expression as it stands before a member, a key or arguments. -/
def Expr.headTerminals (e : Expr) (ts : List Terminal) : List Terminal :=
  if e.isHead then ts else [.symbol .openParen] ++ ts ++ [.symbol .closeParen]

mutual

/-- The terminals of an expression. -/
def Expr.terminals : Expr → List Terminal
  | .name n => [.name n]
  | .text v _ => [.text (textRead v)]
  | .number _ source => numberTerminals source
  | .boolean b => [.word (if b then .true else .false)]
  | .nil => [.word .nil]
  | .vararg => [.symbol .dots]
  | .binary op left right =>
    [.symbol .openParen] ++ left.terminals ++ [(Operator.binary op).terminal] ++ right.terminals ++
      [.symbol .closeParen]
  | .logical op left right =>
    left.terminals ++ [(Operator.logical op).terminal] ++ right.terminals
  | .unary op argument => [op.terminal] ++ argument.terminals
  | .member base access name =>
    base.headTerminals base.terminals ++ [access.terminal] ++ [.name name]
  | .index base key =>
    base.headTerminals base.terminals ++ ([.symbol .openBracket] ++ key.terminals) ++
      [.symbol .closeBracket]
  | .call base arguments =>
    base.headTerminals base.terminals ++
      ([.symbol .openParen] ++ separated (Expr.terminalsEach arguments) ++ [.symbol .closeParen])
  | .tableCall base fields =>
    base.headTerminals base.terminals ++ ([.symbol .openParen] ++
      ([.symbol .openBrace] ++ separated (Field.terminalsEach fields) ++ [.symbol .closeBrace])) ++
      [.symbol .closeParen]
  | .textCall base v _ =>
    base.headTerminals base.terminals ++ ([.symbol .openParen] ++ [.text (textRead v)]) ++
      [.symbol .closeParen]
  | .table fields =>
    [.symbol .openBrace] ++ separated (Field.terminalsEach fields) ++ [.symbol .closeBrace]
  | .function params body =>
    [.symbol .openParen, .word .function] ++ paramTerminals params ++ Stat.terminalsAll body ++
      [.word .end_, .symbol .closeParen]
  | .raw _ => []

/-- The terminals of expressions. -/
def Expr.terminalsEach : List Expr → List (List Terminal)
  | [] => []
  | e :: rest => e.terminals :: Expr.terminalsEach rest

/-- The terminals of a field. -/
def Field.terminals : Field → List Terminal
  | .keyed key value =>
    [.symbol .openBracket] ++ key.terminals ++ [.symbol .closeBracket, .symbol .assign] ++
      value.terminals
  | .named name value => [.name name] ++ [.symbol .assign] ++ value.terminals
  | .positional value => value.terminals

/-- The terminals of fields. -/
def Field.terminalsEach : List Field → List (List Terminal)
  | [] => []
  | f :: rest => f.terminals :: Field.terminalsEach rest

/-- The terminals of a statement up to its semicolon. -/
def Stat.terminals : Stat → List Terminal
  | .localNames names values =>
    [.word .local_] ++ nameTerminals names ++
      (if values.isEmpty then [] else [.symbol .assign] ++ separated (Expr.terminalsEach values))
  | .function name isLocal params body =>
    (if isLocal then [.word .local_] else []) ++ [.word .function] ++
      Expr.terminalsOptional [] name ++ paramTerminals params ++ Stat.terminalsAll body ++
      [.word .end_]
  | .call expr => expr.terminals
  | .assign targets values =>
    separated (Expr.terminalsEach targets) ++ [.symbol .assign] ++
      separated (Expr.terminalsEach values)
  | .branch clauses => Clause.terminalsAll clauses ++ [.word .end_]
  | .ret values => [.word .return_] ++ separated (Expr.terminalsEach values)
  | .whileLoop condition body =>
    [.word .while_] ++ condition.terminals ++ [.word .do_] ++ Stat.terminalsAll body ++
      [.word .end_]
  | .breakLoop => [.word .break_]
  | .block body => [.word .do_] ++ Stat.terminalsAll body ++ [.word .end_]
  | .repeatLoop body condition =>
    [.word .repeat_] ++ Stat.terminalsAll body ++ [.word .until_] ++ condition.terminals
  | .forRange name first last step body =>
    [.word .for_] ++ [.name name] ++ [.symbol .assign] ++ first.terminals ++ [.symbol .comma] ++
      last.terminals ++ Expr.terminalsOptional [.symbol .comma] step ++ [.word .do_] ++
      Stat.terminalsAll body ++ [.word .end_]
  | .forEach names iterators body =>
    [.word .for_] ++ nameTerminals names ++ [.word .in_] ++
      separated (Expr.terminalsEach iterators) ++ [.word .do_] ++ Stat.terminalsAll body ++
      [.word .end_]
  | .goto label => [.word .goto] ++ [.name label]
  | .label name => [.symbol .doubleColon] ++ [.name name] ++ [.symbol .doubleColon]

/-- The terminals of statements one after another. -/
def Stat.terminalsAll : List Stat → List Terminal
  | [] => []
  | s :: rest => s.terminals ++ [.symbol .semicolon] ++ Stat.terminalsAll rest

/-- The terminals of a clause. -/
def Clause.terminals : Clause → List Terminal
  | .ifThen condition body =>
    [.word .if_] ++ condition.terminals ++ [.word .then_] ++ Stat.terminalsAll body
  | .elseIf condition body =>
    [.word .elseif] ++ condition.terminals ++ [.word .then_] ++ Stat.terminalsAll body
  | .otherwise body => [.word .else_] ++ Stat.terminalsAll body

/-- The terminals of clauses one after another. -/
def Clause.terminalsAll : List Clause → List Terminal
  | [] => []
  | c :: rest => c.terminals ++ Clause.terminalsAll rest

/-- The terminals of an expression after a lead, if there is one. -/
def Expr.terminalsOptional (lead : List Terminal) : Option Expr → List Terminal
  | none => []
  | some e => lead ++ e.terminals

end

/-! ## First characters -/

/-- The text begins with one character in all layouts, and not with `=`. -/
def Begins (text : Layout → List Char) : Prop := ∃ c, c ≠ '=' ∧ ∀ l, (text l).head? = some c

namespace Begins

theorem of_cons {c : Char} (hc : c ≠ '=') (more : Layout → List Char) :
    Begins fun l => c :: more l :=
  ⟨c, hc, fun _ => rfl⟩

theorem append {text : Layout → List Char} (h : Begins text) (more : Layout → List Char) :
    Begins fun l => text l ++ more l := by
  obtain ⟨c, hc, hhead⟩ := h
  exact ⟨c, hc, fun l => by rw [List.head?_append, hhead]; rfl⟩

theorem headText {e : Expr} (h : Begins fun l => e.write l) :
    Begins fun l => e.headText (e.write l) := by
  unfold Expr.headText
  split
  · exact h
  · exact (of_cons (by decide) _).append _

theorem tableText (fields : Layout → List (List Char)) :
    Begins fun l => l.tableText (fields l) := by
  refine ⟨'{', by decide, fun l => ?_⟩
  dsimp only [Layout.tableText]
  split <;> rfl

end Begins

/-- **An expression does not begin with an equals sign**, and how it begins does not depend on the
    layout. -/
theorem Expr.begins {rule : Expr → Prop} : ∀ {called : Bool} (e : Expr), e.Formed rule called →
    Begins fun l => e.write l
  | _, .name n, h => by
    obtain ⟨c, more, hn, hc, -⟩ := isWord_of_isName h
    refine ⟨c, ?_, fun l => congrArg List.head? hn⟩
    rintro rfl
    exact absurd hc (by decide)
  | _, .text v source, h => by
    obtain ⟨c, more, hv, hc⟩ := textLiteral_begins v
    refine ⟨c, ?_, fun l => congrArg List.head? ((congrArg String.toList h).trans hv)⟩
    rcases hc with rfl | rfl | rfl <;> decide
  | _, .number x source, h => by
    obtain ⟨-, hfinite, rfl⟩ := h
    obtain ⟨digits, hdigits, htext⟩ := numberText_numeral hfinite
    obtain ⟨c, hc, hdigit⟩ := hdigits.isDigit_head
    have hw : ∀ l, (Expr.number x (numberLiteral x)).write l = numberText x :=
      fun l => String.toList_ofList
    simp only [hw, htext]
    split
    · exact .of_cons (by decide) _
    · refine ⟨c, ?_, fun l => hc⟩
      rintro rfl
      exact absurd hdigit (by decide)
  | _, .boolean true, _ | _, .boolean false, _ | _, .nil, _ | _, .vararg, _ =>
    .of_cons (by decide) _
  | _, .binary op left right, _ => .of_cons (by decide) _
  | _, .logical op left right, h => ((left.begins h.2.1).append _).append _
  | _, .unary op argument, _ => by
    cases op <;> exact .of_cons (by decide) _
  | _, .member base access n, h => ((base.begins h.1).headText.append _).append _
  | _, .index base key, h => ((base.begins h.1).headText.append _).append _
  | _, .call base arguments, h => (base.begins h.1).headText.append _
  | _, .tableCall base fields, h => ((base.begins h.1).headText.append _).append _
  | _, .textCall base v source, h => ((base.begins h.1).headText.append _).append _
  | _, .table fields, _ => .tableText _
  | _, .function params body, _ => .of_cons (by decide) _

/-! ## Layouts -/

/-- A statement ends with a semicolon and the end of its line. -/
structure Layout.Standard (l : Layout) : Prop where
  separator : l.separator.toList = [';', '\n']
  lineBreak : l.lineBreak.toList = ['\n']

theorem Layout.Standard.nested {l : Layout} (h : l.Standard) : l.nested.Standard :=
  ⟨h.separator, h.lineBreak⟩

namespace Spells

variable {p q : Char → Bool} {a b : List Char} {ts us : List Terminal} {l : Layout}

theorem indentation (l : Layout) : Spells never l.indentation [] := by
  have h := (Spells.nil never).spaces (l.indentWidth * l.depth)
  rwa [List.append_nil] at h

theorem separator (hl : l.Standard) : Spells never l.separator.toList [.symbol .semicolon] := by
  rw [hl.separator]
  exact (delimiter rfl (by decide)).append_never (white (by decide))

/-- A reserved word and a space behind it. -/
theorem wordSpace (k : Keyword) : Spells never (k.text.toList ++ [' ']) [.word k] :=
  (word k).append_cons (white (by decide)) (by decide)

theorem block (hl : l.Standard) (ha : Spells isWordChar a ts) (hb : Spells never b us) :
    Spells never (a ++ l.blockText b) (ts ++ us) := by
  have hbody : Spells never (l.blockText b) us := by
    have h := (hb.space (c := '\n') (by decide)).append_never (indentation l)
    rw [List.append_nil] at h
    rw [Layout.blockText, hl.lineBreak]
    exact h
  rw [Layout.blockText, hl.lineBreak] at hbody ⊢
  exact ha.append_cons hbody (by decide)

/-- The end of a statement. -/
theorem append_separator (hl : l.Standard) (ha : Spells p a ts) (hp : p ';' = false) :
    Spells never (a ++ l.separator.toList) (ts ++ [.symbol .semicolon]) := by
  refine ha.append (separator hl) fun _ _ => ?_
  rw [hl.separator]
  exact apart_cons.2 hp

/-- The closing word of a block, and the end of its statement. -/
theorem append_end (hl : l.Standard) (ha : Spells never a ts) :
    Spells never (a ++ l.endText) (ts ++ [.word .end_] ++ [.symbol .semicolon]) := by
  rw [List.append_assoc]
  exact ha.append_never ((word .end_).append_separator hl (by decide))

/-! ### Lists -/

theorem comma : Spells never [','] [.symbol .comma] := delimiter rfl (by decide)

theorem commaSpace : Spells never [',', ' '] [.symbol .comma] :=
  comma.append_never (white (by decide))

theorem intercalate {sep : List Char} (hsep : Spells never (',' :: sep) [.symbol .comma])
    (hp : p ',' = false) {texts : List (List Char)} {tss : List (List Terminal)}
    (h : List.Forall₂ (Spells p) texts tss) :
    Spells p ((',' :: sep).intercalate texts) (separated tss) := by
  induction h with
  | nil => exact .nil p
  | cons hfirst hrest ih =>
    cases hrest with
    | nil =>
      rw [separated, List.intercalate_singleton, List.intercalate_singleton]
      exact hfirst
    | cons =>
      rw [separated, List.intercalate_cons_cons, List.intercalate_cons_cons]
      exact (hfirst.append_cons hsep hp).append_never ih

theorem commaSeparated (hp : p ',' = false) {texts : List (List Char)}
    {tss : List (List Terminal)} (h : List.Forall₂ (Spells p) texts tss) :
    Spells p (Reenact.commaSeparated texts) (separated tss) :=
  intercalate commaSpace hp h

theorem names {names : List String} (h : names.all isName = true) :
    Spells isWordChar (writeNames names) (nameTerminals names) := by
  refine commaSeparated (by decide) ?_
  induction names with
  | nil => exact .nil
  | cons n names ih =>
    obtain ⟨hn, h⟩ := Bool.and_eq_true_iff.1 (List.all_cons.symm.trans h)
    exact .cons (name hn) (ih h)

theorem openParen : Spells never ['('] [.symbol .openParen] := delimiter rfl (by decide)

theorem closeParen : Spells never [')'] [.symbol .closeParen] := delimiter rfl (by decide)

theorem parenthesized (hp : p ',' = false) (hclose : p ')' = false) {texts : List (List Char)}
    {tss : List (List Terminal)} (h : List.Forall₂ (Spells p) texts tss) :
    Spells never (Reenact.parenthesized texts)
      ([.symbol .openParen] ++ separated tss ++ [.symbol .closeParen]) :=
  (openParen.append_never (commaSeparated hp h)).append_cons closeParen hclose

theorem dots : Spells never ['.', '.', '.'] [.symbol .dots] := (symbol .dots).mono nofun

theorem params {params : List Param} (h : Param.areFormed params = true) :
    Spells never (Reenact.parenthesized (params.map Param.write)) (paramTerminals params) := by
  have hname : ∀ {n}, isName n = true →
      Spells isWordChar (Param.write (.name n)) (Param.terminals (.name n)) := name
  have hdots : Spells isWordChar (Param.write .vararg) (Param.terminals .vararg) := dots.ofNever
  refine parenthesized (p := isWordChar) (by decide) (by decide) ?_
  induction params using Param.areFormed.induct with
  | case1 => exact .nil
  | case2 => exact .cons hdots .nil
  | case3 n rest ih =>
    obtain ⟨hn, h⟩ := Bool.and_eq_true_iff.1 h
    exact .cons (hname hn) (ih h)
  | case4 => simp [Param.areFormed] at h

/-! ### Expressions -/

/-- The text is read as the terminals in front of a space. -/
theorem beforeSpace (h : Spells p a ts) (hp : p ' ' = false) : Spells (· != ' ') a ts := by
  refine h.mono fun c hc => bne_iff_ne.2 ?_
  rintro rfl
  rw [hp] at hc
  cases hc

theorem operator : ∀ op : BinaryOp,
    Spells (· != ' ') op.symbol.toList [(Operator.binary op).terminal]
  | .add => (symbol .add).beforeSpace rfl
  | .sub => (symbol .sub).beforeSpace rfl
  | .mul => (symbol .mul).beforeSpace rfl
  | .div => (symbol .div).beforeSpace rfl
  | .floorDiv => (symbol .floorDiv).beforeSpace rfl
  | .mod => (symbol .mod).beforeSpace rfl
  | .pow => (symbol .pow).beforeSpace rfl
  | .concat => (symbol .concat).beforeSpace rfl
  | .eq => (symbol .eq).beforeSpace rfl
  | .notEq => (symbol .notEq).beforeSpace rfl
  | .lt => (symbol .lt).beforeSpace rfl
  | .ltEq => (symbol .ltEq).beforeSpace rfl
  | .gt => (symbol .gt).beforeSpace rfl
  | .gtEq => (symbol .gtEq).beforeSpace rfl
  | .bitAnd => (symbol .bitAnd).beforeSpace rfl
  | .bitOr => (symbol .bitOr).beforeSpace rfl
  | .bitXor => (symbol .tilde).beforeSpace rfl
  | .shl => (symbol .shl).beforeSpace rfl
  | .shr => (symbol .shr).beforeSpace rfl

theorem logicalOperator : ∀ op : LogicalOp,
    Spells (· != ' ') op.symbol.toList [(Operator.logical op).terminal]
  | .and => (word .and).beforeSpace rfl
  | .or => (word .or).beforeSpace rfl

theorem unaryOperator : ∀ op : UnaryOp, Spells (· != ' ') op.symbol.toList [op.terminal]
  | .not => (word .not).beforeSpace rfl
  | .neg => (symbol .sub).beforeSpace rfl
  | .len => (symbol .len).beforeSpace rfl
  | .bitNot => (symbol .tilde).beforeSpace rfl

end Spells

/-- A character that would be read on with the last token of an expression.  If a member or key can
    stand behind the expression, it does not end with a number. -/
def Expr.joins (e : Expr) (c : Char) : Bool := if e.isHead then isWordChar c else joinsNumeral c

namespace Spells

variable {p q : Char → Bool} {a b : List Char} {ts us : List Terminal} {l : Layout} {e : Expr}

theorem ofWord (h : Spells isWordChar a ts) : Spells joinsNumeral a ts :=
  h.mono fun c hc => by rw [joinsNumeral, hc, Bool.true_or]

theorem outer (h : Spells e.joins a ts) : Spells joinsNumeral a ts := by
  unfold Expr.joins at h
  cases hhead : e.isHead with
  | true => exact ofWord (h.mono fun c hc => by simpa [hhead] using hc)
  | false => exact h.mono fun c hc => by simpa [hhead] using hc

theorem head (h : Spells e.joins a ts) : Spells isWordChar (e.headText a) (e.headTerminals ts) := by
  unfold Expr.headText Expr.headTerminals
  cases hhead : e.isHead with
  | true => exact h.mono fun c hc => by simpa [Expr.joins, hhead] using hc
  | false => exact ((openParen.append_never h.outer).append_cons closeParen (by decide)).ofNever

/-- A name behind a symbol. -/
theorem append_name {s : List Char} (ha : Spells (Lexer.joins s) a ts) {n : String}
    (hn : isName n = true) : Spells isWordChar (a ++ n.toList) (ts ++ [.name n]) := by
  refine ha.append (name hn) fun rest _ => ?_
  obtain ⟨c, more, hname, hc, hdigit, -⟩ := isWord_of_isName hn
  rw [hname]
  exact apart_cons.2 (joins_of_isWordChar hc hdigit s)

theorem member (ha : Spells isWordChar a ts) (access : Access) {n : String} (hn : isName n = true) :
    Spells isWordChar (a ++ access.symbol.toList ++ n.toList)
      (ts ++ [access.terminal] ++ [.name n]) := by
  cases access with
  | dot => exact (ha.append_cons (symbol .dot) (by decide)).append_name hn
  | colon => exact (ha.append_cons (symbol .colon) (by decide)).append_name hn

/-- An opening bracket and an expression that does not begin with another one. -/
theorem bracketed {key : Expr} (hkey : Spells joinsNumeral (key.write l) ts)
    (hbegins : Begins fun l => key.write l) (hbracket : (key.write {}).head? ≠ some '[') :
    Spells joinsNumeral ('[' :: key.write l) ([.symbol .openBracket] ++ ts) := by
  refine (symbol .openBracket).append hkey fun rest _ => ?_
  obtain ⟨c, hc, hhead⟩ := hbegins
  intro d hd
  rw [List.head?_append, hhead] at hd
  cases hd
  rw [hhead] at hbracket
  have hne : c ≠ '[' := fun he => hbracket (congrArg some he)
  rw [Symbol.text, joins_bracket, beq_false_of_ne hc, beq_false_of_ne hne]
  rfl

theorem table (hl : l.Standard) {fields : List (List Char)} {tss : List (List Terminal)}
    (h : List.Forall₂ (Spells joinsNumeral) fields tss) :
    Spells never (l.tableText fields)
      ([.symbol .openBrace] ++ separated tss ++ [.symbol .closeBrace]) := by
  have hopen : Spells never ['{'] [.symbol .openBrace] := delimiter rfl (by decide)
  have hclose : Spells never ['}'] [.symbol .closeBrace] := delimiter rfl (by decide)
  have hline : Spells never ['\n'] [] := white (by decide)
  unfold Layout.tableText
  rw [hl.lineBreak]
  cases h with
  | nil => exact hopen.append_never hclose
  | cons hfirst hrest =>
    have hfields := intercalate (comma.append_never hline) (by decide) (.cons hfirst hrest)
    have h := (((hopen.append_never hline).append_never hfields).append_cons hline
      (by decide)).append_never (indentation l) |>.append_never hclose
    simpa using h

end Spells

/-! ## Trees -/

variable {rule : Expr → Prop}

theorem Expr.spells_namePath (l : Layout) : ∀ e : Expr, e.isNamePath = true →
    Spells isWordChar (e.headText (e.write l)) (e.headTerminals e.terminals)
  | .name n, h => Spells.name h
  | .member base .dot n, h => by
    obtain ⟨hbase, hn⟩ := Bool.and_eq_true_iff.1 h
    exact (Expr.spells_namePath l base hbase).member .dot hn

theorem Expr.spells_functionName (l : Layout) {isLocal : Bool} {e : Expr}
    (h : e.isFunctionName isLocal = true) : Spells isWordChar (e.write l) e.terminals := by
  unfold Expr.isFunctionName at h
  split at h
  · exact Spells.name h
  · simp only [Bool.and_eq_true] at h
    exact (Expr.spells_namePath l _ h.1.2).member _ h.2
  · cases h

namespace Spells

variable {p : Char → Bool} {a b : List Char} {ts us : List Terminal} {l : Layout}

/-- A reserved word at the end of an expression. -/
theorem constant {e : Expr} (k : Keyword) (he : e.isHead = false) :
    Spells e.joins k.text.toList [.word k] := by
  refine (word k).mono fun c hc => ?_
  simp [Expr.joins, he, joinsNumeral, hc]

/-- A reserved word behind an expression. -/
theorem append_word (ha : Spells joinsNumeral a ts) (k : Keyword) :
    Spells isWordChar (a ++ ' ' :: k.text.toList) (ts ++ [.word k]) :=
  ha.append_cons ((word k).space (by decide)) (by decide)

theorem equals : Spells never [' ', '=', ' '] [.symbol .assign] :=
  ((symbol .assign).append_cons (white (by decide)) (by decide)).space (by decide)

theorem closeBracket : Spells never [']'] [.symbol .closeBracket] := delimiter rfl (by decide)

end Spells

mutual

/-- **The text of an expression is read as its terminals.** -/
theorem Expr.spells {l : Layout} (hl : l.Standard) : ∀ {called : Bool} (e : Expr),
    e.Formed rule called → Spells e.joins (e.write l) e.terminals
  | _, .name n, h => Spells.name h
  | _, .text v source, h => by
    obtain rfl : source = textLiteral v := h
    exact (Spells.literal v).ofNever
  | _, .number x source, h => by
    obtain ⟨-, hfinite, rfl⟩ := h
    exact Spells.numberLiteral hfinite
  | _, .boolean true, _ => Spells.constant .true rfl
  | _, .boolean false, _ => Spells.constant .false rfl
  | _, .nil, _ => Spells.constant .nil rfl
  | _, .vararg, _ => Spells.dots.ofNever
  | _, .binary op left right, h => by
    have hleft := (left.spells hl h.2.1).outer
    have hright := (right.spells hl h.2.2).outer.space (c := ' ') (by decide)
    have hop := (Spells.operator op).space (c := ' ') (by decide)
    have hboth := ((Spells.openParen.append_never hleft).append_cons hop (by decide)).append_cons
      hright (by decide)
    exact (hboth.append_cons Spells.closeParen (by decide)).ofNever
  | _, .logical op left right, h => by
    have hleft := (left.spells hl h.2.1).outer
    have hright := (right.spells hl h.2.2).outer
    have hop := (Spells.logicalOperator op).space (c := ' ') (by decide)
    exact (hleft.append_cons hop (by decide)).append_cons (hright.space (by decide)) (by decide)
  | _, .unary op argument, h => by
    have hargument := (argument.spells hl h.2).outer
    exact (Spells.unaryOperator op).append_cons (hargument.space (by decide)) (by decide)
  | _, .member base access n, h => (base.spells hl h.1).head.member access h.2.2
  | _, .index base key, h => by
    have hbase := (base.spells hl h.1).head
    have hkey := Spells.bracketed (key.spells hl h.2.1).outer (key.begins h.2.1) h.2.2
    exact ((hbase.append_cons hkey (by decide)).append_cons Spells.closeBracket
      (by decide)).ofNever
  | _, .call base arguments, h => by
    have hbase := (base.spells hl h.1).head
    have harguments := Spells.parenthesized (by decide) (by decide)
      (Expr.spellsEach hl arguments h.2)
    exact (hbase.append_cons harguments (by decide)).ofNever
  | _, .tableCall base fields, h => by
    have hbase := (base.spells hl h.1).head
    have hfields := Spells.openParen.append_never
      (Spells.table hl (Field.spellsEach hl.nested fields h.2))
    exact ((hbase.append_cons hfields (by decide)).append_never Spells.closeParen).ofNever
  | _, .textCall base v source, h => by
    obtain ⟨h, rfl⟩ := h
    have hbase := (base.spells hl h).head
    have htext := Spells.openParen.append_never (Spells.literal v)
    exact ((hbase.append_cons htext (by decide)).append_never Spells.closeParen).ofNever
  | _, .table fields, h => (Spells.table hl (Field.spellsEach hl.nested fields h)).ofNever
  | _, .function params body, h => by
    have hword : Spells isWordChar "(function".toList [.symbol .openParen, .word .function] :=
      Spells.openParen.append_never (.word .function)
    have hend : Spells never "end)".toList [.word .end_, .symbol .closeParen] :=
      (Spells.word .end_).append_cons Spells.closeParen (by decide)
    have hhead := hword.append_cons (Spells.params h.1) (by decide)
    exact ((hhead.ofNever.block hl (Stat.spellsAll hl.nested body h.2)).append_never hend).ofNever

/-- The texts of expressions are read as their terminals. -/
theorem Expr.spellsEach {l : Layout} (hl : l.Standard) : ∀ es : List Expr, Expr.FormedEach rule es →
    List.Forall₂ (Spells joinsNumeral) (Expr.writeEach l es) (Expr.terminalsEach es)
  | [], _ => .nil
  | e :: rest, h => .cons (e.spells hl h.1).outer (Expr.spellsEach hl rest h.2)

/-- The text of a field is read as its terminals. -/
theorem Field.spells {l : Layout} (hl : l.Standard) : ∀ f : Field, f.Formed rule →
    Spells joinsNumeral (f.write l) f.terminals
  | .keyed key value, h => by
    have hkey := Spells.bracketed (key.spells hl h.1).outer (key.begins h.1) h.2.2
    have hclose : Spells never [']', ' ', '=', ' '] [.symbol .closeBracket, .symbol .assign] :=
      Spells.closeBracket.append_never Spells.equals
    have hhead := ((Spells.indentation l).append_never hkey).append_cons hclose (by decide)
    exact hhead.append_never (value.spells hl h.2.1).outer
  | .named n value, h => by
    have hhead := ((Spells.indentation l).append_never (Spells.name h.1)).append_cons Spells.equals
      (by decide)
    exact hhead.append_never (value.spells hl h.2).outer
  | .positional value, h => (Spells.indentation l).append_never (value.spells hl h).outer

/-- The texts of fields are read as their terminals. -/
theorem Field.spellsEach {l : Layout} (hl : l.Standard) : ∀ fs : List Field,
    Field.FormedEach rule fs →
    List.Forall₂ (Spells joinsNumeral) (Field.writeEach l fs) (Field.terminalsEach fs)
  | [], _ => .nil
  | f :: rest, h => .cons (f.spells hl h.1) (Field.spellsEach hl rest h.2)

/-- The text of a statement is read as its terminals and a semicolon. -/
theorem Stat.spells {l : Layout} (hl : l.Standard) : ∀ s : Stat, s.Formed rule →
    Spells never (s.write l) (s.terminals ++ [.symbol .semicolon])
  | .localNames names values, h => by
    have hhead := ((Spells.indentation l).append_never (Spells.wordSpace .local_)).append_never
      (Spells.names h.2.1)
    cases values with
    | nil => exact hhead.append_nil.append_separator hl (by decide)
    | cons value values =>
      have hvalues := Spells.commaSeparated (by decide) (Expr.spellsEach hl _ h.2.2)
      have hall := hhead.append_cons (Spells.equals.append_never hvalues) (by decide)
      exact hall.append_separator hl (by decide)
  | .function name isLocal params body, h => by
    obtain ⟨hname, hparams, hbody⟩ := h
    have hword : Spells isWordChar
        (l.indentation ++ (if isLocal then "local ".toList else []) ++ "function".toList)
        ((if isLocal then [.word .local_] else []) ++ [.word .function]) := by
      cases isLocal with
      | true =>
        exact ((Spells.indentation l).append_never (Spells.wordSpace .local_)).append_never
          (.word .function)
      | false => exact (Spells.indentation l).append_nil.append_never (.word .function)
    cases name with
    | none => cases hname
    | some name =>
      have hhead := hword.append_cons ((Expr.spells_functionName l hname).space (c := ' ')
        (by decide)) (by decide)
      have hall := (hhead.append_cons (Spells.params hparams) (by decide)).ofNever.block hl
        (Stat.spellsAll hl.nested body hbody)
      exact hall.append_end hl
  | .call expr, h =>
    ((Spells.indentation l).append_never (expr.spells hl h.2).outer).append_separator hl (by decide)
  | .assign targets values, h => by
    have htargets := Spells.commaSeparated (by decide) (Expr.spellsEach hl targets h.2.2.2.1)
    have hvalues := Spells.commaSeparated (by decide) (Expr.spellsEach hl values h.2.2.2.2)
    have hhead := ((Spells.indentation l).append_never htargets).append_cons Spells.equals
      (by decide)
    exact (hhead.append_never hvalues).append_separator hl (by decide)
  | .branch clauses, h => by
    have hclauses := (Spells.indentation l).append_never (Clause.spellsAll hl clauses h.2)
    cases clauses with
    | nil => exact absurd h.1 (by decide)
    | cons clause clauses => exact hclauses.append_end hl
  | .ret values, h => by
    have hword := (Spells.indentation l).append_never (Spells.word .return_)
    cases values with
    | nil => exact hword.append_nil.append_separator hl (by decide)
    | cons value values =>
      have hvalues := (Spells.commaSeparated (by decide) (Expr.spellsEach hl _ h)).space (c := ' ')
        (by decide)
      exact (hword.append_cons hvalues (by decide)).append_separator hl (by decide)
  | .whileLoop condition body, h => by
    have hcondition := ((Spells.indentation l).append_never (Spells.wordSpace .while_)).append_never
      (condition.spells hl h.1).outer
    exact ((hcondition.append_word .do_).block hl (Stat.spellsAll hl.nested body h.2)).append_end hl
  | .breakLoop, _ =>
    ((Spells.indentation l).append_never (Spells.word .break_)).append_separator hl (by decide)
  | .block body, h =>
    (((Spells.indentation l).append_never (Spells.word .do_)).block hl
      (Stat.spellsAll hl.nested body h)).append_end hl
  | .repeatLoop body condition, h => by
    have hbody := ((Spells.indentation l).append_never (Spells.word .repeat_)).block hl
      (Stat.spellsAll hl.nested body h.1)
    have huntil := hbody.append_never (Spells.wordSpace .until_)
    exact (huntil.append_never (condition.spells hl h.2).outer).append_separator hl (by decide)
  | .forRange n first last step body, h => by
    obtain ⟨hn, hfirst, hlast, hstep, hbody⟩ := h
    have hname := ((Spells.indentation l).append_never (Spells.wordSpace .for_)).append_never
      (Spells.name hn)
    have hfirst := (hname.append_cons Spells.equals (by decide)).append_never
      (first.spells hl hfirst).outer
    have hbounds := (hfirst.append_cons Spells.commaSpace (by decide)).append_never
      (last.spells hl hlast).outer
    have hsteps := Expr.spellsOptional hl hbounds step hstep
    exact ((hsteps.append_word .do_).block hl (Stat.spellsAll hl.nested body hbody)).append_end hl
  | .forEach names iterators body, h => by
    obtain ⟨-, -, hnames, hiterators, hbody⟩ := h
    have hhead := ((Spells.indentation l).append_never (Spells.wordSpace .for_)).append_never
      (Spells.names hnames)
    have hin := (Spells.wordSpace .in_).space (c := ' ') (by decide)
    have hall := (hhead.append_cons hin (by decide)).append_never
      (Spells.commaSeparated (by decide) (Expr.spellsEach hl iterators hiterators))
    exact ((hall.append_word .do_).block hl (Stat.spellsAll hl.nested body hbody)).append_end hl
  | .goto label, h =>
    (((Spells.indentation l).append_never (Spells.wordSpace .goto)).append_never
      (Spells.name h)).append_separator hl (by decide)
  | .label n, h => by
    have hname := ((Spells.indentation l).append_never (.symbol .doubleColon)).append_name h
    exact (hname.append_cons (.symbol .doubleColon) (by decide)).append_separator hl (by decide)

/-- **The text of statements is read as their terminals.** -/
theorem Stat.spellsAll {l : Layout} (hl : l.Standard) : ∀ body : List Stat,
    Stat.FormedAll rule body → Spells never (Stat.writeAll l body) (Stat.terminalsAll body)
  | [], _ => .nil _
  | s :: rest, h => (s.spells hl h.1).append_never (Stat.spellsAll hl rest h.2.2)

/-- The text of a clause is read as its terminals. -/
theorem Clause.spells {l : Layout} (hl : l.Standard) : ∀ c : Clause, c.Formed rule →
    Spells never (c.write l) c.terminals
  | .ifThen condition body, h => by
    have hcondition := (Spells.wordSpace .if_).append_never (condition.spells hl h.1).outer
    exact (hcondition.append_word .then_).block hl (Stat.spellsAll hl.nested body h.2)
  | .elseIf condition body, h => by
    have hcondition := (Spells.wordSpace .elseif).append_never (condition.spells hl h.1).outer
    exact (hcondition.append_word .then_).block hl (Stat.spellsAll hl.nested body h.2)
  | .otherwise body, h => (Spells.word .else_).block hl (Stat.spellsAll hl.nested body h)

/-- The text of clauses is read as their terminals. -/
theorem Clause.spellsAll {l : Layout} (hl : l.Standard) : ∀ cs : List Clause,
    Clause.FormedAll rule cs → Spells never (Clause.writeAll l cs) (Clause.terminalsAll cs)
  | [], _ => .nil _
  | c :: rest, h => (c.spells hl h.1).append_never (Clause.spellsAll hl rest h.2)

/-- The text of an expression, and of one behind it if there is one, is read as the terminals. -/
theorem Expr.spellsOptional {l : Layout} (hl : l.Standard) {a : List Char} {ts : List Terminal}
    (ha : Spells joinsNumeral a ts) : ∀ e : Option Expr, Expr.FormedOptional rule e →
    Spells joinsNumeral (a ++ Expr.writeOptional [',', ' '] l e)
      (ts ++ Expr.terminalsOptional [.symbol .comma] e)
  | none, _ => ha.append_nil
  | some e, h =>
    ha.append_cons (Spells.commaSpace.append_never (e.spells hl h).outer) (by decide)

end

/-! ## Texts -/

theorem Layout.standard : Layout.Standard {} := ⟨rfl, rfl⟩

theorem Spells.terminals?_eq {p : Char → Bool} {text : List Char} {ts : List Terminal}
    (h : Spells p text ts) : terminals? text = some ts := by
  have hread := h [] [] (apart_nil p) terminals?_nil
  rwa [List.append_nil, List.append_nil] at hread

theorem Expr.terminals?_render {l : Layout} (hl : l.Standard) {called : Bool} {e : Expr}
    (h : e.Formed rule called) : terminals? (e.render l).toList = some e.terminals := by
  rw [Expr.render, String.toList_ofList]
  exact (e.spells hl h).terminals?_eq

theorem Stat.terminals?_render {l : Layout} (hl : l.Standard) {body : List Stat}
    (h : Stat.FormedAll rule body) :
    terminals? (Stat.render l body).toList = some (Stat.terminalsAll body) := by
  rw [Stat.render, String.toList_ofList]
  exact (Stat.spellsAll hl body h).terminals?_eq

end Reenact
