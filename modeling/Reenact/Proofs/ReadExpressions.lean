/-
  Reading expressions.

  `asRead` is a tree as the reader gives it back: a literal says what its text does, a minus sign in
  front of a number is an operator, and a call with a table or a string is a call as any other.
  `Expr.Read` says that the terminals of an expression are read as the expression.  Each form of
  expressions has its lemma, which asks the same of the parts.

  * `Expr.expr?_operator`: an operator takes all of both operands;
  * `Expr.exprs?_eq`, `Expr.arguments?_eq`, `Field.fields?_eq`: lists are read to their ends.
-/
import Reenact.Proofs.FirstTerminals

namespace Reenact

open Reader

/-! ## Trees as they are read -/

/-- A number as it is read.  A minus sign is an operator. -/
def numberRead (reader : Reader) (source : String) : Expr :=
  match source.toList with
  | '-' :: digits =>
    .unary .neg (.number (reader.valueOf (String.ofList digits)) (String.ofList digits))
  | _ => .number (reader.valueOf source) source

mutual

/-- An expression as it is read: with literals that say what their text does, and with the calls
    that have a table or a string for an argument among all the others. -/
def Expr.asRead (reader : Reader) : Expr → Expr
  | .name n => .name n
  | .text v _ => .ofText (textRead v)
  | .number _ source => numberRead reader source
  | .boolean b => .boolean b
  | .nil => .nil
  | .vararg => .vararg
  | .binary op left right => .binary op (left.asRead reader) (right.asRead reader)
  | .logical op left right => .logical op (left.asRead reader) (right.asRead reader)
  | .unary op argument => .unary op (argument.asRead reader)
  | .member base access name => .member (base.asRead reader) access name
  | .index base key => .index (base.asRead reader) (key.asRead reader)
  | .call base arguments => .call (base.asRead reader) (Expr.asReadEach reader arguments)
  | .tableCall base fields =>
    .call (base.asRead reader) [.table (Field.asReadEach reader fields)]
  | .textCall base v _ => .call (base.asRead reader) [.ofText (textRead v)]
  | .table fields => .table (Field.asReadEach reader fields)
  | .function params body => .function params (Stat.asReadAll reader body)
  | .raw source => .raw source

/-- Expressions as they are read. -/
def Expr.asReadEach (reader : Reader) : List Expr → List Expr
  | [] => []
  | e :: rest => e.asRead reader :: Expr.asReadEach reader rest

/-- A field as it is read. -/
def Field.asRead (reader : Reader) : Field → Field
  | .keyed key value => .keyed (key.asRead reader) (value.asRead reader)
  | .named name value => .named name (value.asRead reader)
  | .positional value => .positional (value.asRead reader)

/-- Fields as they are read. -/
def Field.asReadEach (reader : Reader) : List Field → List Field
  | [] => []
  | f :: rest => f.asRead reader :: Field.asReadEach reader rest

/-- A statement as it is read. -/
def Stat.asRead (reader : Reader) : Stat → Stat
  | .localNames names values => .localNames names (Expr.asReadEach reader values)
  | .function name isLocal params body =>
    .function name isLocal params (Stat.asReadAll reader body)
  | .call expr => .call (expr.asRead reader)
  | .assign targets values =>
    .assign (Expr.asReadEach reader targets) (Expr.asReadEach reader values)
  | .branch clauses => .branch (Clause.asReadAll reader clauses)
  | .ret values => .ret (Expr.asReadEach reader values)
  | .whileLoop condition body =>
    .whileLoop (condition.asRead reader) (Stat.asReadAll reader body)
  | .breakLoop => .breakLoop
  | .block body => .block (Stat.asReadAll reader body)
  | .repeatLoop body condition =>
    .repeatLoop (Stat.asReadAll reader body) (condition.asRead reader)
  | .forRange name first last step body =>
    .forRange name (first.asRead reader) (last.asRead reader)
      (Expr.asReadOptional reader step) (Stat.asReadAll reader body)
  | .forEach names iterators body =>
    .forEach names (Expr.asReadEach reader iterators) (Stat.asReadAll reader body)
  | .goto label => .goto label
  | .label name => .label name

/-- Statements as they are read. -/
def Stat.asReadAll (reader : Reader) : List Stat → List Stat
  | [] => []
  | s :: rest => s.asRead reader :: Stat.asReadAll reader rest

/-- A clause as it is read. -/
def Clause.asRead (reader : Reader) : Clause → Clause
  | .ifThen condition body =>
    .ifThen (condition.asRead reader) (Stat.asReadAll reader body)
  | .elseIf condition body =>
    .elseIf (condition.asRead reader) (Stat.asReadAll reader body)
  | .otherwise body => .otherwise (Stat.asReadAll reader body)

/-- Clauses as they are read. -/
def Clause.asReadAll (reader : Reader) : List Clause → List Clause
  | [] => []
  | c :: rest => c.asRead reader :: Clause.asReadAll reader rest

/-- An expression, if there is one, as it is read. -/
def Expr.asReadOptional (reader : Reader) : Option Expr → Option Expr
  | none => none
  | some e => some (e.asRead reader)

end

/-! ## Lists with commas between -/

theorem separated_singleton (ts : List Terminal) : separated [ts] = ts := List.intercalate_singleton

theorem separated_cons_cons (ts us : List Terminal) (tss : List (List Terminal)) :
    separated (ts :: us :: tss) = ts ++ .symbol .comma :: separated (us :: tss) := by
  simp only [separated, List.intercalate_cons_cons, List.append_assoc, List.singleton_append]

theorem First.separated {p : Terminal → Bool} {ts : List Terminal} (h : First p ts)
    (tss : List (List Terminal)) : First p (separated (ts :: tss)) := by
  cases tss with
  | nil => rwa [separated_singleton]
  | cons us tss =>
    rw [separated_cons_cons]
    exact h.append _

/-! ## Steps of the reader -/

namespace Reader

variable {reader : Reader}

@[simp] theorem skip?_cons (t : Terminal) (ts : List Terminal) : skip? t (t :: ts) = some ts :=
  if_pos rfl

/-- Behind an expression with the given grip, the terminals do not go on with it. -/
def Stops (grip : Nat) (rest : List Terminal) : Prop :=
  ∀ t ∈ rest.head?, t.beginsSuffix = false ∧ ∀ op ∈ t.operator?, op.left ≤ grip

/-- Behind any expression, the terminals do not go on with it. -/
def Closes (rest : List Terminal) : Prop :=
  Behind Terminal.beginsSuffix rest ∧ Behind (·.operator?.isSome) rest

theorem Closes.stops {rest : List Terminal} (h : Closes rest) (grip : Nat) : Stops grip rest := by
  intro t ht
  refine ⟨h.1 t ht, fun op hop => ?_⟩
  have hnone : t.operator?.isSome = false := h.2 t ht
  rw [Option.mem_def.1 hop] at hnone
  cases hnone

theorem Closes.of_cons {t : Terminal} (hsuffix : t.beginsSuffix = false)
    (hoperator : t.operator? = none) (rest : List Terminal) : Closes (t :: rest) := by
  constructor
  · rintro _ ⟨⟩
    exact hsuffix
  · rintro _ ⟨⟩
    simp [hoperator]

theorem Stops.mono {grip limit : Nat} {rest : List Terminal} (h : Stops grip rest)
    (hle : grip ≤ limit) : Stops limit rest :=
  fun t ht => ⟨(h t ht).1, fun op hop => Nat.le_trans ((h t ht).2 op hop) hle⟩

theorem operators?_of_stops {limit : Nat} {e : Expr} {rest : List Terminal}
    (h : Stops limit rest) : operators? reader limit e rest = some (e, rest) := by
  cases rest with
  | nil => rw [operators?]
  | cons t rest =>
    rw [operators?.eq_def]
    dsimp only
    cases hop : t.operator? with
    | none => rfl
    | some op => exact if_neg (Nat.not_lt.2 ((h t rfl).2 op hop))

theorem operators?_operator {limit : Nat} {op : Operator} (h : limit < op.left) (e : Expr)
    (ts : List Terminal) : operators? reader limit e (op.terminal :: ts) =
      (expr? reader op.right ts).bind fun (operand, ts) =>
        operators? reader limit (op.apply e operand) ts := by
  rw [operators?.eq_def]
  simp only [op.operator?_terminal, if_pos h]
  rfl

theorem suffixes?_of_behind {e : Expr} {rest : List Terminal}
    (h : Behind Terminal.beginsSuffix rest) : suffixes? reader e rest = some (e, rest) := by
  rw [suffixes?.eq_def]
  split
  all_goals first | rfl | cases h _ rfl

theorem operand?_of_beginsHead {ts : List Terminal} (h : First Terminal.beginsHead ts) :
    operand? reader ts = suffixed? reader ts := by
  obtain ⟨t, ts, rfl, ht⟩ := h
  unfold Terminal.beginsHead at ht
  split at ht
  · rw [operand?]
  · rw [operand?]
  · cases ht

theorem operand?_unary (op : UnaryOp) (ts : List Terminal) :
    operand? reader (op.terminal :: ts) =
      (expr? reader Operator.unary ts).bind fun (e, ts) => some (.unary op e, ts) := by
  rw [operand?.eq_def]
  cases op <;> rfl

theorem suffixes?_member (base : Expr) (n : String) (ts : List Terminal) :
    suffixes? reader base (.symbol .dot :: .name n :: ts) =
      suffixes? reader (.member base .dot n) ts := by
  rw [suffixes?]

/-- A method is read with the arguments behind it, as any other base. -/
theorem suffixes?_method (base : Expr) (n : String) (ts : List Terminal) :
    suffixes? reader base (.symbol .colon :: .name n :: .symbol .openParen :: ts) =
      suffixes? reader (.member base .colon n) (.symbol .openParen :: ts) := by
  rw [suffixes?, suffixes?]

theorem suffixes?_arguments {base e : Expr} {ts rest : List Terminal}
    (h : arguments? reader base (.symbol .openParen :: ts) = some (e, rest)) :
    suffixes? reader base (.symbol .openParen :: ts) = suffixes? reader e rest := by
  rw [suffixes?, h]
  rfl

end Reader

/-! ## Expressions -/

/-- The terminals of an expression are read as the expression: with what stands behind a base, and
    with the operators that stand behind an operand. -/
structure Expr.Read (reader : Reader) (called : Bool) (e : Expr) : Prop where
  headed : ∀ rest, (called = true → rest.head? = some (.symbol .openParen)) →
    suffixed? reader (e.headTerminals e.terminals ++ rest) =
      suffixes? reader (e.asRead reader) rest
  expr : called = false → ∀ limit rest, e.fits limit = true → Stops e.grip rest →
    expr? reader limit (e.terminals ++ rest) = operators? reader limit (e.asRead reader) rest

namespace Expr

variable {reader : Reader} {called : Bool} {e : Expr}

theorem fits_zero (e : Expr) : e.fits 0 = true := by
  cases e <;> first | rfl | skip
  rename_i op _ _
  cases op <;> rfl

namespace Read

/-- An expression is read to its end. -/
theorem expr?_eq (h : e.Read reader false) {limit : Nat} {rest : List Terminal}
    (hfits : e.fits limit = true) (hgrip : Stops e.grip rest) (hlimit : Stops limit rest) :
    expr? reader limit (e.terminals ++ rest) = some (e.asRead reader, rest) := by
  rw [h.expr rfl limit rest hfits hgrip, operators?_of_stops hlimit]

theorem expr?_closes (h : e.Read reader false) {rest : List Terminal} (hrest : Closes rest) :
    expr? reader 0 (e.terminals ++ rest) = some (e.asRead reader, rest) :=
  h.expr?_eq e.fits_zero (hrest.stops _) (hrest.stops _)

/-- What stands in front of members, keys and arguments without parentheses. -/
theorem ofHead (hhead : e.isHead = true) (hfirst : First Terminal.beginsHead e.terminals)
    (h : ∀ rest, (called = true → rest.head? = some (.symbol .openParen)) →
      suffixed? reader (e.terminals ++ rest) = suffixes? reader (e.asRead reader) rest) :
    e.Read reader called where
  headed := by rwa [headTerminals_of_isHead hhead]
  expr hcalled limit rest _ hrest := by
    have hoperand : operand? reader (e.terminals ++ rest) = some (e.asRead reader, rest) := by
      rw [operand?_of_beginsHead (hfirst.append rest), h rest (by simp [hcalled]),
        suffixes?_of_behind fun t ht => (hrest t ht).1]
    rw [expr?, hoperand]
    rfl

/-- What is in parentheses in front of members, keys and arguments. -/
theorem ofExpr (hhead : e.isHead = false)
    (h : ∀ limit rest, e.fits limit = true → Stops e.grip rest →
      expr? reader limit (e.terminals ++ rest) =
        operators? reader limit (e.asRead reader) rest) : e.Read reader called where
  headed rest _ := by
    have hclose : Closes (.symbol .closeParen :: rest) := .of_cons rfl rfl rest
    have hread : expr? reader 0 (e.terminals ++ .symbol .closeParen :: rest) =
        some (e.asRead reader, .symbol .closeParen :: rest) := by
      rw [h 0 _ e.fits_zero (hclose.stops _), operators?_of_stops (hclose.stops _)]
    rw [headTerminals_of_not_isHead hhead, List.append_assoc, List.append_assoc]
    change suffixed? reader
      (.symbol .openParen :: (e.terminals ++ .symbol .closeParen :: rest)) = _
    rw [suffixed?, hread]
    simp only [Option.bind_eq_bind, Option.bind_some, skip?_cons]
  expr _ := h

theorem ofOperand (hhead : e.isHead = false) (h : ∀ rest, Stops e.grip rest →
    operand? reader (e.terminals ++ rest) = some (e.asRead reader, rest)) :
    e.Read reader called := by
  refine ofExpr hhead fun limit rest _ hrest => ?_
  rw [expr?, h rest hrest]
  rfl

end Read

theorem unary_le_grip (h : e.isLogical = false) : Operator.unary ≤ e.grip := by
  unfold grip
  split
  · cases h
  · exact Nat.le_refl _
  · split <;> decide
  · decide

theorem lt_grip_of_fits {limit : Nat} (h : e.fits limit = true) (hlogical : e.isLogical = true) :
    limit < e.grip := by
  simpa [fits, hlogical] using h

theorem stops_of_fits {limit : Nat} {rest : List Terminal} (hrest : Stops limit rest)
    (hfits : e.fits limit = true) (hlimit : limit ≤ Operator.unary) : Stops e.grip rest := by
  refine hrest.mono ?_
  cases hlogical : e.isLogical with
  | true => exact Nat.le_of_lt (lt_grip_of_fits hfits hlogical)
  | false => exact Nat.le_trans hlimit (unary_le_grip hlogical)

theorem beginsSuffix_terminal (op : Operator) : op.terminal.beginsSuffix = false := by
  rcases op with op | op <;> cases op <;> rfl

/-- **An operator takes all of both operands**, if they are grouped and the operator is taken
    itself. -/
theorem expr?_operator {op : Operator} {left right : Expr} (hleft : left.Read reader false)
    (hright : right.Read reader false) (hgroups : groups op left right = true) {limit : Nat}
    (hlimit : limit < op.left) {rest : List Terminal} (hgrip : Stops right.grip rest)
    (hop : Stops op.right rest) :
    expr? reader limit (left.terminals ++ [op.terminal] ++ right.terminals ++ rest) =
      operators? reader limit (op.apply (left.asRead reader) (right.asRead reader)) rest := by
  obtain ⟨hheld, hfits⟩ := Bool.and_eq_true_iff.1 hgroups
  have hheld : op.left ≤ left.grip := of_decide_eq_true hheld
  have hleftFits : left.fits limit = true := by
    rw [fits, Bool.or_eq_true]
    exact Or.inr (decide_eq_true (Nat.lt_of_lt_of_le hlimit hheld))
  have hstops : Stops left.grip (op.terminal :: (right.terminals ++ rest)) := by
    rintro _ ⟨⟩
    refine ⟨beginsSuffix_terminal op, fun op' hop' => ?_⟩
    rw [op.operator?_terminal] at hop'
    cases hop'
    exact hheld
  rw [List.append_assoc, List.append_assoc]
  change expr? reader limit (left.terminals ++ op.terminal :: (right.terminals ++ rest)) = _
  rw [hleft.expr rfl limit _ hleftFits hstops, operators?_operator hlimit,
    hright.expr?_eq hfits hgrip hop]
  rfl

/-! ### Lists of expressions -/

theorem separated_terminalsEach (e e' : Expr) (es : List Expr) :
    separated (terminalsEach (e :: e' :: es)) =
      e.terminals ++ .symbol .comma :: separated (terminalsEach (e' :: es)) :=
  separated_cons_cons _ _ _

/-- What a reader does that reads one expression, and goes on if there is a comma behind it. -/
theorem separated_eq {one : List Terminal → Option (Expr × List Terminal)}
    {all : List Terminal → Option (List Expr × List Terminal)}
    (hall : ∀ ts, all ts = (one ts).bind fun (e, ts) =>
      match ts with
      | .symbol .comma :: ts => (all ts).bind fun (es, ts) => some (e :: es, ts)
      | ts => some ([e], ts))
    {rest : List Terminal} (hrest : Closes rest) (hcomma : Behind (· == .symbol .comma) rest)
    {es : List Expr} (hne : es ≠ [])
    (hone : ∀ e ∈ es, ∀ rest, Closes rest →
      one (e.terminals ++ rest) = some (e.asRead reader, rest)) :
    all (separated (terminalsEach es) ++ rest) = some (asReadEach reader es, rest) := by
  induction es with
  | nil => exact absurd rfl hne
  | cons e es ih =>
    cases es with
    | nil =>
      rw [terminalsEach, terminalsEach, separated_singleton, hall,
        hone e List.mem_cons_self rest hrest, Option.bind_some]
      dsimp only
      split
      · exact absurd (hcomma _ rfl) (by decide)
      · rfl
    | cons e' es =>
      have hmore := ih (List.cons_ne_nil e' es) fun e he => hone e (List.mem_cons_of_mem _ he)
      rw [separated_terminalsEach, List.append_assoc, List.cons_append, hall,
        hone e List.mem_cons_self _ (.of_cons rfl rfl _), Option.bind_some]
      dsimp only
      rw [hmore]
      rfl

theorem exprs?_eq {es : List Expr} (hne : es ≠ []) (h : ∀ e ∈ es, e.Read reader false)
    {rest : List Terminal} (hrest : Closes rest) (hcomma : Behind (· == .symbol .comma) rest) :
    exprs? reader (separated (terminalsEach es) ++ rest) = some (asReadEach reader es, rest) :=
  separated_eq (exprs?.eq_def reader) hrest hcomma hne fun e he _ => (h e he).expr?_closes

/-- What can be assigned to or called is read with commas between. -/
theorem targets?_eq {es : List Expr} (hne : es ≠ []) (hhead : ∀ e ∈ es, e.isHead = true)
    (h : ∀ e ∈ es, e.Read reader false) {rest : List Terminal} (hrest : Closes rest)
    (hcomma : Behind (· == .symbol .comma) rest) :
    targets? reader (separated (terminalsEach es) ++ rest) =
      some (asReadEach reader es, rest) := by
  refine separated_eq (targets?.eq_def reader) hrest hcomma hne fun e he rest hrest => ?_
  have hread := (h e he).headed rest nofun
  rwa [headTerminals_of_isHead (hhead e he), suffixes?_of_behind hrest.1] at hread

theorem arguments?_eq {es : List Expr}
    (hfirst : ∀ e ∈ es, First Terminal.beginsExpr e.terminals)
    (h : ∀ e ∈ es, e.Read reader false) (base : Expr) (rest : List Terminal) :
    arguments? reader base
        (.symbol .openParen :: (separated (terminalsEach es) ++ .symbol .closeParen :: rest)) =
      some (.call base (asReadEach reader es), rest) := by
  cases es with
  | nil => rw [terminalsEach, separated, List.intercalate_nil, List.nil_append, arguments?]; rfl
  | cons e es =>
    have hne : e :: es ≠ [] := List.cons_ne_nil _ _
    have hread : exprs? reader
        (separated (terminalsEach (e :: es)) ++ .symbol .closeParen :: rest) =
        some (asReadEach reader (e :: es), .symbol .closeParen :: rest) :=
      exprs?_eq hne h (.of_cons rfl rfl rest) (.of_cons rfl rest)
    rw [arguments?, hread]
    · simp only [Option.bind_eq_bind, Option.bind_some, skip?_cons]
      rfl
    · exact (((hfirst e List.mem_cons_self).separated _).ne rfl).append_ne _

end Expr

/-! ## Tables -/

/-- The terminals of a field are read as the field. -/
structure Field.Read (reader : Reader) (f : Field) : Prop where
  first : First (· != .symbol .closeBrace) f.terminals
  field? : ∀ rest, Closes rest → Behind (· == .symbol .assign) rest →
    Reader.field? reader (f.terminals ++ rest) = some (f.asRead reader, rest)

namespace Field

variable {reader : Reader}

theorem Read.keyed {key value : Expr} (hkey : key.Read reader false)
    (hvalue : value.Read reader false) : (Field.keyed key value).Read reader where
  first := ⟨.symbol .openBracket, _, rfl, rfl⟩
  field? rest hrest _ := by
    have hread : expr? reader 0 (key.terminals ++ .symbol .closeBracket :: .symbol .assign ::
        (value.terminals ++ rest)) = some (key.asRead reader, _) :=
      hkey.expr?_closes (.of_cons rfl rfl _)
    have hterminals : (Field.keyed key value).terminals ++ rest = .symbol .openBracket ::
        (key.terminals ++ .symbol .closeBracket :: .symbol .assign ::
          (value.terminals ++ rest)) := by
      change _ ++ _ ++ _ = _
      simp
    rw [hterminals, Reader.field?, hread]
    simp only [Option.bind_eq_bind, Option.bind_some, skip?_cons, hvalue.expr?_closes hrest]
    rfl

theorem Read.named {value : Expr} (n : String) (hvalue : value.Read reader false) :
    (Field.named n value).Read reader where
  first := ⟨.name n, _, rfl, rfl⟩
  field? rest hrest _ := by
    change Reader.field? reader (.name n :: .symbol .assign :: (value.terminals ++ rest)) = _
    rw [Reader.field?, hvalue.expr?_closes hrest]
    rfl

theorem Read.positional {value : Expr} (hfirst : First Terminal.beginsExpr value.terminals)
    (hname : Unassigned value.terminals) (hvalue : value.Read reader false) :
    (Field.positional value).Read reader where
  first := hfirst.ne rfl
  field? rest hrest hassign := by
    change Reader.field? reader (value.terminals ++ rest) = _
    rw [Reader.field?, hvalue.expr?_closes hrest]
    · rfl
    · exact (hfirst.ne rfl).append_ne rest
    · exact hname rest hassign

theorem separated_terminalsEach (f f' : Field) (fs : List Field) :
    separated (terminalsEach (f :: f' :: fs)) =
      f.terminals ++ .symbol .comma :: separated (terminalsEach (f' :: fs)) :=
  separated_cons_cons _ _ _

/-- **The fields of a table are read up to its brace.** -/
theorem fields?_eq (rest : List Terminal) : ∀ {fs : List Field}, (∀ f ∈ fs, f.Read reader) →
    fields? reader (separated (terminalsEach fs) ++ .symbol .closeBrace :: rest) =
      some (asReadEach reader fs, rest)
  | [], _ => by
    rw [terminalsEach, separated, List.intercalate_nil, List.nil_append, fields?]
    rfl
  | [f], h => by
    obtain ⟨hfirst, hread⟩ := h f List.mem_cons_self
    rw [terminalsEach, terminalsEach, separated_singleton, fields?,
      hread _ (.of_cons rfl rfl _) (.of_cons rfl _)]
    · simp only [Option.bind_eq_bind, Option.bind_some, skip?_cons]
      rfl
    · exact hfirst.append_ne _
  | f :: f' :: fs, h => by
    obtain ⟨hfirst, hread⟩ := h f List.mem_cons_self
    have hmore := fields?_eq rest fun f hf => h f (List.mem_cons_of_mem _ hf)
    rw [separated_terminalsEach, List.append_assoc, List.cons_append, fields?,
      hread _ (.of_cons rfl rfl _) (.of_cons rfl _)]
    · simp only [Option.bind_eq_bind, Option.bind_some, hmore]
      rfl
    · exact hfirst.append_ne _

end Field

/-! ## Forms -/

namespace Expr.Read

variable {reader : Reader} {called : Bool}

theorem name (n : String) : (Expr.name n).Read reader called :=
  .ofHead rfl ⟨.name n, [], rfl, rfl⟩ fun rest _ => by
    change suffixed? reader (.name n :: rest) = _
    rw [suffixed?]
    rfl

theorem text (v source : String) : (Expr.text v source).Read reader called :=
  .ofOperand rfl fun rest _ => by
    change operand? reader (.text (textRead v) :: rest) = _
    rw [operand?]
    rfl

theorem number (x : Binary64) (source : String) : (Expr.number x source).Read reader called := by
  refine .ofOperand rfl fun rest hrest => ?_
  change operand? reader (numberTerminals source ++ rest) = some (numberRead reader source, rest)
  by_cases hsign : ∃ digits, source.toList = '-' :: digits
  · obtain ⟨digits, hsource⟩ := hsign
    have hgrip : (Expr.number x source).grip = Operator.unary := by
      rw [grip, hsource]
      rfl
    rw [hgrip] at hrest
    rw [numberTerminals, numberRead, hsource]
    change operand? reader (UnaryOp.neg.terminal :: .number (String.ofList digits) :: rest) = _
    rw [operand?_unary, expr?, operand?]
    simp only [Option.bind_eq_bind, Option.bind_some, operators?_of_stops hrest]
  · have hterminals : numberTerminals source = [.number source] := by
      unfold numberTerminals
      split
      · exact absurd ⟨_, ‹_›⟩ hsign
      · rfl
    have hnumber : numberRead reader source = .number (reader.valueOf source) source := by
      unfold numberRead
      split
      · exact absurd ⟨_, ‹_›⟩ hsign
      · rfl
    rw [hterminals, hnumber, List.singleton_append, operand?]

theorem constant {e : Expr} {t : Terminal} (hhead : e.isHead = false)
    (hterminals : e.terminals = [t])
    (h : ∀ rest, operand? reader (t :: rest) = some (e.asRead reader, rest)) :
    e.Read reader called :=
  .ofOperand hhead fun rest _ => by
    rw [hterminals]
    exact h rest

theorem binary {op : BinaryOp} {left right : Expr}
    (hgroups : (binary op left right).isGrouped = true)
    (hleft : left.Read reader false) (hright : right.Read reader false) :
    (Expr.binary op left right).Read reader called := by
  refine .ofHead rfl ⟨.symbol .openParen, _, rfl, rfl⟩ fun rest _ => ?_
  have hclose := Closes.of_cons (t := .symbol .closeParen) rfl rfl rest
  have hpositive : 0 < (Operator.binary op).left := by cases op <;> decide
  have hread := expr?_operator hleft hright hgroups hpositive (hclose.stops _) (hclose.stops _)
  have hw : (Expr.binary op left right).terminals ++ rest = .symbol .openParen ::
      (left.terminals ++ [(Operator.binary op).terminal] ++ right.terminals ++
        .symbol .closeParen :: rest) := by
    change _ ++ _ ++ _ = _
    simp
  rw [hw, suffixed?, hread, operators?_of_stops (hclose.stops _)]
  simp only [Option.bind_eq_bind, Option.bind_some, skip?_cons]
  rfl

theorem logical {op : LogicalOp} {left right : Expr}
    (hgroups : (logical op left right).isGrouped = true) (hleft : left.Read reader false)
    (hright : right.Read reader false) : (Expr.logical op left right).Read reader called := by
  refine .ofExpr rfl fun limit rest hfits hrest => ?_
  have hlimit : limit < (Operator.logical op).left := lt_grip_of_fits hfits rfl
  have hop : Stops (Operator.logical op).right rest := by cases op <;> exact hrest
  have hright' : right.fits (Operator.logical op).right = true :=
    (Bool.and_eq_true_iff.1 hgroups).2
  exact expr?_operator hleft hright hgroups hlimit
    (stops_of_fits hop hright' (by cases op <;> decide)) hop

theorem unary {op : UnaryOp} {argument : Expr} (hfits : (unary op argument).isGrouped = true)
    (h : argument.Read reader false) : (Expr.unary op argument).Read reader called := by
  refine .ofOperand rfl fun rest hrest => ?_
  change operand? reader (op.terminal :: (argument.terminals ++ rest)) = _
  rw [operand?_unary, h.expr?_eq hfits (stops_of_fits hrest hfits (Nat.le_refl _)) hrest]
  rfl

theorem table {fields : List Field} (h : ∀ f ∈ fields, f.Read reader) :
    (Expr.table fields).Read reader called :=
  .ofOperand rfl fun rest _ => by
    have hw : (Expr.table fields).terminals ++ rest = .symbol .openBrace ::
        (separated (Field.terminalsEach fields) ++ .symbol .closeBrace :: rest) := by
      change _ ++ _ ++ _ = _
      simp
    rw [hw, operand?, Field.fields?_eq rest h]
    rfl

section

variable {base : Expr} (hfirst : First Terminal.beginsHead (base.headTerminals base.terminals))
include hfirst

theorem member (h : base.Read reader false) {access : Access}
    (hcalled : access = .colon → called = true) (n : String) :
    (Expr.member base access n).Read reader called := by
  refine .ofHead rfl ((hfirst.append _).append _) fun rest hrest => ?_
  have hbase := h.headed (access.terminal :: .name n :: rest) nofun
  have hw : (Expr.member base access n).terminals ++ rest =
      base.headTerminals base.terminals ++ access.terminal :: .name n :: rest := by
    change _ ++ _ ++ _ = _
    simp
  rw [hw, hbase]
  cases access with
  | dot => exact suffixes?_member _ n rest
  | colon =>
    obtain ⟨rest, rfl⟩ := List.head?_eq_some_iff.1 (hrest (hcalled rfl))
    exact suffixes?_method _ n rest

theorem index (h : base.Read reader false) {key : Expr} (hkey : key.Read reader false) :
    (Expr.index base key).Read reader called := by
  refine .ofHead rfl ((hfirst.append _).append _) fun rest _ => ?_
  have hbase := h.headed (.symbol .openBracket :: (key.terminals ++ .symbol .closeBracket :: rest))
    nofun
  have hw : (Expr.index base key).terminals ++ rest = base.headTerminals base.terminals ++
      .symbol .openBracket :: (key.terminals ++ .symbol .closeBracket :: rest) := by
    change _ ++ _ ++ _ = _
    simp
  rw [hw, hbase, suffixes?, hkey.expr?_closes (.of_cons rfl rfl _)]
  simp only [Option.bind_eq_bind, Option.bind_some, skip?_cons]
  rfl

/-- A call is read as the call of its base with all of its arguments, however it was built. -/
theorem ofCall {e : Expr} {es : List Expr} (hhead : e.isHead = true)
    (hterminals : e.terminals = base.headTerminals base.terminals ++
      .symbol .openParen :: (separated (terminalsEach es) ++ [.symbol .closeParen]))
    (hread : e.asRead reader = .call (base.asRead reader) (asReadEach reader es))
    (h : base.Read reader true) (hes : ∀ e ∈ es, First Terminal.beginsExpr e.terminals)
    (harguments : ∀ e ∈ es, e.Read reader false) : e.Read reader called := by
  refine .ofHead hhead (hterminals ▸ hfirst.append _) fun rest _ => ?_
  rw [hterminals, hread, List.append_assoc, List.cons_append, List.append_assoc,
    h.headed _ fun _ => rfl]
  exact suffixes?_arguments (arguments?_eq hes harguments (base.asRead reader) rest)

theorem call (h : base.Read reader true) {arguments : List Expr}
    (harguments : ∀ e ∈ arguments, First Terminal.beginsExpr e.terminals)
    (hread : ∀ e ∈ arguments, e.Read reader false) :
    (Expr.call base arguments).Read reader called :=
  .ofCall hfirst rfl (by change _ ++ _ = _; simp) rfl h harguments hread

theorem tableCall (h : base.Read reader true) {fields : List Field}
    (hfields : (Expr.table fields).Read reader false) :
    (Expr.tableCall base fields).Read reader called := by
  have hbegins : First Terminal.beginsExpr (Expr.table fields).terminals := ⟨_, _, rfl, rfl⟩
  have hterminals : (Expr.tableCall base fields).terminals =
      base.headTerminals base.terminals ++ .symbol .openParen ::
        (separated (terminalsEach [.table fields]) ++ [.symbol .closeParen]) := by
    change _ ++ ([_] ++ (Expr.table fields).terminals) ++ _ = _
    simp [terminalsEach, separated_singleton]
  exact .ofCall hfirst rfl hterminals rfl h (List.forall_mem_singleton.2 hbegins)
    (List.forall_mem_singleton.2 hfields)

theorem textCall (h : base.Read reader true) (v source : String) :
    (Expr.textCall base v source).Read reader called := by
  have hbegins : First Terminal.beginsExpr (Expr.text v source).terminals := ⟨_, _, rfl, rfl⟩
  have hterminals : (Expr.textCall base v source).terminals =
      base.headTerminals base.terminals ++ .symbol .openParen ::
        (separated (terminalsEach [.text v source]) ++ [.symbol .closeParen]) := by
    change _ ++ ([_] ++ (Expr.text v source).terminals) ++ _ = _
    simp [terminalsEach, separated_singleton]
  exact .ofCall hfirst rfl hterminals rfl h (List.forall_mem_singleton.2 hbegins)
    (List.forall_mem_singleton.2 (.text v source))

end

end Expr.Read

end Reenact
