/-
  Reading functions, statements and clauses.

  `Stat.Read` says that the terminals of a statement are read as the statement, `Stat.ReadAll` the
  same of a block in front of what can stand behind one.  Each form of statements has its lemma,
  which asks the same of the parts.

  * `Reader.function?_eq`, `Expr.Read.function`: functions are read if their bodies are;
  * `Stat.readAll_cons`, `Stat.readAll_return`: blocks are read statement by statement;
  * `Stat.Read.branch`: only the last clause of an `if` statement ends it.
-/
import Reenact.Proofs.ReadExpressions

namespace Reenact

open Reader

/-! ## Names, parameters and functions -/

namespace Reader

variable {reader : Reader}

theorem names?_eq {rest : List Terminal} (hrest : Behind (· == .symbol .comma) rest) :
    ∀ {names : List String}, names ≠ [] →
      names? (nameTerminals names ++ rest) = some (names, rest)
  | [n], _ => by
    have hw : nameTerminals [n] ++ rest = .name n :: rest :=
      congrArg (· ++ rest) (separated_singleton [.name n])
    rw [hw, names?]
    rintro ts rfl
    exact absurd (hrest _ rfl) (by decide)
  | n :: m :: names, _ => by
    have hmore := names?_eq hrest (List.cons_ne_nil m names)
    have hw : nameTerminals (n :: m :: names) ++ rest =
        .name n :: .symbol .comma :: (nameTerminals (m :: names) ++ rest) :=
      congrArg (· ++ rest) (separated_cons_cons [.name n] [.name m] _)
    rw [hw, names?, hmore]
    rfl

theorem paramsRest?_eq (rest : List Terminal) : ∀ {params : List Param}, params ≠ [] →
    Param.areFormed params = true →
    paramsRest? (separated (params.map Param.terminals) ++ .symbol .closeParen :: rest) =
      some (params, rest)
  | [.name n], _, _ => by
    rw [List.map_singleton, separated_singleton]
    rfl
  | [.vararg], _, _ => by
    rw [List.map_singleton, separated_singleton]
    rfl
  | .name n :: p :: params, _, h => by
    have hmore := paramsRest?_eq rest (List.cons_ne_nil p params) (Bool.and_eq_true_iff.1 h).2
    rw [List.map_cons, List.map_cons, separated_cons_cons, ← List.map_cons]
    change paramsRest? (.name n :: .symbol .comma :: (_ ++ _)) = _
    rw [paramsRest?, hmore]
    rfl

theorem params?_eq {params : List Param} (h : Param.areFormed params = true)
    (rest : List Terminal) : params? (paramTerminals params ++ rest) = some (params, rest) := by
  have hw : paramTerminals params ++ rest = .symbol .openParen ::
      (separated (params.map Param.terminals) ++ .symbol .closeParen :: rest) := by
    simp [paramTerminals]
  rw [hw]
  cases params with
  | nil => rfl
  | cons p params =>
    have hfirst : First (· != .symbol .closeParen) p.terminals := by
      cases p <;> exact ⟨_, _, rfl, rfl⟩
    rw [params?, paramsRest?_eq rest (List.cons_ne_nil p params) h]
    exact (hfirst.separated _).append_ne _

/-- A function is read if its body is. -/
theorem function?_eq {params : List Param} (h : Param.areFormed params = true)
    {body body' : List Stat} {rest : List Terminal}
    (hbody : block? reader (Stat.terminalsAll body ++ .word .end_ :: rest) =
      some (body', .word .end_ :: rest)) :
    function? reader (paramTerminals params ++ (Stat.terminalsAll body ++ .word .end_ :: rest)) =
      some (params, body', rest) := by
  rw [function?, params?_eq h]
  simp only [Option.bind_eq_bind, Option.bind_some, hbody, skip?_cons]
  rfl

end Reader

/-! ## Calls and targets -/

namespace Expr

variable {reader : Reader}

theorem isHead_of_isCall {e : Expr} (h : e.isCall = true) : e.isHead = true := by
  cases e <;> first | rfl | cases h

theorem isHead_of_isTarget {e : Expr} (h : e.isTarget = true) : e.isHead = true := by
  unfold Expr.isTarget at h
  split at h <;> first | rfl | cases h

theorem isCall_asRead {e : Expr} (h : e.isCall = true) : (e.asRead reader).isCall = true := by
  cases e <;> first | rfl | cases h

theorem isTarget_asRead {e : Expr} (h : e.isTarget = true) :
    (e.asRead reader).isTarget = true := by
  unfold Expr.isTarget at h
  split at h <;> first | rfl | cases h

theorem all_isTarget_asReadEach : ∀ {es : List Expr}, es.all isTarget = true →
    (asReadEach reader es).all isTarget = true
  | [], _ => rfl
  | e :: es, h => by
    obtain ⟨he, hes⟩ := Bool.and_eq_true_iff.1 (List.all_cons.symm.trans h)
    rw [asReadEach, List.all_cons, isTarget_asRead he, all_isTarget_asReadEach hes]
    rfl

end Expr

/-! ## Statements -/

/-- The terminal can begin a statement other than a `return`. -/
def Terminal.beginsStat : Terminal → Bool
  | .name _ | .symbol .openParen | .symbol .doubleColon | .word .local_ | .word .function
  | .word .if_ | .word .while_ | .word .break_ | .word .do_ | .word .repeat_ | .word .for_
  | .word .goto => true
  | _ => false

theorem Terminal.endsBlock_of_beginsExpr (t : Terminal) (h : t.beginsExpr = true) :
    t.endsBlock = false := by
  unfold Terminal.beginsExpr at h
  split at h <;> first | rfl | cases h

theorem Terminal.endsBlock_of_beginsStat (t : Terminal) (h : t.beginsStat = true) :
    t.endsBlock = false := by
  unfold Terminal.beginsStat at h
  split at h <;> first | rfl | cases h

theorem First.blockEnds {p : Terminal → Bool} {ts : List Terminal} (h : First p ts)
    (hp : ∀ t, p t = true → t.endsBlock = false) (more : List Terminal) :
    Reenact.blockEnds (ts ++ more) = false := by
  obtain ⟨t, ts, rfl, ht⟩ := h
  exact hp t ht

theorem Terminal.beginsStat_of_beginsHead (t : Terminal) (h : t.beginsHead = true) :
    t.beginsStat = true := by
  unfold Terminal.beginsHead at h
  split at h <;> first | rfl | cases h

/-- The terminals of a statement are read as the statement. -/
structure Stat.Read (reader : Reader) (s : Stat) : Prop where
  first : First Terminal.beginsStat s.terminals
  stat? : ∀ rest, Reader.stat? reader (s.terminals ++ .symbol .semicolon :: rest) =
    some (s.asRead reader, .symbol .semicolon :: rest)

/-- The terminals of statements are read as the statements, if what stands behind them can stand
    behind a block. -/
def Stat.ReadAll (reader : Reader) (body : List Stat) : Prop :=
  ∀ rest, blockEnds rest = true →
    block? reader (Stat.terminalsAll body ++ rest) = some (Stat.asReadAll reader body, rest)

theorem Expr.Read.function {reader : Reader} {called : Bool} {params : List Param}
    (hparams : Param.areFormed params = true) {body : List Stat}
    (hbody : Stat.ReadAll reader body) : (Expr.function params body).Read reader called := by
  refine .ofHead rfl ⟨.symbol .openParen, _, rfl, rfl⟩ fun rest _ => ?_
  have hclose := Closes.of_cons (t := .symbol .closeParen) rfl rfl rest
  have hfunction := function?_eq hparams (hbody (.word .end_ :: .symbol .closeParen :: rest) rfl)
  have hw : (Expr.function params body).terminals ++ rest = .symbol .openParen ::
      .word .function :: (paramTerminals params ++
        (Stat.terminalsAll body ++ .word .end_ :: .symbol .closeParen :: rest)) := by
    change _ ++ _ ++ _ = _
    simp
  rw [hw, suffixed?, expr?, operand?, hfunction]
  simp only [Option.bind_eq_bind, Option.bind_some, Option.pure_def,
    operators?_of_stops (hclose.stops _), skip?_cons]
  rfl

namespace Stat

variable {reader : Reader}

theorem readAll_nil : ReadAll reader [] := by
  intro rest hrest
  change block? reader rest = _
  rw [block?.eq_def]
  split
  · cases hrest
  · cases hrest
  · rw [if_pos hrest]
    rfl

theorem readAll_cons {s : Stat} {body : List Stat} (hs : s.Read reader)
    (hbody : ReadAll reader body) : ReadAll reader (s :: body) := by
  intro rest hrest
  have hw : terminalsAll (s :: body) ++ rest =
      s.terminals ++ .symbol .semicolon :: (terminalsAll body ++ rest) := by
    change _ ++ _ ++ _ ++ _ = _
    simp
  rw [hw, block?, hs.first.blockEnds Terminal.endsBlock_of_beginsStat, if_neg (by decide), hs.stat?]
  · simp only [Option.bind_eq_bind, Option.bind_some]
    rw [block?, hbody rest hrest]
    rfl
  · exact (hs.first.ne rfl).append_ne _
  · exact (hs.first.ne rfl).append_ne _

theorem readAll_return {values : List Expr}
    (hfirst : ∀ e ∈ values, First Terminal.beginsExpr e.terminals)
    (h : ∀ e ∈ values, e.Read reader false) : ReadAll reader [.ret values] := by
  intro rest hrest
  have hw : terminalsAll [.ret values] ++ rest = .word .return_ ::
      (separated (Expr.terminalsEach values) ++ .symbol .semicolon :: rest) := by
    change (_ ++ _ ++ _) ++ [] ++ _ = _
    simp
  have hvalues : returned? reader
      (separated (Expr.terminalsEach values) ++ .symbol .semicolon :: rest) =
        some (Expr.asReadEach reader values, .symbol .semicolon :: rest) := by
    rw [returned?]
    cases values with
    | nil => rfl
    | cons e es =>
      have hvalue := (hfirst e List.mem_cons_self).separated (Expr.terminalsEach es)
      have hends := hvalue.blockEnds Terminal.endsBlock_of_beginsExpr (.symbol .semicolon :: rest)
      have hsemicolon : (separated (Expr.terminalsEach (e :: es)) ++
          .symbol .semicolon :: rest).head? ≠ some (.symbol .semicolon) := fun he => by
        obtain ⟨us, hus⟩ := List.head?_eq_some_iff.1 he
        exact (hvalue.ne rfl).append_ne _ us hus
      rw [Expr.exprs?_eq (List.cons_ne_nil _ _) h (.of_cons rfl rfl rest) (.of_cons rfl rest),
        if_neg]
      rw [Bool.or_eq_true, not_or]
      refine ⟨?_, by simpa using hsemicolon⟩
      rw [Expr.terminalsEach, hends]
      decide
  rw [hw, block?, hvalues]
  simp only [Option.bind_eq_bind, Option.bind_some, List.head?_cons, if_true, List.tail_cons, hrest]
  rfl

theorem stat?_word (k : Keyword) (ts : List Terminal) :
    Reader.stat? reader (.word k :: ts) = keywordStat? reader k ts := by
  rw [Reader.stat?]

theorem first_nameTerminals {names : List String} (h : names ≠ []) :
    First (· matches .name _) (nameTerminals names) := by
  cases names with
  | nil => exact absurd rfl h
  | cons n names => exact First.separated ⟨.name n, [], rfl, rfl⟩ _

/-- Locals are declared with names. -/
theorem localStat?_of_names {ts : List Terminal} (h : First (· != .word .function) ts) :
    localStat? reader ts = (names? ts).bind fun (names, ts) =>
      match ts with
      | .symbol .assign :: ts =>
        (exprs? reader ts).bind fun (values, ts) => some (.localNames names values, ts)
      | ts => some (.localNames names [], ts) := by
  obtain ⟨t, ts, rfl, ht⟩ := h
  rw [localStat?.eq_def]
  split
  · rename_i he
    obtain ⟨rfl, -⟩ := List.cons.inj he
    exact absurd ht (by decide)
  · rfl

theorem localStat?_function (n : String) (ts : List Terminal) :
    localStat? reader (.word .function :: .name n :: ts) =
      (function? reader ts).bind fun (params, body, ts) =>
        some (.function (some (.name n)) true params body, ts) := by
  rw [localStat?.eq_def]
  rfl

theorem Read.localNames {names : List String} (hnames : names ≠ []) {values : List Expr}
    (h : ∀ e ∈ values, e.Read reader false) : (Stat.localNames names values).Read reader where
  first := ⟨.word .local_, _, rfl, rfl⟩
  stat? rest := by
    have hfirst := (first_nameTerminals hnames).ne (t := .word .function) rfl
    cases values with
    | nil =>
      have hw : (Stat.localNames names []).terminals ++ .symbol .semicolon :: rest =
          .word .local_ :: (nameTerminals names ++ .symbol .semicolon :: rest) := by
        change _ ++ _ ++ _ = _
        simp
      rw [hw, stat?_word, keywordStat?.eq_def]
      dsimp only
      rw [localStat?_of_names (hfirst.append _), names?_eq (.of_cons rfl _) hnames]
      rfl
    | cons e es =>
      have hw : (Stat.localNames names (e :: es)).terminals ++ .symbol .semicolon :: rest =
          .word .local_ :: (nameTerminals names ++ .symbol .assign ::
            (separated (Expr.terminalsEach (e :: es)) ++ .symbol .semicolon :: rest)) := by
        change _ ++ _ ++ _ = _
        simp
      have hvalues := Expr.exprs?_eq (List.cons_ne_nil e es) h
        (Closes.of_cons (t := .symbol .semicolon) rfl rfl rest) (.of_cons rfl rest)
      rw [hw, stat?_word, keywordStat?.eq_def]
      dsimp only
      rw [localStat?_of_names (hfirst.append _), names?_eq (.of_cons rfl _) hnames]
      simp only [Option.bind_some, hvalues]
      rfl

theorem functionName?_path : ∀ {e : Expr} (rest : List Terminal), e.isNamePath = true →
    functionName? (e.headTerminals e.terminals ++ rest) = some (functionPath e rest)
  | .name n, rest, _ => rfl
  | .member base .dot n, rest, h => by
    have hbase := functionName?_path (.symbol .dot :: .name n :: rest) (Bool.and_eq_true_iff.1 h).1
    change functionName?
      (base.headTerminals base.terminals ++ [.symbol .dot] ++ [.name n] ++ rest) = _
    rw [List.append_assoc, List.append_assoc]
    exact hbase

theorem functionName?_eq {e : Expr} {isLocal : Bool} (h : e.isFunctionName isLocal = true)
    {rest : List Terminal} (hrest : First (· == .symbol .openParen) rest) :
    functionName? (e.terminals ++ rest) = some (e, rest) := by
  obtain ⟨t, rest, rfl, ht⟩ := hrest
  obtain rfl := beq_iff_eq.1 ht
  unfold Expr.isFunctionName at h
  split at h
  · rfl
  · rename_i base access n
    simp only [Bool.and_eq_true] at h
    change functionName?
      (base.headTerminals base.terminals ++ [access.terminal] ++ [.name n] ++ _) = _
    rw [List.append_assoc, List.append_assoc, functionName?_path _ h.1.2]
    cases access <;> rfl
  · cases h

theorem Read.function {name : Expr} {isLocal : Bool} (hname : name.isFunctionName isLocal = true)
    {params : List Param} (hparams : Param.areFormed params = true) {body : List Stat}
    (hbody : ReadAll reader body) : (Stat.function name isLocal params body).Read reader where
  first := by
    cases isLocal <;> exact ⟨_, _, rfl, rfl⟩
  stat? rest := by
    have hfunction := function?_eq hparams (hbody (.word .end_ :: .symbol .semicolon :: rest) rfl)
    cases isLocal with
    | true =>
      cases name with
      | name n =>
        have hw : (Stat.function (Expr.name n) true params body).terminals ++
            .symbol .semicolon :: rest =
            .word .local_ :: .word .function :: .name n :: (paramTerminals params ++
              (terminalsAll body ++ .word .end_ :: .symbol .semicolon :: rest)) := by
          change _ ++ _ ++ _ = _
          simp [Expr.terminalsOptional]
          rfl
        rw [hw, stat?_word, keywordStat?.eq_def]
        dsimp only
        rw [localStat?_function, hfunction]
        rfl
      | _ => simp [Expr.isFunctionName] at hname
    | false =>
      have hw : (Stat.function name false params body).terminals ++ .symbol .semicolon :: rest =
          .word .function :: (name.terminals ++ (paramTerminals params ++
            (terminalsAll body ++ .word .end_ :: .symbol .semicolon :: rest))) := by
        change _ ++ _ ++ _ = _
        simp [Expr.terminalsOptional]
      have hparen : First (· == .symbol .openParen) (paramTerminals params) := ⟨_, _, rfl, rfl⟩
      rw [hw, stat?_word, keywordStat?.eq_def]
      simp only [functionName?_eq hname (hparen.append _), hfunction, Option.bind_eq_bind,
        Option.bind_some]
      rfl

/-- A statement that begins with an expression is an assignment or a call. -/
theorem stat?_of_beginsHead {ts : List Terminal} (h : First Terminal.beginsHead ts) :
    Reader.stat? reader ts = plainStat? reader ts := by
  obtain ⟨t, ts, rfl, ht⟩ := h
  rw [Reader.stat?.eq_def]
  unfold Terminal.beginsHead at ht
  split at ht <;> first | rfl | cases ht

theorem Read.call {e : Expr} (hcall : e.isCall = true)
    (hfirst : First Terminal.beginsHead e.terminals) (h : e.Read reader false) :
    (Stat.call e).Read reader where
  first := hfirst.imp Terminal.beginsStat_of_beginsHead
  stat? rest := by
    have htargets := Expr.targets?_eq (List.cons_ne_nil e [])
      (by simpa using Expr.isHead_of_isCall hcall) (by simpa using h)
      (Closes.of_cons (t := .symbol .semicolon) rfl rfl rest) (.of_cons rfl rest)
    rw [Expr.terminalsEach, Expr.terminalsEach, separated_singleton] at htargets
    change Reader.stat? reader (e.terminals ++ _) = _
    rw [stat?_of_beginsHead (hfirst.append _), plainStat?.eq_def, htargets]
    exact if_pos (Expr.isCall_asRead hcall)

theorem first_targets {targets : List Expr} (hne : targets ≠ [])
    (h : ∀ e ∈ targets, First Terminal.beginsHead e.terminals) :
    First Terminal.beginsHead (separated (Expr.terminalsEach targets)) := by
  cases targets with
  | nil => exact absurd rfl hne
  | cons e es => exact (h e List.mem_cons_self).separated _

theorem Read.assign {targets values : List Expr} (htargets : targets ≠ []) (hvalues : values ≠ [])
    (hall : targets.all Expr.isTarget = true)
    (hfirst : ∀ e ∈ targets, First Terminal.beginsHead e.terminals)
    (hread : ∀ e ∈ targets, e.Read reader false) (h : ∀ e ∈ values, e.Read reader false) :
    (Stat.assign targets values).Read reader where
  first := by
    rw [terminals, List.append_assoc]
    exact ((first_targets htargets hfirst).append _).imp Terminal.beginsStat_of_beginsHead
  stat? rest := by
    have hw : (Stat.assign targets values).terminals ++ .symbol .semicolon :: rest =
        separated (Expr.terminalsEach targets) ++ .symbol .assign ::
          (separated (Expr.terminalsEach values) ++ .symbol .semicolon :: rest) := by
      change _ ++ _ ++ _ = _
      simp
    have hhead : ∀ e ∈ targets, e.isHead = true := fun e he =>
      Expr.isHead_of_isTarget (List.all_eq_true.1 hall e he)
    have hvalues := Expr.exprs?_eq hvalues h
      (Closes.of_cons (t := .symbol .semicolon) rfl rfl rest) (.of_cons rfl rest)
    rw [hw, stat?_of_beginsHead ((first_targets htargets hfirst).append _), plainStat?.eq_def,
      Expr.targets?_eq htargets hhead hread (.of_cons rfl rfl _) (.of_cons rfl _)]
    simp only [Option.bind_eq_bind, Option.bind_some, hvalues]
    exact if_pos (Expr.all_isTarget_asReadEach hall)

theorem Read.whileLoop {condition : Expr} (hcondition : condition.Read reader false)
    {body : List Stat} (hbody : ReadAll reader body) :
    (Stat.whileLoop condition body).Read reader where
  first := ⟨.word .while_, _, rfl, rfl⟩
  stat? rest := by
    have hw : (Stat.whileLoop condition body).terminals ++ .symbol .semicolon :: rest =
        .word .while_ :: (condition.terminals ++ .word .do_ ::
          (terminalsAll body ++ .word .end_ :: .symbol .semicolon :: rest)) := by
      change _ ++ _ ++ _ = _
      simp
    rw [hw, stat?_word, keywordStat?.eq_def]
    simp only [hcondition.expr?_closes (Closes.of_cons (t := .word .do_) rfl rfl _),
      Option.bind_eq_bind, Option.bind_some, skip?_cons, hbody (.word .end_ :: _) rfl]
    rfl

theorem Read.breakLoop : Stat.breakLoop.Read reader where
  first := ⟨.word .break_, _, rfl, rfl⟩
  stat? rest := by
    change Reader.stat? reader (.word .break_ :: _) = _
    rw [stat?_word, keywordStat?.eq_def]
    rfl

theorem Read.block {body : List Stat} (hbody : ReadAll reader body) :
    (Stat.block body).Read reader where
  first := ⟨.word .do_, _, rfl, rfl⟩
  stat? rest := by
    have hw : (Stat.block body).terminals ++ .symbol .semicolon :: rest =
        .word .do_ :: (terminalsAll body ++ .word .end_ :: .symbol .semicolon :: rest) := by
      change _ ++ _ ++ _ = _
      simp
    rw [hw, stat?_word, keywordStat?.eq_def]
    simp only [hbody (.word .end_ :: _) rfl, Option.bind_eq_bind, Option.bind_some, skip?_cons]
    rfl

theorem Read.repeatLoop {body : List Stat} (hbody : ReadAll reader body) {condition : Expr}
    (hcondition : condition.Read reader false) :
    (Stat.repeatLoop body condition).Read reader where
  first := ⟨.word .repeat_, _, rfl, rfl⟩
  stat? rest := by
    have hw : (Stat.repeatLoop body condition).terminals ++ .symbol .semicolon :: rest =
        .word .repeat_ :: (terminalsAll body ++ .word .until_ ::
          (condition.terminals ++ .symbol .semicolon :: rest)) := by
      change _ ++ _ ++ _ = _
      simp
    rw [hw, stat?_word, keywordStat?.eq_def]
    simp only [hbody (.word .until_ :: _) rfl, Option.bind_eq_bind, Option.bind_some, skip?_cons,
      hcondition.expr?_closes (Closes.of_cons (t := .symbol .semicolon) rfl rfl rest)]
    rfl

theorem Read.forRange (n : String) {first last : Expr} (hfirst : first.Read reader false)
    (hlast : last.Read reader false) {step : Option Expr}
    (hstep : ∀ e ∈ step, e.Read reader false) {body : List Stat} (hbody : ReadAll reader body) :
    (Stat.forRange n first last step body).Read reader where
  first := ⟨.word .for_, _, rfl, rfl⟩
  stat? rest := by
    have hw : (Stat.forRange n first last step body).terminals ++ .symbol .semicolon :: rest =
        .word .for_ :: (nameTerminals [n] ++ .symbol .assign ::
          (separated (Expr.terminalsEach (first :: last :: step.toList)) ++ .word .do_ ::
            (terminalsAll body ++ .word .end_ :: .symbol .semicolon :: rest))) := by
      change _ ++ _ ++ _ = _
      cases step <;>
        simp [Expr.terminalsOptional, Expr.terminalsEach, nameTerminals,
          separated_cons_cons, separated_singleton]
    have hbounds : ∀ e ∈ first :: last :: step.toList, e.Read reader false := by
      simp only [List.mem_cons, Option.mem_toList]
      rintro e (rfl | rfl | he)
      · exact hfirst
      · exact hlast
      · exact hstep e he
    rw [hw, stat?_word, keywordStat?.eq_def]
    dsimp only
    rw [forStat?.eq_def, names?_eq (.of_cons rfl _) (List.cons_ne_nil n [])]
    simp only [Option.bind_eq_bind, Option.bind_some, skip?_cons,
      Expr.exprs?_eq (List.cons_ne_nil _ _) hbounds (Closes.of_cons (t := .word .do_) rfl rfl _)
        (.of_cons rfl _), hbody (.word .end_ :: _) rfl]
    cases step <;> rfl

theorem Read.forEach {names : List String} (hnames : names ≠ []) {iterators : List Expr}
    (hne : iterators ≠ []) (h : ∀ e ∈ iterators, e.Read reader false) {body : List Stat}
    (hbody : ReadAll reader body) : (Stat.forEach names iterators body).Read reader where
  first := ⟨.word .for_, _, rfl, rfl⟩
  stat? rest := by
    have hw : (Stat.forEach names iterators body).terminals ++ .symbol .semicolon :: rest =
        .word .for_ :: (nameTerminals names ++ .word .in_ ::
          (separated (Expr.terminalsEach iterators) ++ .word .do_ ::
            (terminalsAll body ++ .word .end_ :: .symbol .semicolon :: rest))) := by
      change _ ++ _ ++ _ = _
      simp
    rw [hw, stat?_word, keywordStat?.eq_def]
    dsimp only
    rw [forStat?.eq_def, names?_eq (.of_cons rfl _) hnames]
    simp only [Option.bind_eq_bind, Option.bind_some, skip?_cons,
      Expr.exprs?_eq hne h (Closes.of_cons (t := .word .do_) rfl rfl _) (.of_cons rfl _),
      hbody (.word .end_ :: _) rfl]
    rfl

theorem Read.goto (n : String) : (Stat.goto n).Read reader where
  first := ⟨.word .goto, _, rfl, rfl⟩
  stat? rest := by
    change Reader.stat? reader (.word .goto :: .name n :: _) = _
    rw [stat?_word, keywordStat?.eq_def]
    rfl

theorem Read.label (n : String) : (Stat.label n).Read reader where
  first := ⟨.symbol .doubleColon, _, rfl, rfl⟩
  stat? rest := by
    change Reader.stat? reader (.symbol .doubleColon :: .name n :: .symbol .doubleColon :: _) = _
    rw [Reader.stat?.eq_def]
    rfl

end Stat

/-! ## Clauses -/

namespace Clause

variable {reader : Reader}

/-- The terminals of further clauses are read as the clauses, up to the closing word. -/
def ReadAll (reader : Reader) (clauses : List Clause) : Prop :=
  ∀ rest, clauses? reader (terminalsAll clauses ++ .word .end_ :: rest) =
    some (asReadAll reader clauses, rest)

theorem blockEnds_terminalsAll {clauses : List Clause} (h : follow clauses = true)
    (rest : List Terminal) : blockEnds (terminalsAll clauses ++ .word .end_ :: rest) = true := by
  unfold follow at h
  split at h <;> first | rfl | cases h

theorem readAll_nil : ReadAll reader [] := by
  intro rest
  change clauses? reader (.word .end_ :: rest) = _
  rw [clauses?.eq_def]
  rfl

theorem readAll_otherwise {body : List Stat} (hbody : Stat.ReadAll reader body) :
    ReadAll reader [.otherwise body] := by
  intro rest
  have hw : terminalsAll [.otherwise body] ++ .word .end_ :: rest =
      .word .else_ :: (Stat.terminalsAll body ++ .word .end_ :: rest) := by
    change _ ++ _ ++ [] ++ _ = _
    simp
  rw [hw, clauses?.eq_def]
  simp only [hbody (.word .end_ :: rest) rfl, Option.bind_eq_bind, Option.bind_some, skip?_cons]
  rfl

theorem readAll_elseIf {condition : Expr} (hcondition : condition.Read reader false)
    {body : List Stat} (hbody : Stat.ReadAll reader body) {clauses : List Clause}
    (hfollow : follow clauses = true) (h : ReadAll reader clauses) :
    ReadAll reader (.elseIf condition body :: clauses) := by
  intro rest
  have hw : terminalsAll (.elseIf condition body :: clauses) ++ .word .end_ :: rest =
      .word .elseif :: (condition.terminals ++ .word .then_ ::
        (Stat.terminalsAll body ++ (terminalsAll clauses ++ .word .end_ :: rest))) := by
    change (_ ++ _ ++ _) ++ _ ++ _ = _
    simp
  rw [hw, clauses?.eq_def]
  simp only [hcondition.expr?_closes (Closes.of_cons (t := .word .then_) rfl rfl _),
    Option.bind_eq_bind, Option.bind_some, skip?_cons,
    hbody _ (blockEnds_terminalsAll hfollow rest), h rest]
  rfl

end Clause

theorem Stat.Read.branch {reader : Reader} {condition : Expr}
    (hcondition : condition.Read reader false) {body : List Stat} (hbody : ReadAll reader body)
    {clauses : List Clause} (hfollow : Clause.follow clauses = true)
    (h : Clause.ReadAll reader clauses) :
    (Stat.branch (.ifThen condition body :: clauses)).Read reader where
  first := ⟨.word .if_, _, rfl, rfl⟩
  stat? rest := by
    have hw : (Stat.branch (.ifThen condition body :: clauses)).terminals ++
        .symbol .semicolon :: rest =
        .word .if_ :: (condition.terminals ++ .word .then_ :: (terminalsAll body ++
          (Clause.terminalsAll clauses ++ .word .end_ :: .symbol .semicolon :: rest))) := by
      change (_ ++ _ ++ _ ++ _) ++ _ ++ _ = _
      simp
    rw [hw, Stat.stat?_word, keywordStat?.eq_def]
    simp only [hcondition.expr?_closes (Closes.of_cons (t := .word .then_) rfl rfl _),
      Option.bind_eq_bind, Option.bind_some, skip?_cons,
      hbody _ (Clause.blockEnds_terminalsAll hfollow _), h (.symbol .semicolon :: rest)]
    rfl

end Reenact
