/-
  The variables that syntax trees mention.

  A variable is mentioned where a tree has its name as an expression; the names of members, fields
  and labels are no variables, and neither is a name where it is declared.  Raw source text counts
  as mentioning none.

  * `Expr.mentions`, `Stat.mentions`: every mention of a variable, in the order of the tree;
  * `LocalName.isName_ofArgument`, `LocalName.isName_ofNested`: the names that drafting gives can be
    variables, whatever the type of a value is called.
-/
import Reenact.Proofs.Names
import Reenact.Literal.Name
import Reenact.Syntax.Tree

namespace Reenact

/-! ## Mentions -/

mutual

/-- The variables that an expression mentions. -/
def Expr.mentions : Expr → List String
  | .name n => [n]
  | .text .. | .number .. | .boolean _ | .nil | .vararg | .raw _ => []
  | .binary _ left right | .logical _ left right => left.mentions ++ right.mentions
  | .unary _ argument => argument.mentions
  | .member base _ _ | .textCall base _ _ => base.mentions
  | .index base key => base.mentions ++ key.mentions
  | .call base arguments => base.mentions ++ Expr.mentionsEach arguments
  | .tableCall base fields => base.mentions ++ Field.mentionsEach fields
  | .table fields => Field.mentionsEach fields
  | .function _ body => Stat.mentionsAll body

/-- The variables that expressions mention. -/
def Expr.mentionsEach : List Expr → List String
  | [] => []
  | e :: rest => e.mentions ++ Expr.mentionsEach rest

/-- The variables that a field mentions. -/
def Field.mentions : Field → List String
  | .keyed key value => key.mentions ++ value.mentions
  | .named _ value | .positional value => value.mentions

/-- The variables that fields mention. -/
def Field.mentionsEach : List Field → List String
  | [] => []
  | f :: rest => f.mentions ++ Field.mentionsEach rest

/-- The variables that a statement mentions.  A local function declares its name; the name of any
    other is assigned to. -/
def Stat.mentions : Stat → List String
  | .localNames _ values | .ret values => Expr.mentionsEach values
  | .function name isLocal _ body =>
    (if isLocal then [] else Expr.mentionsOptional name) ++ Stat.mentionsAll body
  | .call expr => expr.mentions
  | .assign targets values => Expr.mentionsEach targets ++ Expr.mentionsEach values
  | .branch clauses => Clause.mentionsAll clauses
  | .whileLoop condition body => condition.mentions ++ Stat.mentionsAll body
  | .breakLoop | .goto _ | .label _ => []
  | .block body => Stat.mentionsAll body
  | .repeatLoop body condition => Stat.mentionsAll body ++ condition.mentions
  | .forRange _ first last step body =>
    first.mentions ++ last.mentions ++ Expr.mentionsOptional step ++ Stat.mentionsAll body
  | .forEach _ iterators body => Expr.mentionsEach iterators ++ Stat.mentionsAll body

/-- The variables that statements mention. -/
def Stat.mentionsAll : List Stat → List String
  | [] => []
  | s :: rest => s.mentions ++ Stat.mentionsAll rest

/-- The variables that a clause mentions. -/
def Clause.mentions : Clause → List String
  | .ifThen condition body | .elseIf condition body =>
    condition.mentions ++ Stat.mentionsAll body
  | .otherwise body => Stat.mentionsAll body

/-- The variables that clauses mention. -/
def Clause.mentionsAll : List Clause → List String
  | [] => []
  | c :: rest => c.mentions ++ Clause.mentionsAll rest

/-- The variables that the expression, if there is one, mentions. -/
def Expr.mentionsOptional : Option Expr → List String
  | none => []
  | some e => e.mentions

end

@[simp] theorem Stat.mentions_localName (name : String) (value : Expr) :
    (Stat.localName name value).mentions = value.mentions :=
  List.append_nil _

/-! ## Names that can be variables -/

namespace LocalName

/-- No reserved word begins as the names of locals do. -/
theorem isName_lead_append {s : String} (h : s.toList.all isWordChar = true) :
    isName (lead ++ s) = true := by
  have hkeyword : keywords.contains (lead ++ s) = false := by
    have hother : ∀ k ∈ keywords, k.toList.head? ≠ some '_' := by decide
    rw [← Bool.not_eq_true, List.contains_iff_mem]
    exact fun hmem => hother _ hmem (head?_lead_append s)
  have hlead : (lead ++ s).toList = '_' :: ("4lve".toList ++ s.toList) := by
    rw [String.toList_append]; rfl
  simp only [isName, hkeyword, hlead, List.all_append, h, Bool.not_false, Bool.and_true]
  decide

theorem all_isWordChar_toString (n : Nat) : (toString n).toList.all isWordChar = true := by
  rw [List.all_eq_true]
  intro c hc
  have hdigit : c.isDigit = true := by
    refine Nat.isDigit_of_mem_toDigits (b := 10) (n := n) (by decide) (by decide) ?_
    simpa using hc
  simp [isWordChar, Char.isAlphanum, hdigit]

theorem all_isWordChar_tag (kind : Kind) : kind.tag.toList.all isWordChar = true := by
  cases kind <;> decide

theorem all_isWordChar_sanitized (typeName : String) :
    (sanitized typeName).toList.all isWordChar = true := by
  rw [sanitized, String.toList_map, List.all_map, List.all_eq_true]
  intro c _
  by_cases hc : isWordChar c = true
  · simp [hc]
  · simp only [Function.comp_apply, if_neg hc]
    decide

theorem isName_ofKind (kind : Kind) (position : Nat) : isName (ofKind kind position) = true := by
  rw [ofKind, String.append_assoc]
  refine isName_lead_append ?_
  rw [String.toList_append, List.all_append, all_isWordChar_tag, all_isWordChar_toString]
  rfl

/-- **The name of a nested table or instance can be a variable.** -/
theorem isName_ofNested (kind : Kind) (position number : Nat) :
    isName (ofNested kind position number) = true := by
  simp only [ofNested, ofKind, String.append_assoc]
  refine isName_lead_append ?_
  simp only [String.toList_append, List.all_append, all_isWordChar_tag, all_isWordChar_toString,
    Bool.true_and, Bool.and_true]
  decide

/-- **The name of an argument can be a variable**, whatever its type is called. -/
theorem isName_ofArgument (v : Value) (position : Nat) : isName (ofArgument v position) = true := by
  unfold ofArgument
  split
  · rw [String.append_assoc, String.append_assoc]
    refine isName_lead_append ?_
    simp only [String.toList_append, List.all_append, all_isWordChar_sanitized,
      all_isWordChar_toString, Bool.true_and, Bool.and_true]
    decide
  · exact isName_ofKind _ _

end LocalName

end Reenact
