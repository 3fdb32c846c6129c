/-
  How the terminals of an expression begin.

  The reader settles by the first terminals what it has before it: `First` and `Behind` say what a
  list of terminals begins with and does not begin with.

  * `Expr.first_head`: a base begins with a name or a parenthesis;
  * `Expr.first`: an expression begins with a terminal that can begin one;
  * `Expr.unassigned`: an expression does not begin as a named field does.
-/
import Reenact.Proofs.Spelling

namespace Reenact

/-! ## First terminals -/

/-- The terminal can begin an expression. -/
def Terminal.beginsExpr : Terminal → Bool
  | .name _ | .number _ | .text _ | .word .true | .word .false | .word .nil | .word .not
  | .symbol .dots | .symbol .openBrace | .symbol .openParen | .symbol .sub | .symbol .len
  | .symbol .tilde => true
  | _ => false

/-- The terminal begins an expression with something behind a base. -/
def Terminal.beginsHead : Terminal → Bool
  | .name _ | .symbol .openParen => true
  | _ => false

/-- There is a first terminal, and it has the property. -/
def First (p : Terminal → Bool) (ts : List Terminal) : Prop := ∃ t more, ts = t :: more ∧ p t = true

theorem First.append {p : Terminal → Bool} {ts : List Terminal} (h : First p ts)
    (more : List Terminal) : First p (ts ++ more) := by
  obtain ⟨t, us, rfl, ht⟩ := h
  exact ⟨t, us ++ more, rfl, ht⟩

theorem First.imp {p q : Terminal → Bool} {ts : List Terminal} (h : First p ts)
    (himp : ∀ t, p t = true → q t = true) : First q ts := by
  obtain ⟨t, us, rfl, ht⟩ := h
  exact ⟨t, us, rfl, himp t ht⟩

theorem First.ne {p : Terminal → Bool} {ts : List Terminal} {t : Terminal} (h : First p ts)
    (ht : p t = false) : First (· != t) ts := by
  refine h.imp fun u hu => bne_iff_ne.2 ?_
  rintro rfl
  rw [ht] at hu
  cases hu

theorem First.append_ne {ts : List Terminal} {t : Terminal} (h : First (· != t) ts)
    (more us : List Terminal) : ts ++ more ≠ t :: us := by
  obtain ⟨u, vs, rfl, hu⟩ := h
  rintro he
  obtain ⟨rfl, -⟩ := List.cons.inj he
  simp at hu

/-- The terminals are none, or begin with one that has not the property. -/
def Behind (p : Terminal → Bool) (ts : List Terminal) : Prop := ∀ t ∈ ts.head?, p t = false

theorem Behind.of_cons {p : Terminal → Bool} {t : Terminal} (h : p t = false)
    (ts : List Terminal) : Behind p (t :: ts) := by
  rintro _ ⟨⟩
  exact h

theorem Terminal.beginsExpr_of_beginsHead (t : Terminal) (h : t.beginsHead = true) :
    t.beginsExpr = true := by
  unfold Terminal.beginsHead at h
  split at h <;> first | rfl | cases h

namespace Expr

variable {rule : Expr → Prop}

theorem headTerminals_of_isHead {e : Expr} (h : e.isHead = true) (ts : List Terminal) :
    e.headTerminals ts = ts := if_pos h

theorem headTerminals_of_not_isHead {e : Expr} (h : e.isHead = false) (ts : List Terminal) :
    e.headTerminals ts = [.symbol .openParen] ++ ts ++ [.symbol .closeParen] :=
  if_neg (by simp [h])

/-- What stands before members, keys and arguments begins with a name or a parenthesis. -/
theorem first_head : ∀ {called : Bool} (e : Expr), e.Formed rule called →
    First Terminal.beginsHead (e.headTerminals e.terminals)
  | _, .name n, _ => ⟨.name n, [], rfl, rfl⟩
  | _, .member base .., h | _, .index base _, h => ((base.first_head h.1).append _).append _
  | _, .call base _, h => (base.first_head h.1).append _
  | _, .tableCall base _, h | _, .textCall base .., h => ((base.first_head h.1).append _).append _
  | _, .text .., _ | _, .number .., _ | _, .boolean _, _ | _, .nil, _ | _, .vararg, _
  | _, .binary .., _ | _, .logical .., _ | _, .unary .., _ | _, .table _, _
  | _, .function .., _ => ⟨.symbol .openParen, _, rfl, rfl⟩

theorem first : ∀ {called : Bool} (e : Expr), e.Formed rule called →
    First Terminal.beginsExpr e.terminals
  | _, .text v _, _ => ⟨.text (textRead v), [], rfl, rfl⟩
  | _, .number _ source, _ => by
    change First _ (numberTerminals source)
    unfold numberTerminals
    split <;> exact ⟨_, _, rfl, rfl⟩
  | _, .boolean true, _ | _, .boolean false, _ | _, .nil, _ | _, .vararg, _ | _, .table _, _ =>
    ⟨_, _, rfl, rfl⟩
  | _, .unary op _, _ => by cases op <;> exact ⟨_, _, rfl, rfl⟩
  | _, .logical _ left _, h => ((left.first h.2.1).append _).append _
  | _, .name n, h => (first_head (.name n) h).imp Terminal.beginsExpr_of_beginsHead
  | _, .binary .., h | _, .member .., h | _, .index .., h | _, .call .., h | _, .tableCall .., h
  | _, .textCall .., h | _, .function .., h =>
    (first_head _ h).imp Terminal.beginsExpr_of_beginsHead

end Expr

/-- The terminals are no name with `=` behind it, if there is no `=` behind all of them. -/
def Unassigned (ts : List Terminal) : Prop :=
  ∀ rest, Behind (· == .symbol .assign) rest → ∀ n us, ts ++ rest ≠ .name n :: .symbol .assign :: us

namespace Unassigned

variable {ts us : List Terminal}

theorem append (h : Unassigned ts) (hus : First (· != .symbol .assign) us) :
    Unassigned (ts ++ us) := by
  obtain ⟨t, us, rfl, ht⟩ := hus
  intro rest _
  rw [List.append_assoc]
  refine h _ ?_
  rintro _ ⟨⟩
  simpa using ht

theorem of_first (h : First (fun t => !t matches .name _) ts) : Unassigned ts := by
  obtain ⟨t, us, rfl, ht⟩ := h
  rintro rest - n vs he
  obtain ⟨rfl, -⟩ := List.cons.inj he
  cases ht

theorem head {e : Expr} (h : Unassigned e.terminals) :
    Unassigned (e.headTerminals e.terminals) := by
  unfold Expr.headTerminals
  split
  · exact h
  · exact of_first ⟨.symbol .openParen, _, rfl, rfl⟩

end Unassigned

theorem Expr.unassigned {rule : Expr → Prop} : ∀ {called : Bool} (e : Expr),
    e.Formed rule called → Unassigned e.terminals
  | _, .name n, _ => by
    rintro rest hrest m us he
    obtain ⟨-, rfl⟩ := List.cons.inj he
    exact absurd (hrest _ rfl) (by decide)
  | _, .logical (.and) left right, h | _, .logical (.or) left right, h =>
    ((left.unassigned h.2.1).append ⟨_, [], rfl, rfl⟩).append ((right.first h.2.2).ne rfl)
  | _, .member base .dot _, h | _, .member base .colon _, h =>
    ((base.unassigned h.1).head.append ⟨_, _, rfl, rfl⟩).append ⟨_, _, rfl, rfl⟩
  | _, .index base _, h | _, .tableCall base _, h | _, .textCall base .., h =>
    ((base.unassigned h.1).head.append ⟨_, _, rfl, rfl⟩).append ⟨_, _, rfl, rfl⟩
  | _, .call base _, h => (base.unassigned h.1).head.append ⟨_, _, rfl, rfl⟩
  | _, .number _ source, _ => by
    refine .of_first ?_
    change First _ (numberTerminals source)
    unfold numberTerminals
    split <;> exact ⟨_, _, rfl, rfl⟩
  | _, .unary op _, _ => .of_first (by cases op <;> exact ⟨_, _, rfl, rfl⟩)
  | _, .boolean true, _ | _, .boolean false, _ | _, .text .., _ | _, .nil, _ | _, .vararg, _
  | _, .binary .., _ | _, .table _, _ | _, .function .., _ => .of_first ⟨_, _, rfl, rfl⟩

theorem Expr.first_of_isHead {rule : Expr → Prop} {e : Expr} {called : Bool}
    (h : e.Formed rule called) (hhead : e.isHead = true) :
    First Terminal.beginsHead e.terminals := by
  have hfirst := e.first_head h
  rwa [headTerminals_of_isHead hhead] at hfirst

theorem Expr.FormedEach.first {rule : Expr → Prop} {es : List Expr} (h : Expr.FormedEach rule es) :
    ∀ e ∈ es, First Terminal.beginsExpr e.terminals :=
  fun e he => e.first (h.of_mem e he)

end Reenact
