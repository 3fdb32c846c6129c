/-
  Which operands are read as they stand in the tree.

  Logical and unary operations are written without parentheses, and negative numbers with a minus
  sign, so an operator beside them can take a part of them.

  `Expr.Plain` lists the operands for which none does, operator by operator.
  `Expr.isGrouped_iff_plain`: by the priorities of the operators, these are all.
-/
import Reenact.Proofs.NumberLiterals
import Reenact.Proofs.WellFormed

namespace Reenact

namespace Expr

def isOr : Expr → Bool
  | logical .or .. => true
  | _ => false

/-- The text begins with an operator: the expression has one in front, or is a negative number. -/
def isSigned : Expr → Bool
  | unary .. => true
  | number x _ => decide (x.units < 0)
  | _ => false

/-- No operator takes a part of its operands only, though they are not in parentheses. -/
def Plain : Expr → Prop
  | binary op left right =>
    left.isLogical = false ∧ right.isLogical = false ∧ (op = .pow → left.isSigned = false)
  | logical .and left right => left.isOr = false ∧ right.isLogical = false
  | logical .or _ right => right.isOr = false
  | unary _ argument => argument.isLogical = false
  | _ => True

variable {rule : Expr → Prop} {called : Bool} {e : Expr}

theorem grip_of_isLogical (h : e.isLogical = true) : e.grip = if e.isOr then 1 else 2 := by
  cases e with
  | logical op => cases op <;> rfl
  | _ => cases h

theorem grip_of_not_isLogical (hformed : e.Formed rule called) (h : e.isLogical = false) :
    e.grip = if e.isSigned then Operator.unary else Operator.strongest := by
  cases e with
  | logical => cases h
  | number x source =>
    obtain ⟨-, hfinite, rfl⟩ := hformed
    simp only [grip, head?_numberLiteral hfinite, isSigned, decide_eq_true_eq]
  | _ => rfl

theorem isOr_eq_false (h : e.isLogical = false) : e.isOr = false := by
  cases e with
  | logical => cases h
  | _ => rfl

/-! ## Operands -/

theorem fits_iff {limit : Nat} :
    e.fits limit = true ↔ (e.isLogical = true → limit < if e.isOr then 1 else 2) := by
  rw [fits, Bool.or_eq_true, Bool.not_eq_true', decide_eq_true_eq]
  cases h : e.isLogical with
  | true => simp [grip_of_isLogical h]
  | false => simp

theorem fits_strong_iff {limit : Nat} (hlimit : 2 ≤ limit) :
    e.fits limit = true ↔ e.isLogical = false := by
  rw [fits_iff, ← Bool.not_eq_true]
  refine imp_congr_right fun _ => iff_false_intro ?_
  split <;> omega

theorem two_lt_binary_left (op : BinaryOp) : 2 < (Operator.binary op).left := by
  cases op <;> decide

theorem two_le_binary_right (op : BinaryOp) : 2 ≤ (Operator.binary op).right := by
  cases op <;> decide

theorem binary_left_le_unary_iff (op : BinaryOp) :
    (Operator.binary op).left ≤ Operator.unary ↔ op ≠ .pow := by
  cases op <;> decide

theorem binary_left_le_grip_iff (hformed : e.Formed rule called) (op : BinaryOp) :
    (Operator.binary op).left ≤ e.grip ↔
      e.isLogical = false ∧ (op = .pow → e.isSigned = false) := by
  cases hlogical : e.isLogical with
  | true =>
    have hleft := two_lt_binary_left op
    rw [grip_of_isLogical hlogical]
    refine iff_of_false ?_ nofun
    split <;> omega
  | false =>
    rw [grip_of_not_isLogical hformed hlogical]
    cases e.isSigned with
    | true => simp [binary_left_le_unary_iff]
    | false => simp [Operator.left_le_strongest]

theorem and_left_le_grip_iff (hformed : e.Formed rule called) :
    (Operator.logical .and).left ≤ e.grip ↔ e.isOr = false := by
  cases hlogical : e.isLogical with
  | true =>
    rw [grip_of_isLogical hlogical]
    cases e.isOr <;> decide
  | false =>
    rw [grip_of_not_isLogical hformed hlogical, isOr_eq_false hlogical]
    cases e.isSigned <;> decide

theorem or_left_le_grip (hformed : e.Formed rule called) :
    (Operator.logical .or).left ≤ e.grip := by
  cases hlogical : e.isLogical with
  | true =>
    rw [grip_of_isLogical hlogical]
    cases e.isOr <;> decide
  | false =>
    rw [grip_of_not_isLogical hformed hlogical]
    cases e.isSigned <;> decide

theorem fits_or_iff : e.fits (Operator.logical .or).right = true ↔ e.isOr = false := by
  rw [fits_iff]
  cases hlogical : e.isLogical with
  | true => cases e.isOr <;> decide
  | false => simp [isOr_eq_false hlogical]

/-- **The operands that are read as they stand.** -/
theorem isGrouped_iff_plain (hformed : e.Formed rule called) : e.isGrouped = true ↔ e.Plain := by
  cases e with
  | binary op left right =>
    rw [isGrouped, groups, Bool.and_eq_true, decide_eq_true_eq,
      binary_left_le_grip_iff hformed.2.1, fits_strong_iff (two_le_binary_right op), Plain]
    tauto
  | logical op left right =>
    rw [isGrouped, groups, Bool.and_eq_true, decide_eq_true_eq]
    cases op with
    | and =>
      have hstrong : 2 ≤ (Operator.logical .and).right := by decide
      rw [and_left_le_grip_iff hformed.2.1, fits_strong_iff hstrong, Plain]
    | or => rw [fits_or_iff, Plain, and_iff_right (or_left_le_grip hformed.2.1)]
  | unary op argument => exact fits_strong_iff (by decide)
  | _ => exact iff_of_true rfl trivial

end Expr

end Reenact
