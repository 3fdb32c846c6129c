/-
  Long-bracket string literals: `[[ ... ]]` with some number of `=` between the brackets, the level.

  Nothing is escaped in them, so a level is safe for a text only if the closing bracket does not
  occur in the text, and does not begin in its last characters and end in the closing bracket
  itself.  `level` is the least safe one; a level as great as the length of the text always is.
-/

namespace Reenact

namespace LongBracket

/-- The closing bracket of a level without its last character. -/
def closingStem (level : Nat) : List Char := ']' :: List.replicate level '='

/-- The closing bracket of a level. -/
def closing (level : Nat) : List Char := closingStem level ++ [']']

/-- A text occurs in another. -/
def occursIn (text : List Char) : List Char → Bool
  | [] => text.isEmpty
  | c :: rest => text.isPrefixOf (c :: rest) || occursIn text rest

/-- The closing bracket of a level neither occurs in the text nor begins at its end. -/
def isSafe (text : List Char) (level : Nat) : Bool :=
  !occursIn (closing level) text && !(closingStem level).isSuffixOf text

/-- The least safe level from `level` on, of those at most `further` above it. -/
def levelFrom (text : List Char) : (further level : Nat) → Nat
  | 0, level => level
  | further + 1, level =>
    if isSafe text level then level else levelFrom text further (level + 1)

/-- The least safe level. -/
def level (text : List Char) : Nat := levelFrom text text.length 0

theorem length_le_of_occursIn {text s : List Char} (h : occursIn text s = true) :
    text.length ≤ s.length := by
  induction s with
  | nil => simp_all [occursIn, List.isEmpty_iff]
  | cons c rest ih =>
    simp only [occursIn, Bool.or_eq_true] at h
    rcases h with h | h
    · exact (List.isPrefixOf_iff_prefix.1 h).length_le
    · exact Nat.le_succ_of_le (ih h)

theorem isSafe_of_length_le {text : List Char} {level : Nat} (h : text.length ≤ level) :
    isSafe text level = true := by
  simp only [isSafe, Bool.and_eq_true, Bool.not_eq_true']
  refine ⟨Bool.eq_false_iff.2 fun ho => ?_, Bool.eq_false_iff.2 fun hs => ?_⟩
  · have := length_le_of_occursIn ho
    simp [closing, closingStem] at this
    omega
  · have := (List.isSuffixOf_iff_suffix.1 hs).length_le
    simp [closingStem] at this
    omega

theorem isSafe_levelFrom {text : List Char} {further level : Nat}
    (h : text.length ≤ level + further) : isSafe text (levelFrom text further level) = true := by
  induction further generalizing level with
  | zero => exact isSafe_of_length_le h
  | succ n ih =>
    rw [levelFrom]
    split
    · assumption
    · exact ih (by omega)

/-- The level of a text is safe for it. -/
theorem isSafe_level (text : List Char) : isSafe text (level text) = true :=
  isSafe_levelFrom (by omega)

/-- The opening bracket for a text.  A reader drops a line break right after it, so a text that
    begins with one gets another. -/
def opening (text : List Char) : List Char :=
  '[' :: List.replicate (level text) '=' ++ '[' :: (if text.head? = some '\n' then ['\n'] else [])

/-- Text between long brackets of the least safe level. -/
def write (text : List Char) : List Char := opening text ++ text ++ closing (level text)

end LongBracket

end Reenact
