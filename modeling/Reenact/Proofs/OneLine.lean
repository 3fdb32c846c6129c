/-
  Text of one line.

  What is written into comments comes from names that can hold any text.  A text without control
  characters has no line end, so a comment that it is put into ends where it should.

  * `Quoted.oneLine_write`: quotes leave no control character of their text as it is;
  * `quoted_read`: what is in quotes is read back to the closing one, and no further;
  * `Instance.oneLine_path`: a path has none, whatever the names on it are.
-/
import Reenact.Proofs.Paths

namespace Reenact

/-- The text has no control character. -/
def OneLine (text : List Char) : Prop := ∀ c ∈ text, isControl c = false

instance (text : List Char) : Decidable (OneLine text) :=
  decidable_of_iff (text.all (!isControl ·) = true) (by simp [OneLine])

namespace OneLine

variable {text rest : List Char}

theorem append (h : OneLine text) (hrest : OneLine rest) : OneLine (text ++ rest) := by
  intro c hc
  rcases List.mem_append.1 hc with hc | hc
  · exact h c hc
  · exact hrest c hc

theorem cons {c : Char} (hc : isControl c = false) (h : OneLine text) : OneLine (c :: text) := by
  intro d hd
  rcases List.mem_cons.1 hd with rfl | hd
  · exact hc
  · exact h d hd

theorem flatMap {write : Char → List Char} (h : ∀ c ∈ text, OneLine (write c)) :
    OneLine (text.flatMap write) := by
  intro d hd
  obtain ⟨c, hc, hd⟩ := List.mem_flatMap.1 hd
  exact h c hc d hd

/-- So it is on one line. -/
theorem newline_notMem (h : OneLine text) : '\n' ∉ text := fun hmem => by
  have hc : isControl '\n' = false := h '\n' hmem
  cases hc

end OneLine

/-- A range of printable characters has no control character. -/
theorem isControl_of_range {c lo hi : Char} (h : lo.val ≤ c.val ∧ c.val ≤ hi.val)
    (hlo : 0x20 ≤ lo.toNat) (hhi : hi.toNat < 0x7f) : isControl c = false := by
  simp only [UInt32.le_iff_toNat_le] at h
  simp only [isControl, Bool.or_eq_false_iff, decide_eq_false_iff_not, beq_eq_false_iff_ne]
  change lo.toNat ≤ c.toNat ∧ c.toNat ≤ hi.toNat at h
  omega

theorem isControl_of_isDigit {c : Char} (h : c.isDigit = true) : isControl c = false :=
  @isControl_of_range c '0' '9' ((Bool.and_eq_true_iff.1 h).imp of_decide_eq_true of_decide_eq_true)
    (by decide) (by decide)

theorem isControl_of_isAlpha {c : Char} (h : c.isAlpha = true) : isControl c = false := by
  rcases Bool.or_eq_true_iff.1 h with hupper | hlower
  · exact @isControl_of_range c 'A' 'Z' (of_decide_eq_true hupper) (by decide) (by decide)
  · exact @isControl_of_range c 'a' 'z'
      ((Bool.and_eq_true_iff.1 hlower).imp of_decide_eq_true of_decide_eq_true)
      (by decide) (by decide)

theorem isControl_of_isWordChar {c : Char} (h : isWordChar c = true) : isControl c = false := by
  rcases Bool.or_eq_true_iff.1 h with halphanum | hunderscore
  · rcases Bool.or_eq_true_iff.1 halphanum with halpha | hdigit
    · exact isControl_of_isAlpha halpha
    · exact isControl_of_isDigit hdigit
  · obtain rfl := beq_iff_eq.1 hunderscore
    rfl

theorem oneLine_digitsOf (n : Nat) : OneLine (digitsOf n) := fun _ hc =>
  isControl_of_isDigit (Nat.isDigit_of_mem_toDigits (by decide) (by decide) hc)

/-! ## Quotes -/

namespace Quoted

theorem oneLine_escape {quote : Char} (hq : isControl quote = false) (c : Char) :
    OneLine (escape quote c) := by
  have hslash : isControl '\\' = false := by decide
  unfold escape
  split
  · exact .cons hslash (.cons hslash nofun)
  split
  · exact .cons hslash (.cons (by decide) nofun)
  split
  · exact .cons hslash (.cons (by decide) nofun)
  split
  · exact .cons hslash (.cons (by decide) nofun)
  split
  · next hc => exact .cons hslash (.cons (hc ▸ hq) nofun)
  split
  · exact .cons hslash fun _ hd => isControl_of_isDigit (isDigit_of_mem_threeDigits hd)
  · next hc => exact .cons (Bool.eq_false_iff.2 hc) nofun

/-- **A quoted text is on one line.** -/
theorem oneLine_write {quote : Char} (hq : isControl quote = false) (text : List Char) :
    OneLine (write quote text) :=
  .append (.cons hq (.flatMap fun c _ => oneLine_escape hq c)) (.cons hq nofun)

end Quoted

/-- **A quoted text is one token on one line.**  Reading stops right behind its closing quote,
    whatever follows there, and gives the text back. -/
theorem quoted_read {quote : Char} (hq : quote = '"' ∨ quote = '\'') (v : String)
    (rest : List Char) :
    Lexer.token? ((quoted quote v).toList ++ rest) = some (.text v.toList, rest) ∧
      OneLine (quoted quote v).toList := by
  have hprintable : isControl quote = false := by rcases hq with rfl | rfl <;> decide
  rw [quoted, String.toList_ofList]
  exact ⟨Quoted.token?_write hq _ _, Quoted.oneLine_write hprintable _⟩

/-- A backslash before the quote itself, a control character before a digit, and another quote and a
    digit behind the literal. -/
theorem quoted_backslash_and_control_read :
    let v : String := "\\'\x077\"\nü"
    let rest : List Char := "'7".toList
    ('\'' = '"' ∨ '\'' = '\'') ∧
      Lexer.token? ((quoted '\'' v).toList ++ rest) = some (.text v.toList, rest) ∧
      OneLine (quoted '\'' v).toList := by
  intro v rest
  have hq : '\'' = '"' ∨ '\'' = '\'' := Or.inr rfl
  exact ⟨hq, quoted_read hq v rest⟩

/-! ## Paths -/

namespace Segment

theorem oneLine_codePoints : ∀ name : List Char, OneLine (codePoints name)
  | [] => nofun
  | [c] => by
    rw [codePoints, List.map_singleton, List.intercalate_singleton]
    exact oneLine_digitsOf _
  | c :: d :: rest => by
    have ih := oneLine_codePoints (d :: rest)
    rw [codePoints, List.map_cons, List.map_cons, List.intercalate_cons_cons]
    exact .append (.append (oneLine_digitsOf _) (by decide)) ih

theorem oneLine_write (name : List Char) : OneLine (write name) := by
  unfold write
  split
  · decide
  split
  · exact .cons (by decide) (.append (Quoted.oneLine_write (by decide) name) (by decide))
  split
  · exact .append (.append (by decide) (oneLine_codePoints name)) (by decide)
  · next hempty hquoted hexotic =>
    -- what stands behind a point is a word
    obtain ⟨⟨c, more, rfl, hc, -, hmore⟩, -⟩ := isWord_of_plain (Bool.eq_false_iff.2 hempty)
      (Bool.eq_false_iff.2 hquoted) (Bool.eq_false_iff.2 hexotic)
    exact .cons (by decide) (.cons (isControl_of_isWordChar hc) fun d hd =>
      isControl_of_isWordChar (List.all_eq_true.1 hmore d hd))

end Segment

namespace Instance

theorem oneLine_pathText (node : Node) (above : List Node) : OneLine (pathText node above) := by
  induction above generalizing node with
  | nil =>
    unfold pathText
    split
    · decide
    · exact .append (Segment.oneLine_write _) (by decide)
  | cons parent above ih =>
    unfold pathText
    split
    · decide
    · decide
    · exact .append (.append (.append (ih parent) (by decide))
        (Quoted.oneLine_write (by decide) _)) (by decide)
    · exact .append (ih parent) (by decide)
    · exact .append (ih parent) (Segment.oneLine_write _)

/-- **A path is on one line**, whatever the names on it are. -/
theorem oneLine_path (i : Instance) : OneLine i.path.toList := by
  rw [path, String.toList_ofList]
  exact oneLine_pathText i.toNode i.ancestors

end Instance

end Reenact
