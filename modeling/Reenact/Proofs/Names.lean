/-
  Names of locals are told apart.

  Every name given out is a stem and the decimal digits of a number, and no stem ends in a digit, so
  both can be read off the name (`numbered_inj`).  Hence a name says what it was given to: to the
  argument at a position, to a table or instance inside one, or to an argument that cannot be
  written (`Shape.text_injective`).  Values of other forms are not among them: their stems are made
  from type names, and may be any of the other stems.
-/
import Reenact.Argument.LocalName

namespace Reenact

theorem Kind.tag_injective : Function.Injective Kind.tag := by
  intro k l h
  cases k <;> cases l <;> first | rfl | exact absurd h (by decide)

namespace LocalName

/-! ## Numbered names -/

/-- A text that does not end in a digit. -/
def IsStem (s : String) : Prop := ∀ c, s.toList.getLast? = some c → c.isDigit = false

theorem takeWhile_digits {s : List Char} (hs : ∀ c, s.getLast? = some c → c.isDigit = false)
    (n : Nat) : (s ++ Nat.toDigits 10 n).reverse.takeWhile Char.isDigit =
      (Nat.toDigits 10 n).reverse := by
  rw [List.reverse_append, List.takeWhile_append_of_pos]
  · cases h : s.reverse with
    | nil => simp
    | cons c rest =>
      have hc : s.getLast? = some c := by simp [List.getLast?_eq_head?_reverse, h]
      simp [hs c hc]
  · intro c hc
    exact Nat.isDigit_of_mem_toDigits (by decide) (by decide) (List.mem_reverse.1 hc)

/-- **A stem and a number can be read off the numbered name.** -/
theorem numbered_inj {s t : String} {m n : Nat} (hs : IsStem s) (ht : IsStem t)
    (h : s ++ toString m = t ++ toString n) : s = t ∧ m = n := by
  have hl : s.toList ++ Nat.toDigits 10 m = t.toList ++ Nat.toDigits 10 n := by
    simpa using congrArg String.toList h
  have hd : Nat.toDigits 10 m = Nat.toDigits 10 n := by
    have := congrArg (fun l => l.reverse.takeWhile Char.isDigit) hl
    simpa only [takeWhile_digits hs, takeWhile_digits ht, List.reverse_inj] using this
  rw [hd] at hl
  refine ⟨String.toList_inj.1 (List.append_cancel_right hl), ?_⟩
  have := congrArg (fun l => Nat.ofDigitChars 10 l 0) hd
  simpa using this

/-! ## Shapes of names -/

/-- What a name is given to. -/
inductive Shape where
  /-- The argument at a position -/
  | argument (kind : Kind) (position : Nat)
  /-- A table or instance inside the argument at a position -/
  | nested (kind : Kind) (position number : Nat)
  /-- An argument that cannot be written -/
  | failed (position : Nat)
deriving DecidableEq, Repr

/-- The position of the argument that a name belongs to. -/
def Shape.position : Shape → Nat
  | argument _ position | nested _ position _ | failed position => position

/-- The name of a shape. -/
def Shape.text : Shape → String
  | argument kind position => ofKind kind position
  | nested kind position number => ofNested kind position number
  | failed position => ofFailed position

theorem head?_lead_append (s : String) : (lead ++ s).toList.head? = some '_' := by simp [lead]

theorem Shape.head?_text (s : Shape) : s.text.toList.head? = some '_' := by
  cases s <;>
    simp only [text, ofKind, ofNested, ofFailed, String.append_assoc, head?_lead_append]

theorem isStem_tag (kind : Kind) : IsStem (lead ++ kind.tag) := by
  intro c hc
  cases kind <;> (injection hc with hc; subst hc; decide)

theorem isStem_error : IsStem (lead ++ "Error") := by
  intro c hc; injection hc with hc; subst hc; decide

theorem isStem_underscore (s : String) : IsStem (s ++ "_") :=
  fun c hc => by
    have hlast : (s ++ "_").toList.getLast? = some '_' := by simp
    rw [hlast] at hc; injection hc with hc; subst hc; decide

theorem ofKind_inj {k l : Kind} {p q : Nat} (h : ofKind k p = ofKind l q) : k = l ∧ p = q := by
  obtain ⟨ht, hp⟩ := numbered_inj (isStem_tag k) (isStem_tag l) h
  exact ⟨Kind.tag_injective ((String.append_right_inj lead).1 ht), hp⟩

theorem ofNested_inj {k l : Kind} {p q m n : Nat} (h : ofNested k p m = ofNested l q n) :
    k = l ∧ p = q ∧ m = n := by
  obtain ⟨hs, hn⟩ := numbered_inj (isStem_underscore _) (isStem_underscore _) h
  obtain ⟨hk, hp⟩ := ofKind_inj ((String.append_left_inj "_").1 hs)
  exact ⟨hk, hp, hn⟩

/-- The stem of an argument ends in an underscore only for a region, and there is no form whose tag
    that of a region extends by a digit. -/
theorem tag_ne_ofKind_underscore (k l : Kind) (p : Nat) : lead ++ k.tag ≠ ofKind l p ++ "_" := by
  intro h
  have hlast : (lead ++ k.tag).toList.getLast? = some '_' := by rw [h]; simp
  have hk : k = .region := by cases k <;> first | rfl | exact absurd hlast (by decide)
  subst hk
  -- less the underscore, its stem ends in the digit 3
  have h3 : "_4lveRegion" ++ toString 3 = lead ++ l.tag ++ toString p :=
    (String.append_left_inj "_").1 h
  obtain ⟨ht, -⟩ := numbered_inj (by intro c hc; injection hc with hc; subst hc; decide)
    (isStem_tag l) h3
  cases l <;> exact absurd ht (by decide)

theorem error_ne_ofKind_underscore (l : Kind) (p : Nat) : lead ++ "Error" ≠ ofKind l p ++ "_" := by
  intro h
  have hlast : (lead ++ "Error").toList.getLast? = some '_' := by rw [h]; simp
  exact absurd hlast (by decide)

theorem tag_ne_error (k : Kind) : lead ++ k.tag ≠ lead ++ "Error" := by
  cases k <;> decide

/-- **Names are told apart**: no name belongs to two shapes. -/
theorem Shape.text_injective : Function.Injective Shape.text := by
  intro a b h
  cases a with
  | argument k p =>
    cases b with
    | argument l q => obtain ⟨rfl, rfl⟩ := ofKind_inj h; rfl
    | nested l q n =>
      exact absurd (numbered_inj (isStem_tag k) (isStem_underscore _) h).1
        (tag_ne_ofKind_underscore k l q)
    | failed q => exact absurd (numbered_inj (isStem_tag k) isStem_error h).1 (tag_ne_error k)
  | nested k p m =>
    cases b with
    | argument l q =>
      exact absurd (numbered_inj (isStem_underscore _) (isStem_tag l) h).1.symm
        (tag_ne_ofKind_underscore l k p)
    | nested l q n => obtain ⟨rfl, rfl, rfl⟩ := ofNested_inj h; rfl
    | failed q =>
      exact absurd (numbered_inj (isStem_underscore _) isStem_error h).1.symm
        (error_ne_ofKind_underscore k p)
  | failed p =>
    cases b with
    | argument l q =>
      exact absurd (numbered_inj isStem_error (isStem_tag l) h).1.symm (tag_ne_error l)
    | nested l q n =>
      exact absurd (numbered_inj isStem_error (isStem_underscore _) h).1
        (error_ne_ofKind_underscore l q)
    | failed q => rw [(numbered_inj isStem_error isStem_error h).2]

end LocalName

end Reenact
