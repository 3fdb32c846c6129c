/-
  String literals in brackets: `[key]` in a table, and behind a base.

  The bracket is written right before the literal.  With quotes, the bracket, the string and the
  closing bracket are read back as three tokens; with long brackets, the bracket and the first one of
  the literal are read as the opening of a long bracket of level zero (`bracketed_text_read`).
-/
import Reenact.Proofs.Drafting
import Reenact.Proofs.TextLiterals
import Reenact.Syntax.Layout

namespace Reenact

open Lexer

/-- A string whose literal has quotes. -/
def InQuotes (k : String) : Prop :=
  '\n' ∉ k.toList ∧ ('"' ∉ k.toList ∨ '\'' ∉ k.toList)

instance (k : String) : Decidable (InQuotes k) :=
  inferInstanceAs (Decidable (_ ∧ (_ ∨ _)))

theorem inQuotes_iff {k : String} : InQuotes k ↔ TextForm.of k.toList ≠ .longBrackets := by
  rw [Ne, TextForm.of_eq_longBrackets_iff, not_or, not_and_or]; rfl

/-! ## Brackets around a literal -/

/-- A literal in brackets, with the text behind it. -/
def bracketed (k : String) (rest : List Char) : List Char :=
  '[' :: ((textLiteral k).toList ++ ']' :: rest)

theorem next?_closing (rest : List Char) : next? (']' :: rest) = some (.symbol [']'], rest) := by
  rw [next?_of_not_space (by decide) (by decide)]; rfl

/-- A literal in quotes is the next token, and no bracket before it belongs to it. -/
theorem take?_bracketed {k : String} (hk : InQuotes k) {n : Nat} {rest behind : List Char}
    {ts : List Token} (h : take? n rest = some (ts, behind)) :
    take? (n + 3) (bracketed k rest) =
      some (.symbol ['['] :: .text k.toList :: .symbol [']'] :: ts, behind) := by
  obtain ⟨quote, hform⟩ : ∃ quote, TextForm.of k.toList = .quotes quote := by
    cases h : TextForm.of k.toList with
    | quotes quote => exact ⟨quote, rfl⟩
    | longBrackets => exact absurd h (inQuotes_iff.1 hk)
  have hquote := TextForm.of_eq_quotes hform
  have hliteral : (textLiteral k).toList =
      quote :: (k.toList.flatMap (Quoted.escape quote) ++ [quote]) := by
    rw [textLiteral, String.toList_ofList, hform]; rfl
  have hopen : next? (bracketed k rest) =
      some (.symbol ['['], (textLiteral k).toList ++ ']' :: rest) := by
    rw [bracketed, next?_of_not_space (by decide) (by decide), hliteral]
    rcases hquote with rfl | rfl <;> rfl
  have htext : next? ((textLiteral k).toList ++ ']' :: rest) =
      some (.text k.toList, ']' :: rest) := by
    have htoken := token?_textLiteral k (']' :: rest)
    rw [hform, hliteral, List.cons_append] at htoken
    rw [hliteral, List.cons_append, next?_of_not_space, htoken]
    · rfl
    all_goals rcases hquote with rfl | rfl <;> decide
  exact take?_succ hopen (take?_succ htext (take?_succ (next?_closing rest) h))

theorem next?_bracketed_ne_symbol {k : String} (hk : ¬ InQuotes k) (rest s behind : List Char) :
    next? (bracketed k rest) ≠ some (.symbol s, behind) := by
  have hform : TextForm.of k.toList = .longBrackets := not_not.1 (mt inQuotes_iff.2 hk)
  rw [bracketed, textLiteral, String.toList_ofList, hform, TextForm.write, LongBracket.write_eq,
    List.cons_append]
  exact next?_brackets_ne_symbol _ _ _

/-! ## Where literals stand in brackets -/

theorem write_index (l : Layout) (base : Expr) (k : String) (rest : List Char) :
    (Expr.index base (.ofText k)).write l ++ rest =
      base.headText (base.write l) ++ bracketed k rest := by
  have hw : (Expr.index base (.ofText k)).write l =
      base.headText (base.write l) ++ '[' :: (textLiteral k).toList ++ [']'] := rfl
  simp [hw, bracketed]

theorem write_keyed (l : Layout) (k : String) (e : Expr) (rest : List Char) :
    (Field.keyed (.ofText k) e).write l ++ rest =
      l.indentation ++ bracketed k (' ' :: '=' :: ' ' :: (e.write l ++ rest)) := by
  have hw : (Field.keyed (.ofText k) e).write l =
      l.indentation ++ '[' :: (textLiteral k).toList ++ "] = ".toList ++ e.write l := rfl
  simp [hw, bracketed]

theorem next?_keyed (l : Layout) (k : String) (e : Expr) (rest : List Char) :
    next? ((Field.keyed (.ofText k) e).write l ++ rest) =
      next? (bracketed k (' ' :: '=' :: ' ' :: (e.write l ++ rest))) := by
  rw [write_keyed, Layout.indentation, next?_spaces]

theorem take?_keyed {k : String} (hk : InQuotes k) (l : Layout) (e : Expr) (rest : List Char) :
    take? 4 ((Field.keyed (.ofText k) e).write l ++ rest) =
      some ([.symbol ['['], .text k.toList, .symbol [']'], .symbol ['=']],
        ' ' :: (e.write l ++ rest)) := by
  have hsign : next? (' ' :: '=' :: ' ' :: (e.write l ++ rest)) =
      some (.symbol ['='], ' ' :: (e.write l ++ rest)) := by
    rw [next?_space (by decide), next?_of_not_space (by decide) (by decide)]; rfl
  rw [take?, next?_keyed]
  exact take?_bracketed hk (take?_succ hsign rfl)

theorem fieldsOf_getElem?_text {scene : Scene} {position room : Nat} {k : String} {v : Value}
    (hk : isName k = false) {next : Nat} {pairs : List (Value × Value)} {d d' : Draft}
    {fs : List Field} (h : Drafting.FieldsOf (fun v d e d' => (Drafting.nested scene position
      (Drafting.table scene position room) v).run d = .ok e d') next pairs d fs d') :
    ∀ {j : Nat}, pairs[j]? = some (Value.text k, v) →
      ∃ e, fs[j]? = some (Field.keyed (.ofText k) e) := by
  induction h with
  | nil => intro j hp; simp at hp
  | positional hform _ _ ih | named hform _ _ ih =>
    intro j hp
    cases j with
    | zero => cases hp; simp [Drafting.keyForm, hk] at hform
    | succ j => exact ih hp
  | keyed _ hkey _ _ ih =>
    intro j hp
    cases j with
    | zero =>
      cases hp
      rcases Drafting.nested_ok_iff.1 hkey with ⟨hform, -⟩ | ⟨_, _, _, hform, -⟩ | ⟨_, hform, -⟩
      · cases hform; exact ⟨_, rfl⟩
      · cases hform
      · cases hform
    | succ j => exact ih hp

/-- **A literal in brackets is read back exactly if it has quotes.**  For a key of a table that is no
    name, and for a literal behind a base: with quotes, the bracket, the string and the closing
    bracket are tokens of their own; else the bracket is none. -/
theorem bracketed_text_read (k : String) :
    (isName k = false → ∀ scene position room pairs d fs d',
      (Drafting.table scene position room pairs).run d = .ok (.table fs) d' →
      ∀ (j : Nat) v, (Drafting.ordered scene pairs)[j]? = some (Value.text k, v) →
      ∃ e, fs[j]? = some (Field.keyed (.ofText k) e) ∧ ∀ l rest,
        (InQuotes k → take? 4 ((Field.keyed (.ofText k) e).write l ++ rest) =
          some ([.symbol ['['], .text k.toList, .symbol [']'], .symbol ['=']],
            ' ' :: (e.write l ++ rest))) ∧
        (¬ InQuotes k → ∀ s behind,
          next? ((Field.keyed (.ofText k) e).write l ++ rest) ≠ some (.symbol s, behind))) ∧
    ∀ base l rest, ∃ text,
      (Expr.index base (.ofText k)).write l ++ rest = base.headText (base.write l) ++ text ∧
      (InQuotes k →
        take? 3 text = some ([.symbol ['['], .text k.toList, .symbol [']']], rest)) ∧
      (¬ InQuotes k → ∀ s behind, next? text ≠ some (.symbol s, behind)) := by
  refine ⟨?_, fun base l rest => ⟨bracketed k rest, write_index l base k rest,
    fun hk => take?_bracketed hk rfl, fun hk => next?_bracketed_ne_symbol hk rest⟩⟩
  intro hk scene position room pairs d fs d' h j v hp
  cases room with
  | zero => cases h
  | succ room =>
    obtain ⟨fs', hfs, he⟩ := Drafting.table_ok_iff.1 h
    cases he
    obtain ⟨e, he⟩ := fieldsOf_getElem?_text hk hfs hp
    refine ⟨e, he, fun l rest => ⟨fun hq => take?_keyed hq l e rest, fun hq s behind => ?_⟩⟩
    rw [next?_keyed]
    exact next?_bracketed_ne_symbol hq _ s behind

/-- The key `a b` is read back. -/
theorem spaced_key_read :
    take? 4 ((Field.keyed (.ofText "a b") .nil).write {}) =
      some ([.symbol ['['], .text ['a', ' ', 'b'], .symbol [']'], .symbol ['=']],
        " nil".toList) := by
  have hrun : (Drafting.table ⟨{}, fun i => i.name⟩ 1 1 [(.text "a b", .nil)]).run {} =
      .ok (.table [.keyed (.ofText "a b") .nil]) {} := rfl
  obtain ⟨e, he, hread⟩ :=
    (bracketed_text_read "a b").1 (by decide) _ _ _ _ _ _ _ hrun 0 _ rfl
  cases he
  have h := (hread {} []).1 (by decide)
  rwa [List.append_nil, List.append_nil] at h

/-- The bracket before a key with a line break is read as part of its literal. -/
theorem broken_key_read :
    next? ((Field.keyed (.ofText "a\nb") .nil).write {}) =
      some (.text "[a\nb".toList, "] = nil".toList) := by
  have hw : (Field.keyed (.ofText "a\nb") .nil).write {} =
      '[' :: "[[a\nb]]] = nil".toList := by decide
  rw [hw, next?_of_not_space (by decide) (by decide)]
  decide

end Reenact
