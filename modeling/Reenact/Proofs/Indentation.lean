/-
  Indentation moves whole lines.

  Statements are written as whole lines, each with the indentation of its level in front, and the
  same statements at a deeper level are the same lines with more spaces in front.  Every part of a
  text begins and ends either inside a line or where a line starts, and there the added spaces, the
  lead, are still due (`Shifts`); so the parts can be put together, and it does not matter how deep
  in conditions, arguments and fields a body of statements is.

  * `Stat.areUnbroken`: no text in a tree has a line feed, and no `if` statement is without clauses;
  * `Expr.shifts`, `Stat.shifts`: expressions stay inside a line at both ends, and statements go
    from the start of a line to the start of a line;
  * `statements_indented`: the lines of statements, and of the same statements at a deeper level.
-/
import Mathlib.Data.List.Basic
import Reenact.Syntax.Layout

namespace Reenact

/-! ## Lines -/

/-- Lines as a text, with a line feed behind each. -/
def unlines (lines : List (List Char)) : List Char := lines.flatMap fun line => line ++ ['\n']

theorem unlines_append (lines rest : List (List Char)) :
    unlines (lines ++ rest) = unlines lines ++ unlines rest := by
  simp [unlines]

/-- A text that ends with a line feed is made of whole lines. -/
theorem exists_unlines (text : List Char) : ∃ line lines,
    text ++ ['\n'] = unlines (line :: lines) ∧ ∀ row ∈ line :: lines, '\n' ∉ row := by
  induction text with
  | nil => exact ⟨[], [], rfl, by simp⟩
  | cons c text ih =>
    obtain ⟨line, lines, htext, hlines⟩ := ih
    by_cases hc : c = '\n'
    · refine ⟨[], line :: lines, by rw [List.cons_append, htext, hc]; rfl, ?_⟩
      rw [List.forall_mem_cons]
      exact ⟨by simp, hlines⟩
    · refine ⟨c :: line, lines, by rw [List.cons_append, htext]; rfl, ?_⟩
      rw [List.forall_mem_cons] at hlines ⊢
      rw [List.mem_cons, not_or]
      exact ⟨⟨Ne.symm hc, hlines.1⟩, hlines.2⟩

/-- The text with a lead behind every line feed. -/
def shift (lead text : List Char) : List Char :=
  text.flatMap fun c => if c = '\n' then '\n' :: lead else [c]

section
variable (lead : List Char)

theorem shift_append (text rest : List Char) :
    shift lead (text ++ rest) = shift lead text ++ shift lead rest := by
  simp [shift]

theorem shift_cons_of_ne {c : Char} (hc : c ≠ '\n') (text : List Char) :
    shift lead (c :: text) = c :: shift lead text := by
  simp [shift, hc]

theorem shift_lineFeed : shift lead ['\n'] = '\n' :: lead := by
  simp [shift]

/-- A text inside a line is left as it is. -/
theorem shift_of_notMem {text : List Char} (h : '\n' ∉ text) : shift lead text = text := by
  induction text with
  | nil => rfl
  | cons c text ih =>
    simp only [List.mem_cons, not_or] at h
    rw [shift_cons_of_ne lead (Ne.symm h.1), ih h.2]

end

/-! ## Parts of a text -/

/-- The lead that is still due: the whole at the start of a line, and none inside. -/
def due (lead : List Char) (start : Bool) : List Char := if start then lead else []

/-- A part of a text and the same part with the lead put in front of its lines.  The part begins
    and ends at the start of a line, or inside one. -/
def Shifts (lead : List Char) (start ends : Bool) (text shifted : List Char) : Prop :=
  due lead start ++ shift lead text = shifted ++ due lead ends

namespace Shifts

variable {lead text text' rest rest' : List Char} {start middle ends : Bool}

theorem nil (start : Bool) : Shifts lead start start [] [] := by
  simp [Shifts, shift]

/-- **Parts are put together** where one ends as the other begins. -/
theorem append (h : Shifts lead start middle text text')
    (hrest : Shifts lead middle ends rest rest') :
    Shifts lead start ends (text ++ rest) (text' ++ rest') := by
  unfold Shifts at *
  rw [shift_append, ← List.append_assoc, h, List.append_assoc, hrest, List.append_assoc]

/-- A part inside a line. -/
theorem inside (h : '\n' ∉ text) : Shifts lead false false text text := by
  simp [Shifts, due, shift_of_notMem lead h]

theorem cons {c : Char} (hc : c ≠ '\n') (h : Shifts lead false ends text text') :
    Shifts lead false ends (c :: text) (c :: text') := by
  have hone : Shifts lead false false [c] [c] := inside (by simpa using Ne.symm hc)
  exact hone.append h

theorem lineFeed : Shifts lead false true ['\n'] ['\n'] := by
  simp [Shifts, due, shift_lineFeed]

theorem line (h : '\n' ∉ text) : Shifts lead true false text (lead ++ text) := by
  simp [Shifts, due, shift_of_notMem lead h]

/-- Lines have the lead in front of each. -/
theorem lines : ∀ {lines : List (List Char)}, (∀ line ∈ lines, '\n' ∉ line) →
    Shifts lead true true (unlines lines) (unlines (lines.map (lead ++ ·)))
  | [], _ => nil true
  | text :: lines, h => by
    rw [List.forall_mem_cons] at h
    exact ((line h.1).append lineFeed).append (Shifts.lines h.2)

theorem intercalate {separator separator' : List Char}
    (hseparator : Shifts lead ends start separator separator') :
    ∀ {text text' : List Char} {texts texts' : List (List Char)},
      Shifts lead start ends text text' → List.Forall₂ (Shifts lead start ends) texts texts' →
      Shifts lead start ends (separator.intercalate (text :: texts))
        (separator'.intercalate (text' :: texts'))
  | _, _, [], [], h, .nil => by
    rw [List.intercalate_singleton, List.intercalate_singleton]
    exact h
  | _, _, _ :: _, _ :: _, h, .cons hnext hrest => by
    rw [List.intercalate_cons_cons, List.intercalate_cons_cons]
    exact (h.append hseparator).append (intercalate hseparator hnext hrest)

theorem commaSeparated {texts texts' : List (List Char)}
    (h : List.Forall₂ (Shifts lead false false) texts texts') :
    Shifts lead false false (Reenact.commaSeparated texts) (Reenact.commaSeparated texts') := by
  cases h with
  | nil => exact nil false
  | cons hfirst hrest => exact intercalate (inside (by decide)) hfirst hrest

theorem parenthesized {texts texts' : List (List Char)}
    (h : List.Forall₂ (Shifts lead false false) texts texts') :
    Shifts lead false false (Reenact.parenthesized texts) (Reenact.parenthesized texts') :=
  (cons (by decide) (commaSeparated h)).append (inside (by decide))

end Shifts

/-! ## Trees whose texts are on one line -/

/-- The text has no line feed. -/
def isUnbroken (text : String) : Bool := !text.toList.contains '\n'

def Param.isUnbroken : Param → Bool
  | name n => Reenact.isUnbroken n
  | vararg => true

mutual

/-- No name, literal or raw text in the expression has a line feed, and each `if` statement in it
    has a clause. -/
def Expr.isUnbroken : Expr → Bool
  | .name n => Reenact.isUnbroken n
  | .text _ source | .number _ source | .raw source => Reenact.isUnbroken source
  | .boolean _ | .nil | .vararg => true
  | .binary _ left right | .logical _ left right => left.isUnbroken && right.isUnbroken
  | .unary _ argument => argument.isUnbroken
  | .member base _ n => base.isUnbroken && Reenact.isUnbroken n
  | .index base key => base.isUnbroken && key.isUnbroken
  | .call base arguments => base.isUnbroken && Expr.areUnbroken arguments
  | .tableCall base fields => base.isUnbroken && Field.areUnbroken fields
  | .textCall base _ source => base.isUnbroken && Reenact.isUnbroken source
  | .table fields => Field.areUnbroken fields
  | .function params body => params.all Param.isUnbroken && Stat.areUnbroken body

/-- This holds of all expressions. -/
def Expr.areUnbroken : List Expr → Bool
  | [] => true
  | e :: rest => e.isUnbroken && Expr.areUnbroken rest

/-- This holds of the field. -/
def Field.isUnbroken : Field → Bool
  | .keyed key value => key.isUnbroken && value.isUnbroken
  | .named n value => Reenact.isUnbroken n && value.isUnbroken
  | .positional value => value.isUnbroken

/-- This holds of all fields. -/
def Field.areUnbroken : List Field → Bool
  | [] => true
  | f :: rest => f.isUnbroken && Field.areUnbroken rest

/-- No name, literal or raw text in the statement has a line feed, and each `if` statement in it has
    a clause. -/
def Stat.isUnbroken : Stat → Bool
  | .localNames names values => names.all Reenact.isUnbroken && Expr.areUnbroken values
  | .function name _ params body =>
    Expr.isUnbrokenIfAny name && params.all Param.isUnbroken && Stat.areUnbroken body
  | .call expr => expr.isUnbroken
  | .assign targets values => Expr.areUnbroken targets && Expr.areUnbroken values
  | .branch clauses => !clauses.isEmpty && Clause.areUnbroken clauses
  | .ret values => Expr.areUnbroken values
  | .whileLoop condition body => condition.isUnbroken && Stat.areUnbroken body
  | .breakLoop => true
  | .block body => Stat.areUnbroken body
  | .repeatLoop body condition => Stat.areUnbroken body && condition.isUnbroken
  | .forRange n first last step body =>
    Reenact.isUnbroken n && first.isUnbroken && last.isUnbroken && Expr.isUnbrokenIfAny step &&
      Stat.areUnbroken body
  | .forEach names iterators body =>
    names.all Reenact.isUnbroken && Expr.areUnbroken iterators && Stat.areUnbroken body
  | .goto label => Reenact.isUnbroken label
  | .label n => Reenact.isUnbroken n

/-- This holds of all statements. -/
def Stat.areUnbroken : List Stat → Bool
  | [] => true
  | s :: rest => s.isUnbroken && Stat.areUnbroken rest

/-- This holds of the clause. -/
def Clause.isUnbroken : Clause → Bool
  | .ifThen condition body | .elseIf condition body =>
    condition.isUnbroken && Stat.areUnbroken body
  | .otherwise body => Stat.areUnbroken body

/-- This holds of all clauses. -/
def Clause.areUnbroken : List Clause → Bool
  | [] => true
  | c :: rest => c.isUnbroken && Clause.areUnbroken rest

/-- This holds of the expression, if there is one. -/
def Expr.isUnbrokenIfAny : Option Expr → Bool
  | none => true
  | some e => e.isUnbroken

end

/-! ## Deeper layouts -/

namespace Layout

/-- The layout `k` levels deeper. -/
def deeper (l : Layout) (k : Nat) : Layout := { l with depth := l.depth + k }

/-- What `k` levels put in front of a line. -/
def lead (l : Layout) (k : Nat) : List Char := List.replicate (l.indentWidth * k) ' '

/-- The line break is a line feed, and the separator ends with its only one. -/
structure BreaksLines (l : Layout) : Prop where
  lineBreak : l.lineBreak = "\n"
  separator : ∃ stem, l.separator.toList = stem ++ ['\n'] ∧ '\n' ∉ stem

theorem BreaksLines.nested {l : Layout} (hl : l.BreaksLines) : l.nested.BreaksLines :=
  ⟨hl.lineBreak, hl.separator⟩

theorem nested_deeper (l : Layout) (k : Nat) : (l.deeper k).nested = l.nested.deeper k := by
  simp [nested, deeper, Nat.add_right_comm]

end Layout

namespace Shifts

variable {l : Layout} {k : Nat} {start : Bool} {text text' : List Char}

theorem word (w : String) (h : isUnbroken w = true) :
    Shifts (l.lead k) false false w.toList w.toList :=
  inside (by simpa [isUnbroken] using h)

theorem indentation (l : Layout) (k : Nat) :
    Shifts (l.lead k) true false l.indentation (l.deeper k).indentation := by
  have hdeeper : (l.deeper k).indentation = l.lead k ++ l.indentation := by
    simp only [Layout.indentation, Layout.deeper, Layout.lead, List.replicate_append_replicate,
      ← Nat.mul_add, Nat.add_comm k]
  rw [hdeeper]
  exact line (by simp [Layout.indentation])

theorem lineBreak (hl : l.BreaksLines) :
    Shifts (l.lead k) false true l.lineBreak.toList (l.deeper k).lineBreak.toList := by
  have hsame : (l.deeper k).lineBreak = l.lineBreak := rfl
  rw [hsame, hl.lineBreak]
  exact lineFeed

theorem separator (hl : l.BreaksLines) :
    Shifts (l.lead k) false true l.separator.toList (l.deeper k).separator.toList := by
  obtain ⟨stem, hseparator, hstem⟩ := hl.separator
  have hsame : (l.deeper k).separator = l.separator := rfl
  rw [hsame, hseparator]
  exact (inside hstem).append lineFeed

/-- A body of whole lines makes a block, which ends inside the line of its closing word. -/
theorem blockText (hl : l.BreaksLines) {body : List Stat} (h : Shifts (l.nested.lead k) true true
      (Stat.writeAll l.nested body) (Stat.writeAll (l.nested.deeper k) body)) :
    Shifts (l.lead k) false false (l.blockText (Stat.writeAll l.nested body))
      ((l.deeper k).blockText (Stat.writeAll (l.deeper k).nested body)) := by
  rw [← l.nested_deeper] at h
  exact ((lineBreak hl).append h).append (indentation l k)

theorem endText (hl : l.BreaksLines) :
    Shifts (l.lead k) false true l.endText (l.deeper k).endText :=
  (inside (by decide)).append (separator hl)

/-- Fields on lines of their own make a table. -/
theorem tableText (hl : l.BreaksLines) {fields : List Field}
    (h : List.Forall₂ (Shifts (l.nested.lead k) true false) (Field.writeEach l.nested fields)
      (Field.writeEach (l.nested.deeper k) fields)) :
    Shifts (l.lead k) false false (l.tableText (Field.writeEach l.nested fields))
      ((l.deeper k).tableText (Field.writeEach (l.deeper k).nested fields)) := by
  cases fields with
  | nil => exact word "{}" (by decide)
  | cons f fields =>
    rw [← l.nested_deeper] at h
    obtain ⟨hfirst, hrest⟩ := List.forall₂_cons.1 h
    have hcomma : Shifts (l.lead k) false true (',' :: l.lineBreak.toList)
        (',' :: (l.deeper k).lineBreak.toList) := cons (by decide) (lineBreak hl)
    have hopen : Shifts (l.lead k) false true ('{' :: l.lineBreak.toList)
        ('{' :: (l.deeper k).lineBreak.toList) := cons (by decide) (lineBreak hl)
    exact (((hopen.append (intercalate hcomma hfirst hrest)).append (lineBreak hl)).append
      (indentation l k)).append (inside (by decide))

theorem headText (e : Expr) (h : Shifts (l.lead k) false false text text') :
    Shifts (l.lead k) false false (e.headText text) (e.headText text') := by
  unfold Expr.headText
  split
  · exact h
  · exact (cons (by decide) h).append (inside (by decide))

theorem names : ∀ {ns : List String}, ns.all isUnbroken = true →
    List.Forall₂ (Shifts (l.lead k) false false) (ns.map String.toList) (ns.map String.toList)
  | [], _ => .nil
  | n :: ns, h => by
    simp only [List.all_cons, Bool.and_eq_true] at h
    exact .cons (word n h.1) (names h.2)

theorem params : ∀ {ps : List Param}, ps.all Param.isUnbroken = true →
    List.Forall₂ (Shifts (l.lead k) false false) (ps.map Param.write) (ps.map Param.write)
  | [], _ => .nil
  | p :: ps, h => by
    simp only [List.all_cons, Bool.and_eq_true] at h
    refine .cons ?_ (params h.2)
    cases p with
    | name n => exact word n h.1
    | vararg => exact inside (by decide)

end Shifts

/-! ## Expressions and statements -/

section
variable {k : Nat}

mutual

/-- **An expression begins and ends inside a line.** -/
theorem Expr.shifts {l : Layout} (hl : l.BreaksLines) : ∀ e : Expr, e.isUnbroken = true →
    Shifts (l.lead k) false false (e.write l) (e.write (l.deeper k))
  | .name w, h | .text _ w, h | .number _ w, h | .raw w, h => Shifts.word w h
  | .boolean true, _ => Shifts.word "true" (by decide)
  | .boolean false, _ => Shifts.word "false" (by decide)
  | .nil, _ => Shifts.word "nil" (by decide)
  | .vararg, _ => Shifts.word "..." (by decide)
  | .binary op left right, h => by
    simp only [Expr.isUnbroken, Bool.and_eq_true] at h
    have hop : Shifts (l.lead k) false false op.symbol.toList op.symbol.toList :=
      .inside (by cases op <;> decide)
    exact (((left.shifts hl h.1).cons (by decide)).append (hop.cons (by decide))).append
      ((right.shifts hl h.2).cons (by decide)) |>.append (.inside (by decide))
  | .logical op left right, h => by
    simp only [Expr.isUnbroken, Bool.and_eq_true] at h
    have hop : Shifts (l.lead k) false false op.symbol.toList op.symbol.toList :=
      .inside (by cases op <;> decide)
    exact ((left.shifts hl h.1).append (hop.cons (by decide))).append
      ((right.shifts hl h.2).cons (by decide))
  | .unary op argument, h => by
    have hop : Shifts (l.lead k) false false op.symbol.toList op.symbol.toList :=
      .inside (by cases op <;> decide)
    exact hop.append ((argument.shifts hl h).cons (by decide))
  | .member base access n, h => by
    simp only [Expr.isUnbroken, Bool.and_eq_true] at h
    have haccess : Shifts (l.lead k) false false access.symbol.toList access.symbol.toList :=
      .inside (by cases access <;> decide)
    exact (((base.shifts hl h.1).headText base).append haccess).append (.word n h.2)
  | .index base key, h => by
    simp only [Expr.isUnbroken, Bool.and_eq_true] at h
    exact (((base.shifts hl h.1).headText base).append
      ((key.shifts hl h.2).cons (by decide))).append (.inside (by decide))
  | .call base arguments, h => by
    simp only [Expr.isUnbroken, Bool.and_eq_true] at h
    exact ((base.shifts hl h.1).headText base).append (.parenthesized (Expr.shiftsEach hl _ h.2))
  | .tableCall base fields, h => by
    simp only [Expr.isUnbroken, Bool.and_eq_true] at h
    have hfields := Field.shiftsEach hl.nested fields h.2
    exact (((base.shifts hl h.1).headText base).append
      ((Shifts.tableText hl hfields).cons (by decide))).append (.inside (by decide))
  | .textCall base _ source, h => by
    simp only [Expr.isUnbroken, Bool.and_eq_true] at h
    exact (((base.shifts hl h.1).headText base).append
      ((Shifts.word source h.2).cons (by decide))).append (.inside (by decide))
  | .table fields, h => by
    have hfields := Field.shiftsEach hl.nested fields h
    exact .tableText hl hfields
  | .function params body, h => by
    simp only [Expr.isUnbroken, Bool.and_eq_true] at h
    have hbody := Stat.shiftsAll hl.nested body h.2
    have hhead := (Shifts.word "(function" (by decide)).append
      (.parenthesized (Shifts.params (l := l) (k := k) h.1))
    exact (hhead.append (.blockText hl hbody)).append (.inside (by decide))

/-- Expressions begin and end inside a line. -/
theorem Expr.shiftsEach {l : Layout} (hl : l.BreaksLines) : ∀ es : List Expr,
    Expr.areUnbroken es = true → List.Forall₂ (Shifts (l.lead k) false false)
      (Expr.writeEach l es) (Expr.writeEach (l.deeper k) es)
  | [], _ => .nil
  | e :: rest, h => by
    simp only [Expr.areUnbroken, Bool.and_eq_true] at h
    exact .cons (e.shifts hl h.1) (Expr.shiftsEach hl rest h.2)

/-- A field begins at the start of a line, and ends inside one. -/
theorem Field.shifts {l : Layout} (hl : l.BreaksLines) : ∀ f : Field, f.isUnbroken = true →
    Shifts (l.lead k) true false (f.write l) (f.write (l.deeper k))
  | .keyed key value, h => by
    simp only [Field.isUnbroken, Bool.and_eq_true] at h
    exact (((Shifts.indentation l k).append ((key.shifts hl h.1).cons (by decide))).append
      (.inside (by decide))).append (value.shifts hl h.2)
  | .named n value, h => by
    simp only [Field.isUnbroken, Bool.and_eq_true] at h
    exact (((Shifts.indentation l k).append (.word n h.1)).append (.inside (by decide))).append
      (value.shifts hl h.2)
  | .positional value, h => (Shifts.indentation l k).append (value.shifts hl h)

/-- Fields begin at the start of a line, and end inside one. -/
theorem Field.shiftsEach {l : Layout} (hl : l.BreaksLines) : ∀ fs : List Field,
    Field.areUnbroken fs = true → List.Forall₂ (Shifts (l.lead k) true false)
      (Field.writeEach l fs) (Field.writeEach (l.deeper k) fs)
  | [], _ => .nil
  | f :: rest, h => by
    simp only [Field.areUnbroken, Bool.and_eq_true] at h
    exact .cons (f.shifts hl h.1) (Field.shiftsEach hl rest h.2)

/-- **A statement is whole lines:** it begins at the start of a line, and ends at that of
    another. -/
theorem Stat.shifts {l : Layout} (hl : l.BreaksLines) : ∀ s : Stat, s.isUnbroken = true →
    Shifts (l.lead k) true true (s.write l) (s.write (l.deeper k))
  | .localNames names values, h => by
    simp only [Stat.isUnbroken, Bool.and_eq_true] at h
    have hhead := ((Shifts.indentation l k).append
      (.word "local " (by decide))).append (.commaSeparated (Shifts.names h.1))
    have hvalues := Expr.shiftsEach hl values h.2
    cases values with
    | nil => exact (hhead.append (.nil false)).append (.separator hl)
    | cons value values =>
      exact (hhead.append ((Shifts.inside (by decide)).append
        (.commaSeparated hvalues))).append (.separator hl)
  | .function name isLocal params body, h => by
    simp only [Stat.isUnbroken, Bool.and_eq_true] at h
    obtain ⟨⟨hname, hparams⟩, hbody⟩ := h
    have hbody := Stat.shiftsAll hl.nested body hbody
    have hlocal : Shifts (l.lead k) false false (if isLocal then "local ".toList else [])
        (if isLocal then "local ".toList else []) :=
      .inside (by cases isLocal <;> decide)
    have hhead := (((Shifts.indentation l k).append hlocal).append
      (.word "function" (by decide))).append
      (Expr.shiftsIfAny hl [' '] (by decide) name hname)
    exact ((hhead.append (.parenthesized (Shifts.params hparams))).append
      (.blockText hl hbody)).append (.endText hl)
  | .call expr, h => ((Shifts.indentation l k).append (expr.shifts hl h)).append (.separator hl)
  | .assign targets values, h => by
    simp only [Stat.isUnbroken, Bool.and_eq_true] at h
    have htargets := (Shifts.indentation l k).append
      (.commaSeparated (Expr.shiftsEach hl targets h.1))
    exact ((htargets.append (.inside (by decide))).append
      (.commaSeparated (Expr.shiftsEach hl values h.2))).append (.separator hl)
  | .branch clauses, h => by
    simp only [Stat.isUnbroken, Bool.and_eq_true] at h
    have hclauses := (Shifts.indentation l k).append (Clause.shiftsAll hl clauses h.2)
    cases clauses with
    | nil => exact absurd h.1 (by decide)
    | cons clause clauses => exact hclauses.append (.endText hl)
  | .ret values, h => by
    have hhead := (Shifts.indentation l k).append (.word "return" (by decide))
    have hvalues := Expr.shiftsEach hl values h
    cases values with
    | nil => exact (hhead.append (.nil false)).append (.separator hl)
    | cons value values =>
      exact (hhead.append (.cons (by decide) (.commaSeparated hvalues))).append (.separator hl)
  | .whileLoop condition body, h => by
    simp only [Stat.isUnbroken, Bool.and_eq_true] at h
    have hbody := Stat.shiftsAll hl.nested body h.2
    have hhead := (((Shifts.indentation l k).append (.word "while " (by decide))).append
      (condition.shifts hl h.1)).append (.word " do" (by decide))
    exact (hhead.append (.blockText hl hbody)).append (.endText hl)
  | .breakLoop, _ =>
    ((Shifts.indentation l k).append (.word "break" (by decide))).append (.separator hl)
  | .block body, h => by
    have hbody := Stat.shiftsAll hl.nested body h
    exact (((Shifts.indentation l k).append (.word "do" (by decide))).append
      (.blockText hl hbody)).append (.endText hl)
  | .repeatLoop body condition, h => by
    simp only [Stat.isUnbroken, Bool.and_eq_true] at h
    have hbody := Stat.shiftsAll hl.nested body h.1
    have hhead := ((Shifts.indentation l k).append (.word "repeat" (by decide))).append
      (.blockText hl hbody)
    exact ((hhead.append (.word "until " (by decide))).append (condition.shifts hl h.2)).append
      (.separator hl)
  | .forRange n first last step body, h => by
    simp only [Stat.isUnbroken, Bool.and_eq_true] at h
    obtain ⟨⟨⟨⟨hn, hfirst⟩, hlast⟩, hstep⟩, hbody⟩ := h
    have hbody := Stat.shiftsAll hl.nested body hbody
    have hname := ((Shifts.indentation l k).append (.word "for " (by decide))).append (.word n hn)
    have hfirst := (hname.append (.word " = " (by decide))).append (first.shifts hl hfirst)
    have hlast := (hfirst.append (.word ", " (by decide))).append (last.shifts hl hlast)
    have hhead := (hlast.append (Expr.shiftsIfAny hl [',', ' '] (by decide) step hstep)).append
      (.word " do" (by decide))
    exact (hhead.append (.blockText hl hbody)).append (.endText hl)
  | .forEach names iterators body, h => by
    simp only [Stat.isUnbroken, Bool.and_eq_true] at h
    obtain ⟨⟨hnames, hiterators⟩, hbody⟩ := h
    have hbody := Stat.shiftsAll hl.nested body hbody
    have hhead := (((Shifts.indentation l k).append (.word "for " (by decide))).append
      (.commaSeparated (Shifts.names hnames))).append (.word " in " (by decide))
    have hall := (hhead.append (.commaSeparated (Expr.shiftsEach hl iterators hiterators))).append
      (.word " do" (by decide))
    exact (hall.append (.blockText hl hbody)).append (.endText hl)
  | .goto label, h =>
    (((Shifts.indentation l k).append (.word "goto " (by decide))).append (.word label h)).append
      (.separator hl)
  | .label n, h =>
    ((((Shifts.indentation l k).append (.word "::" (by decide))).append (.word n h)).append
      (.word "::" (by decide))).append (.separator hl)

/-- **Statements are whole lines.** -/
theorem Stat.shiftsAll {l : Layout} (hl : l.BreaksLines) : ∀ body : List Stat,
    Stat.areUnbroken body = true →
    Shifts (l.lead k) true true (Stat.writeAll l body) (Stat.writeAll (l.deeper k) body)
  | [], _ => .nil true
  | s :: rest, h => by
    simp only [Stat.areUnbroken, Bool.and_eq_true] at h
    exact (s.shifts hl h.1).append (Stat.shiftsAll hl rest h.2)

/-- A clause begins inside the line of its word, and ends inside that of the next one. -/
theorem Clause.shifts {l : Layout} (hl : l.BreaksLines) : ∀ c : Clause, c.isUnbroken = true →
    Shifts (l.lead k) false false (c.write l) (c.write (l.deeper k))
  | .ifThen condition body, h | .elseIf condition body, h => by
    simp only [Clause.isUnbroken, Bool.and_eq_true] at h
    have hbody := Stat.shiftsAll hl.nested body h.2
    exact (((Shifts.inside (by decide)).append (condition.shifts hl h.1)).append
      (.inside (by decide))).append (.blockText hl hbody)
  | .otherwise body, h => by
    have hbody := Stat.shiftsAll hl.nested body h
    exact (Shifts.inside (by decide)).append (.blockText hl hbody)

/-- Clauses begin and end inside a line. -/
theorem Clause.shiftsAll {l : Layout} (hl : l.BreaksLines) : ∀ cs : List Clause,
    Clause.areUnbroken cs = true →
    Shifts (l.lead k) false false (Clause.writeAll l cs) (Clause.writeAll (l.deeper k) cs)
  | [], _ => .nil false
  | c :: rest, h => by
    simp only [Clause.areUnbroken, Bool.and_eq_true] at h
    exact (c.shifts hl h.1).append (Clause.shiftsAll hl rest h.2)

/-- An expression behind a lead, if there is one, begins and ends inside a line. -/
theorem Expr.shiftsIfAny {l : Layout} (hl : l.BreaksLines) (lead : List Char)
    (hlead : '\n' ∉ lead) : ∀ e : Option Expr, Expr.isUnbrokenIfAny e = true →
    Shifts (l.lead k) false false (Expr.writeOptional lead l e)
      (Expr.writeOptional lead (l.deeper k) e)
  | none, _ => .nil false
  | some e, h => (Shifts.inside hlead).append (e.shifts hl h)

end

end

/-! ## Statements as lines -/

/-- A statement ends with the separator. -/
theorem Stat.exists_write {l : Layout} {s : Stat} (h : s.isUnbroken = true) :
    ∃ text, s.write l = text ++ l.separator.toList := by
  cases s with
  | branch clauses =>
    cases clauses with
    | nil => cases h
    | cons clause clauses => exact ⟨_, (List.append_assoc _ _ _).symm⟩
  | function | whileLoop | block | forRange | forEach =>
    exact ⟨_, (List.append_assoc _ _ _).symm⟩
  | _ => exact ⟨_, rfl⟩

/-- The text of statements is made of whole lines. -/
theorem Stat.exists_lines {l : Layout} (hl : l.BreaksLines) : ∀ {body : List Stat},
    Stat.areUnbroken body = true →
    ∃ lines, Stat.writeAll l body = unlines lines ∧ ∀ line ∈ lines, '\n' ∉ line
  | [], _ => ⟨[], rfl, nofun⟩
  | s :: rest, h => by
    simp only [Stat.areUnbroken, Bool.and_eq_true] at h
    obtain ⟨text, htext⟩ := Stat.exists_write (l := l) h.1
    obtain ⟨stem, hseparator, -⟩ := hl.separator
    obtain ⟨line, lines, hlines, hfirst⟩ := exists_unlines (text ++ stem)
    obtain ⟨more, hmore, hrest⟩ := Stat.exists_lines hl h.2
    refine ⟨line :: lines ++ more, ?_, ?_⟩
    · rw [unlines_append, ← hlines, ← hmore, Stat.writeAll, htext, hseparator, List.append_assoc,
        List.append_assoc, List.append_assoc, List.append_assoc]
    · intro row hrow
      rcases List.mem_append.1 hrow with hrow | hrow
      · exact hfirst row hrow
      · exact hrest row hrow

/-- **Indentation moves whole lines.**  Where lines are broken by single line feeds and no text in
    the statements has one, the statements are written as lines, and at a level that is `k` deeper
    as the same lines with the spaces of `k` levels in front of each. -/
theorem statements_indented {l : Layout} (hl : l.BreaksLines) {body : List Stat}
    (hbody : Stat.areUnbroken body = true) (k : Nat) :
    ∃ lines : List (List Char), (∀ line ∈ lines, '\n' ∉ line) ∧
      (Stat.render l body).toList = unlines lines ∧
      (Stat.render { l with depth := l.depth + k } body).toList =
        unlines (lines.map fun line => List.replicate (l.indentWidth * k) ' ' ++ line) := by
  obtain ⟨lines, htext, hlines⟩ := Stat.exists_lines hl hbody
  refine ⟨lines, hlines, ?_, ?_⟩
  · rw [Stat.render, String.toList_ofList, htext]
  · have hshifts := Stat.shiftsAll (k := k) hl body hbody
    have hsame : Shifts (l.lead k) true true (unlines lines) _ := .lines hlines
    rw [htext] at hshifts
    unfold Shifts at hshifts hsame
    rw [hsame] at hshifts
    rw [Stat.render, String.toList_ofList]
    exact (List.append_cancel_right hshifts).symm

/-- A function in a table in a condition, and a table in the condition behind a body without
    statements. -/
theorem nested_bodies_indented :
    let l : Layout := { separator := " ;\n", indentWidth := 3, depth := 1 }
    let condition : Expr := .table [.named "f" (.function [.vararg] [.ret [.table []], .goto "x"])]
    let body : List Stat :=
      [.branch [.ifThen condition [], .elseIf (.raw "") [.breakLoop],
        .otherwise [.repeatLoop [] (.call (.name "g") [.table [.positional (.ofText "a\tb")]])]]]
    l.BreaksLines ∧ Stat.areUnbroken body = true ∧
      ∃ lines : List (List Char), (∀ line ∈ lines, '\n' ∉ line) ∧
        (Stat.render l body).toList = unlines lines ∧
        (Stat.render { l with depth := l.depth + 2 } body).toList =
          unlines (lines.map fun line => List.replicate (3 * 2) ' ' ++ line) := by
  intro l condition body
  have hl : l.BreaksLines := ⟨rfl, [' ', ';'], by decide, by decide⟩
  have hbody : Stat.areUnbroken body = true := by decide
  exact ⟨hl, hbody, statements_indented hl hbody 2⟩

end Reenact
