/-
  What the path of an instance says.

  `path?` reads a path as source text is read, token by token: its origin, which is the root, the
  workspace or a detached object, and the selectors from there on, which are written in four ways.
  `Instance.wayUp` goes from an instance to where its path starts, whatever text that has.

  * `selector?_segment`: the segment of a name is read to its end, as the name;
  * `path_read`: a path is read as the origin where the way up ends and the objects passed on it;
  * `route_eq_of_path_eq`: so two instances with one path are reached in the same way.
-/
import Reenact.Instance.Path
import Reenact.Proofs.NumberLiterals
import Reenact.Proofs.TextLiterals

namespace Reenact

open Lexer

/-- Where a path starts. -/
inductive Origin where
  | game
  | workspace
  /-- An object that has no parent, by its name -/
  | detached (name : List Char)
deriving DecidableEq, Repr

/-- What selects an object from the one above it. -/
inductive Selector where
  /-- `.name`, `["name"]`, `['']` or `[utf8.char(…)]` -/
  | child (name : List Char)
  /-- `:GetService("class")` -/
  | service (className : List Char)
deriving DecidableEq, Repr

/-! ## Reading -/

/-- The text behind the given tokens, if they are the next ones. -/
def expect? : List Token → List Char → Option (List Char)
  | [], text => some text
  | t :: ts, text => do
    let (token, rest) ← next? text
    if token = t then expect? ts rest else none

/-- The character with the code point that digits give. -/
def codePoint? (digits : List Char) : Option Char :=
  let code := Nat.ofDigitChars 10 digits 0
  if digits.all Char.isDigit && code.isValidChar then some (Char.ofNat code) else none

/-- The characters with the code points up to a closing parenthesis, and the text behind that. -/
def codePoints? (text : List Char) : Option (List Char × List Char) :=
  match _ : next? text with
  | some (.number digits, rest) => do
    let c ← codePoint? digits
    match _ : next? rest with
    | some (.symbol [','], rest) =>
      let (more, behind) ← codePoints? rest
      return (c :: more, behind)
    | some (.symbol [')'], rest) => return ([c], rest)
    | _ => none
  | _ => none
termination_by text.length
decreasing_by exact Nat.lt_trans (next?_length ‹_›) (next?_length ‹_›)

/-- The selector that the text begins with, and the text behind it. -/
def selector? (text : List Char) : Option (Selector × List Char) := do
  match ← next? text with
  | (.symbol ['.'], rest) =>
    match ← next? rest with
    | (.name name, rest) =>
      if keywords.contains (String.ofList name) then none else return (.child name, rest)
    | _ => none
  | (.symbol ['['], rest) =>
    match ← next? rest with
    | (.text name, rest) => return (.child name, ← expect? [.symbol [']']] rest)
    | (.name ['u', 't', 'f', '8'], rest) =>
      let (name, rest) ←
        codePoints? (← expect? [.symbol ['.'], .name "char".toList, .symbol ['(']] rest)
      return (.child name, ← expect? [.symbol [']']] rest)
    | _ => none
  | (.symbol [':'], rest) =>
    match ← next? (← expect? [.name "GetService".toList, .symbol ['(']] rest) with
    | (.text className, rest) => return (.service className, ← expect? [.symbol [')']] rest)
    | _ => none
  | _ => none

theorem expect?_length : ∀ {ts : List Token} {text rest : List Char},
    expect? ts text = some rest → rest.length ≤ text.length
  | [], _, _, h => by cases h; exact Nat.le_refl _
  | t :: ts, text, rest, h => by
    simp only [expect?, Option.bind_eq_bind, Option.bind_eq_some_iff, Prod.exists] at h
    obtain ⟨token, ahead, hnext, h⟩ := h
    split at h
    · exact Nat.le_trans (expect?_length h) (Nat.le_of_lt (next?_length hnext))
    · cases h

theorem codePoints?_length {text rest name : List Char}
    (h : codePoints? text = some (name, rest)) : rest.length < text.length := by
  fun_induction codePoints? text generalizing name with
  | case1 text digits ahead hdigits ih =>
    have hlt := next?_length hdigits
    obtain ⟨c, -, h⟩ := Option.bind_eq_some_iff.1 h
    split at h
    · next behind hcomma =>
      obtain ⟨⟨more, last⟩, hmore, he⟩ := Option.bind_eq_some_iff.1 h
      cases he
      exact Nat.lt_trans (ih behind hcomma hmore) (Nat.lt_trans (next?_length hcomma) hlt)
    · next hclose =>
      cases h
      exact Nat.lt_trans (next?_length hclose) hlt
    · cases h
  | case2 => cases h

/-- A selector takes some of the text. -/
theorem selector?_length {text rest : List Char} {selector : Selector}
    (h : selector? text = some (selector, rest)) : rest.length < text.length := by
  simp only [selector?, Option.bind_eq_bind, Option.bind_eq_some_iff, Prod.exists] at h
  obtain ⟨token, ahead, hnext, h⟩ := h
  refine Nat.lt_of_le_of_lt ?_ (next?_length hnext)
  split at h
  · next heq =>
    -- a point
    cases heq
    obtain ⟨⟨token, behind⟩, hname, h⟩ := Option.bind_eq_some_iff.1 h
    have hlt := next?_length hname
    split at h
    · next heq =>
      cases heq
      split at h
      · cases h
      · cases h
        exact Nat.le_of_lt hlt
    · cases h
  · next heq =>
    -- a bracket, with a string or with code points
    cases heq
    obtain ⟨⟨token, behind⟩, hname, h⟩ := Option.bind_eq_some_iff.1 h
    have hlt := next?_length hname
    split at h
    · next heq =>
      cases heq
      obtain ⟨last, hclose, he⟩ := Option.bind_eq_some_iff.1 h
      cases he
      exact Nat.le_trans (expect?_length hclose) (Nat.le_of_lt hlt)
    · next heq =>
      cases heq
      obtain ⟨points, hopen, h⟩ := Option.bind_eq_some_iff.1 h
      obtain ⟨⟨name, last⟩, hpoints, h⟩ := Option.bind_eq_some_iff.1 h
      obtain ⟨last', hclose, he⟩ := Option.bind_eq_some_iff.1 h
      cases he
      have hopen := expect?_length hopen
      have hpoints := codePoints?_length hpoints
      have hclose := expect?_length hclose
      dsimp only at hclose
      omega
    · cases h
  · next heq =>
    -- a colon
    cases heq
    obtain ⟨inner, hopen, h⟩ := Option.bind_eq_some_iff.1 h
    obtain ⟨⟨token, behind⟩, hname, h⟩ := Option.bind_eq_some_iff.1 h
    have hlt := next?_length hname
    split at h
    · next heq =>
      cases heq
      obtain ⟨last, hclose, he⟩ := Option.bind_eq_some_iff.1 h
      cases he
      have hopen := expect?_length hopen
      have hclose := expect?_length hclose
      omega
    · cases h
  · cases h

/-- The selectors up to the end of the text. -/
def selectors? (text : List Char) : Option (List Selector) :=
  if text.isEmpty then some []
  else
    match _ : selector? text with
    | some (selector, rest) => (selectors? rest).map (selector :: ·)
    | none => none
termination_by text.length
decreasing_by exact selector?_length ‹_›

/-- The text behind another that it begins with. -/
def behind? (lead text : List Char) : Option (List Char) :=
  if lead.isPrefixOf text then some (text.drop lead.length) else none

/-- Where the text starts, and the text behind that.  The name of a detached object has the mark
    right behind it. -/
def origin? (text : List Char) : Option (Origin × List Char) := do
  match ← next? text with
  | (.name name, rest) =>
    if name = "game".toList then return (.game, rest)
    else if name = "workspace".toList then return (.workspace, rest)
    else none
  | _ =>
    match ← selector? text with
    | (.child name, rest) => return (.detached name, ← behind? detachedMark.toList rest)
    | _ => none

/-- What a path says. -/
def path? (text : List Char) : Option (Origin × List Selector) := do
  let (origin, rest) ← origin? text
  return (origin, ← selectors? rest)

/-! ## The way up -/

namespace Node

/-- What selects an object from the one above it. -/
def selector (node : Node) : Selector :=
  match node.role with
  | .service => .service node.className.toList
  | .localPlayer => .child "LocalPlayer".toList
  | _ => .child node.name.toList

end Node

namespace Instance

/-- The objects passed on the way up, nearest first, and the one where the way ends: at the root, at
    the workspace, or where there is no parent. -/
def wayUp (node : Node) : List Node → List Node × Instance
  | [] => ([], { node with })
  | parent :: above =>
    if node.role = .dataModel ∨ node.role = .workspace then
      ([], { node with ancestors := parent :: above })
    else
      let (passed, last) := wayUp parent above
      (node :: passed, last)

/-- The origin that an object is. -/
def origin (i : Instance) : Origin :=
  if i.role = .dataModel then .game
  else if i.role = .workspace ∧ i.ancestors ≠ [] then .workspace
  else .detached i.name.toList

/-- How an instance is reached: from where the way up ends, and down through the objects passed. -/
def route (i : Instance) : Origin × List Selector :=
  let (passed, last) := wayUp i.toNode i.ancestors
  (last.origin, (passed.map Node.selector).reverse)

end Instance

/-! ## Segments -/

theorem expect?_next {t : Token} {text rest : List Char} (h : next? text = some (t, rest))
    (ts : List Token) : expect? (t :: ts) text = expect? ts rest := by
  rw [expect?, h]
  simp only [Option.bind_eq_bind, Option.bind_some, if_true]

theorem expect?_delimiter {d : Char} (hd : d ∈ delimiters) (rest : List Char) :
    expect? [.symbol [d]] (d :: rest) = some rest :=
  expect?_next (next?_delimiter hd rest) []

theorem next?_quoted {quote : Char} (hq : quote = '"' ∨ quote = '\'') (text rest : List Char) :
    next? (Quoted.write quote text ++ rest) = some (.text text, rest) := by
  rw [← Quoted.token?_write hq text rest]
  rcases hq with rfl | rfl <;> exact next?_of_not_space (by decide) (by decide) _

namespace Segment

/-- A name that is not written in brackets can stand behind a point. -/
theorem isWord_of_plain {name : List Char} (hne : name.isEmpty = false)
    (hquoted : isQuoted name = false) (hexotic : name.any isExotic = false) :
    IsWord name ∧ keywords.contains (String.ofList name) = false := by
  simp only [isQuoted, hexotic, Bool.not_false, Bool.and_true, Bool.or_eq_false_iff] at hquoted
  obtain ⟨⟨hdigit, hword⟩, hkeyword⟩ := hquoted
  have hall : name.all isWordChar = true := by
    rw [List.all_eq_not_any_not, hword]; rfl
  refine ⟨?_, hkeyword⟩
  cases name with
  | nil => cases hne
  | cons c name =>
    obtain ⟨hc, hname⟩ := Bool.and_eq_true_iff.1 (List.all_cons.symm.trans hall)
    exact ⟨c, name, rfl, hc, by simpa using hdigit, hname⟩

theorem codePoint?_digitsOf (c : Char) : codePoint? (digitsOf c.toNat) = some c := by
  have hcode : Nat.ofDigitChars 10 (digitsOf c.toNat) 0 = c.toNat := Nat.ofDigitChars_ten_toDigits
  have hvalid : c.toNat.isValidChar := c.valid
  simp only [codePoint?, isDigit_digitsOf, hcode, hvalid, decide_true, Bool.and_self, if_true,
    Char.ofNat_toNat]

theorem next?_digitsOf (n : Nat) {rest : List Char} (hrest : Apart joinsNumeral rest) :
    next? (digitsOf n ++ rest) = some (.number (digitsOf n), rest) := by
  exact next?_numeral (.of_digits (isDigit_digitsOf n) Nat.toDigits_ne_nil) hrest

/-- **Code points are read back**, also behind blanks. -/
theorem codePoints?_write (rest : List Char) : ∀ {name text : List Char}, name ≠ [] →
    next? text = next? (codePoints name ++ ')' :: rest) → codePoints? text = some (name, rest)
  | [c], text, _, htext => by
    have hw : codePoints [c] ++ ')' :: rest = digitsOf c.toNat ++ ')' :: rest := by
      simp [codePoints]
    have hdigits : next? (digitsOf c.toNat ++ ')' :: rest) =
        some (.number (digitsOf c.toNat), ')' :: rest) :=
      next?_digitsOf _ (apart_cons.2 (by decide))
    rw [codePoints?, htext, hw, hdigits]
    simp only [codePoint?_digitsOf, Option.bind_eq_bind, Option.bind_some]
    rw [next?_delimiter (d := ')') (by decide)]
    rfl
  | c :: d :: name, text, _, htext => by
    have hw : codePoints (c :: d :: name) ++ ')' :: rest =
        digitsOf c.toNat ++ ',' :: ' ' :: (codePoints (d :: name) ++ ')' :: rest) := by
      simp [codePoints, List.intercalate]
    have hdigits : ∀ rest, next? (digitsOf c.toNat ++ ',' :: rest) =
        some (.number (digitsOf c.toNat), ',' :: rest) :=
      fun rest => next?_digitsOf _ (apart_cons.2 (by decide))
    have hmore : codePoints? (' ' :: (codePoints (d :: name) ++ ')' :: rest)) =
        some (d :: name, rest) :=
      codePoints?_write rest (List.cons_ne_nil d name) (next?_space (by decide) _)
    rw [codePoints?, htext, hw, hdigits]
    simp only [codePoint?_digitsOf, Option.bind_eq_bind, Option.bind_some]
    rw [next?_delimiter (d := ',') (by decide)]
    simp only [hmore, Option.bind_some, Option.pure_def]

theorem selector?_quoted {quote : Char} (hq : quote = '"' ∨ quote = '\'') (name rest : List Char) :
    selector? ('[' :: (Quoted.write quote name ++ ']' :: rest)) = some (.child name, rest) := by
  have hopen : next? ('[' :: (Quoted.write quote name ++ ']' :: rest)) =
      some (.symbol ['['], Quoted.write quote name ++ ']' :: rest) := by
    refine next?_symbol (s := ['[']) (by decide) (apart_cons.2 ?_)
    rcases hq with rfl | rfl <;> decide
  rw [selector?, hopen]
  simp only [Option.bind_eq_bind, Option.bind_some, Option.pure_def, next?_quoted hq,
    expect?_delimiter (d := ']') (by decide)]

theorem expect?_codePoints (text : List Char) :
    expect? [.symbol ['.'], .name "char".toList, .symbol ['(']] (".char(".toList ++ text) =
      some text := by
  have hdot : next? (".char(".toList ++ text) = some (.symbol ['.'], "char(".toList ++ text) :=
    next?_symbol (s := ['.']) (by decide) (apart_cons.2 (by decide))
  have hchar : next? ("char(".toList ++ text) = some (.name "char".toList, '(' :: text) :=
    next?_word (w := "char".toList) ⟨'c', "har".toList, rfl, by decide⟩ (apart_cons.2 (by decide))
  rw [expect?_next hdot, expect?_next hchar, expect?_delimiter (by decide)]

theorem selector?_codePoints {name : List Char} (hne : name ≠ []) (rest : List Char) :
    selector? ("[utf8.char(".toList ++ (codePoints name ++ ")]".toList ++ rest)) =
      some (.child name, rest) := by
  have hopen : ∀ text, next? ("[utf8.char(".toList ++ text) =
      some (.symbol ['['], "utf8.char(".toList ++ text) := fun text =>
    next?_symbol (s := ['[']) (by decide) (apart_cons.2 (by decide))
  have hmodule : ∀ text, next? ("utf8.char(".toList ++ text) =
      some (.name ['u', 't', 'f', '8'], ".char(".toList ++ text) := fun text =>
    next?_word (w := "utf8".toList) ⟨'u', "tf8".toList, rfl, by decide⟩ (apart_cons.2 (by decide))
  have hpoints : codePoints? (codePoints name ++ ")]".toList ++ rest) =
      some (name, ']' :: rest) := by
    rw [List.append_assoc]
    exact codePoints?_write _ hne rfl
  rw [selector?, hopen]
  simp only [Option.bind_eq_bind, Option.bind_some, Option.pure_def, hmodule, expect?_codePoints,
    hpoints, expect?_delimiter (d := ']') (by decide)]

theorem selector?_word {name rest : List Char} (hname : IsWord name)
    (hkeyword : keywords.contains (String.ofList name) = false) (hrest : Apart isWordChar rest) :
    selector? ('.' :: (name ++ rest)) = some (.child name, rest) := by
  have hdot : next? ('.' :: (name ++ rest)) = some (.symbol ['.'], name ++ rest) := by
    obtain ⟨c, more, rfl, hc, hdigit, -⟩ := hname
    exact next?_symbol (s := ['.']) (by decide) (apart_cons.2 (joins_of_isWordChar hc hdigit _))
  rw [selector?, hdot]
  simp only [Option.bind_eq_bind, Option.bind_some, Option.pure_def, next?_word hname hrest,
    hkeyword, Bool.false_eq_true, if_false]

/-- **The segment of a name is read to its end, as the name**, if the text behind it does not go on
    with a letter, digit or underscore. -/
theorem selector?_segment (name : List Char) {rest : List Char} (hrest : Apart isWordChar rest) :
    selector? (write name ++ rest) = some (.child name, rest) := by
  unfold write
  split
  · rename_i hempty
    obtain rfl := List.isEmpty_iff.1 hempty
    exact selector?_quoted (Or.inr rfl) [] rest
  rename_i hempty
  split
  · rw [List.cons_append, List.cons_append, List.append_assoc]
    exact selector?_quoted (Or.inl rfl) name rest
  split
  · rw [List.append_assoc, List.append_assoc, ← List.append_assoc (codePoints name)]
    exact selector?_codePoints (by simpa using hempty) rest
  · rename_i hquoted hexotic
    obtain ⟨hword, hkeyword⟩ := isWord_of_plain (by simpa using hempty) (by simpa using hquoted)
      (by simpa using hexotic)
    exact selector?_word hword hkeyword hrest

end Segment

/-! ## Paths -/

/-- The text of a selector. -/
def Selector.write : Selector → List Char
  | .child name => Segment.write name
  | .service className => ":GetService(".toList ++ Quoted.write '"' className ++ [')']

theorem Selector.write_child (name : List Char) :
    (Selector.child name).write = Segment.write name := rfl

theorem Selector.write_service (className : List Char) : (Selector.service className).write =
    ":GetService(".toList ++ Quoted.write '"' className ++ [')'] := rfl

/-- The text of where a path starts. -/
def Origin.write : Origin → List Char
  | .game => "game".toList
  | .workspace => "workspace".toList
  | .detached name => Segment.write name ++ detachedMark.toList

theorem Origin.write_game : Origin.game.write = "game".toList := rfl

theorem Origin.write_workspace : Origin.workspace.write = "workspace".toList := rfl

theorem Origin.write_detached (name : List Char) :
    (Origin.detached name).write = Segment.write name ++ detachedMark.toList := rfl

/-- What comes behind a selector or an origin is no letter, digit or underscore. -/
theorem Segment.apart_write (name rest : List Char) : Apart isWordChar (write name ++ rest) := by
  unfold write
  repeat' split
  all_goals exact apart_cons.2 (by decide)

theorem Selector.apart_flatMap (selectors : List Selector) :
    Apart isWordChar (selectors.flatMap write) := by
  cases selectors with
  | nil => exact apart_nil _
  | cons selector selectors =>
    rw [List.flatMap_cons]
    cases selector with
    | child name => exact Segment.apart_write name _
    | service className => exact apart_cons.2 (by decide)

theorem expect?_getService (text : List Char) :
    expect? [.name "GetService".toList, .symbol ['(']] ("GetService(".toList ++ text) =
      some text := by
  have hname : next? ("GetService(".toList ++ text) =
      some (.name "GetService".toList, '(' :: text) :=
    next?_word (w := "GetService".toList) ⟨'G', "etService".toList, rfl, by decide⟩
      (apart_cons.2 (by decide))
  rw [expect?_next hname, expect?_delimiter (by decide)]

theorem selector?_service (className rest : List Char) :
    selector? (":GetService(".toList ++ (Quoted.write '"' className ++ ')' :: rest)) =
      some (.service className, rest) := by
  have hcolon : ∀ text, next? (":GetService(".toList ++ text) =
      some (.symbol [':'], "GetService(".toList ++ text) := fun text =>
    next?_symbol (s := [':']) (by decide) (apart_cons.2 (by decide))
  rw [selector?, hcolon]
  simp only [Option.bind_eq_bind, Option.bind_some, Option.pure_def, expect?_getService,
    next?_quoted (Or.inl rfl), expect?_delimiter (d := ')') (by decide)]

theorem selector?_write (selector : Selector) {rest : List Char} (hrest : Apart isWordChar rest) :
    selector? (selector.write ++ rest) = some (selector, rest) := by
  cases selector with
  | child name => rw [Selector.write_child, Segment.selector?_segment name hrest]
  | service className =>
    rw [Selector.write_service, List.append_assoc, List.append_assoc]
    exact selector?_service className rest

theorem Selector.write_ne_nil (selector : Selector) : selector.write ≠ [] := by
  intro h
  have hread := selector?_write selector (apart_nil _)
  have hnone : selector? [] = none := by
    rw [selector?, next?_nil]
    rfl
  rw [h, List.append_nil, hnone] at hread
  cases hread

theorem selectors?_write (selectors : List Selector) :
    selectors? (selectors.flatMap Selector.write) = some selectors := by
  induction selectors with
  | nil =>
    rw [selectors?]
    rfl
  | cons selector selectors ih =>
    have hne : (selector.write ++ selectors.flatMap Selector.write).isEmpty = false := by
      simp [selector.write_ne_nil]
    rw [List.flatMap_cons, selectors?, hne, selector?_write selector (Selector.apart_flatMap _)]
    simp only [Bool.false_eq_true, if_false, ih, Option.map_some]

theorem behind?_append (lead rest : List Char) : behind? lead (lead ++ rest) = some rest := by
  rw [behind?, if_pos (List.isPrefixOf_iff_prefix.2 (List.prefix_append _ _)), List.drop_left]

/-- What begins with a selector does not begin with a name. -/
theorem origin?_of_selector? {text name rest : List Char}
    (h : selector? text = some (.child name, rest)) :
    origin? text = (behind? detachedMark.toList rest).map fun rest => (.detached name, rest) := by
  have hread := h
  rw [selector?] at h
  cases hnext : next? text with
  | none => rw [hnext] at h; cases h
  | some token =>
    obtain ⟨token, more⟩ := token
    rw [hnext] at h
    rw [origin?, hnext]
    cases token with
    | name name => cases h
    | number digits => cases h
    | text value => cases h
    | symbol s =>
      simp only [Option.bind_eq_bind, Option.bind_some, Option.pure_def, hread]
      cases behind? detachedMark.toList rest <;> rfl

theorem origin?_game {rest : List Char} (hrest : Apart isWordChar rest) :
    origin? ("game".toList ++ rest) = some (.game, rest) := by
  have hname : next? ("game".toList ++ rest) = some (.name "game".toList, rest) :=
    next?_word ⟨'g', "ame".toList, rfl, by decide⟩ hrest
  rw [origin?, hname]
  rfl

theorem origin?_workspace {rest : List Char} (hrest : Apart isWordChar rest) :
    origin? ("workspace".toList ++ rest) = some (.workspace, rest) := by
  have hname : next? ("workspace".toList ++ rest) = some (.name "workspace".toList, rest) :=
    next?_word ⟨'w', "orkspace".toList, rfl, by decide⟩ hrest
  rw [origin?, hname]
  rfl

theorem origin?_write (origin : Origin) {rest : List Char} (hrest : Apart isWordChar rest) :
    origin? (origin.write ++ rest) = some (origin, rest) := by
  cases origin with
  | game => exact origin?_game hrest
  | workspace => exact origin?_workspace hrest
  | detached name =>
    have hsegment : selector? (Segment.write name ++ (detachedMark.toList ++ rest)) =
        some (.child name, detachedMark.toList ++ rest) :=
      Segment.selector?_segment name (apart_cons.2 (by decide))
    rw [Origin.write_detached, List.append_assoc, origin?_of_selector? hsegment, behind?_append]
    rfl

namespace Instance

theorem pathText_eq (node : Node) (above : List Node) :
    pathText node above = (wayUp node above).2.origin.write ++
      ((wayUp node above).1.map Node.selector).reverse.flatMap Selector.write := by
  induction above generalizing node with
  | nil =>
    by_cases hroot : node.role = .dataModel
    · simp [pathText, wayUp, origin, hroot, Origin.write_game]
    · simp [pathText, wayUp, origin, hroot, Origin.write_detached]
  | cons parent above ih =>
    have hdown : ∀ text, (Node.selector node).write = text →
        pathText parent above ++ text = (wayUp parent above).2.origin.write ++
          ((node :: (wayUp parent above).1).map Node.selector).reverse.flatMap Selector.write := by
      rintro text rfl
      rw [ih parent]
      simp
    cases hrole : node.role with
    | plain =>
      simp only [pathText, wayUp, hrole]
      exact hdown _ (by simp [Node.selector, hrole, Selector.write_child])
    | dataModel => simp [pathText, wayUp, origin, hrole, Origin.write_game]
    | workspace => simp [pathText, wayUp, origin, hrole, Origin.write_workspace]
    | service =>
      simp only [pathText, wayUp, hrole, List.append_assoc]
      exact hdown _ (by simp [Node.selector, hrole, Selector.write_service])
    | localPlayer =>
      have hplayer : Segment.write "LocalPlayer".toList = ".LocalPlayer".toList := by decide
      simp only [pathText, wayUp, hrole]
      exact hdown _ (by simp only [Node.selector, hrole, Selector.write_child, hplayer])

theorem path?_pathText (i : Instance) : path? (pathText i.toNode i.ancestors) = some i.route := by
  rw [pathText_eq, path?, origin?_write _ (Selector.apart_flatMap _)]
  simp only [Option.bind_eq_bind, Option.bind_some, selectors?_write, Option.pure_def]
  rfl

end Instance

/-- **A path says how its instance is reached**: it is read as `game`, `workspace` or a detached
    object, whichever the way up ends at, and the selectors of the objects passed, the nearest last.
    The names of all of them come back, whatever characters they have. -/
theorem path_read (i : Instance) : path? i.path.toList = some i.route := by
  rw [Instance.path, String.toList_ofList, Instance.path?_pathText]

example : Instance.route
      { debugId := "A", name := "2\n\"é", className := "Part", ancestors := [
        { debugId := "W", name := "Workspace", className := "Workspace", role := .workspace },
        Instance.game.toNode] } =
    (.workspace, [.child "2\n\"é".toList]) := by decide

/-- Instances with one path are reached in the same way. -/
theorem route_eq_of_path_eq {i j : Instance} (h : i.path = j.path) : i.route = j.route := by
  have htext := congrArg String.toList h
  rw [Instance.path, Instance.path, String.toList_ofList, String.toList_ofList] at htext
  refine Option.some.inj ?_
  rw [← Instance.path?_pathText i, ← Instance.path?_pathText j, htext]

end Reenact
