/-
  Names of objects stay inside comments.

  An object can have any name, and names are written into comments: of every handle in a snippet,
  and of every remote that the command line prints calls on.  A path has no line end
  (`Instance.oneLine_path`), so each of these comments is one line, and reading goes on right behind
  it.

  * `IsComment.next?`, `next?_comments`: a reader skips lines that are comments, and no more;
  * `isComment_handleLine`, `isComment_bannerLine`: the comment for a handle and a banner are such
    lines;
  * `Reconstruction.exists_lines`, `CommandLine.report_lines`: a snippet and an output as lines;
  * `names_stay_in_comments`: this for all objects, all calls with a script and all captures.
-/
import Reenact.Proofs.Indentation
import Reenact.Proofs.Preservation
import Reenact.Proofs.Reports
import Reenact.Proofs.Tokens
import Reenact.Proofs.Variables

namespace Reenact

/-! ## Comment lines -/

/-- The line is a comment on all that it holds: it starts as one, and has no control character. -/
def IsComment (line : List Char) : Prop := "-- ".toList <+: line ∧ OneLine line

namespace IsComment

variable {line : List Char}

theorem append {rest : List Char} (h : IsComment line) (hrest : OneLine rest) :
    IsComment (line ++ rest) :=
  ⟨h.1.trans (List.prefix_append _ _), h.2.append hrest⟩

/-- **A reader goes on behind a comment line.** -/
theorem next? (h : IsComment line) (rest : List Char) :
    Lexer.next? (line ++ '\n' :: rest) = Lexer.next? rest := by
  obtain ⟨⟨more, rfl⟩, hline⟩ := h
  have hmore : ∀ c ∈ ' ' :: more, (!Lexer.isLineEnd c) = true := by
    intro c hc
    have hcontrol : isControl c = false := hline c (List.mem_append_right ['-', '-'] hc)
    by_contra hend
    simp only [Lexer.isLineEnd, Bool.not_eq_true', Bool.not_eq_false, Bool.or_eq_true,
      beq_iff_eq] at hend
    rcases hend with rfl | rfl <;> cases hcontrol
  have hcomment : Lexer.comment? (' ' :: more ++ '\n' :: rest) = some ('\n' :: rest) := by
    have hdrop : Lexer.comment? (' ' :: more ++ '\n' :: rest) =
        some ((' ' :: more ++ '\n' :: rest).dropWhile fun c => !Lexer.isLineEnd c) := rfl
    rw [hdrop, List.dropWhile_append_of_pos hmore]
    rfl
  have hskip : Lexer.skip? ('-' :: '-' :: (' ' :: more ++ '\n' :: rest)) =
      Lexer.skip? ('\n' :: rest) := by
    rw [Lexer.skip?, hcomment]
  rw [Lexer.next?, Lexer.next?, ← Lexer.skip?_space (c := '\n') (by decide) rest, ← hskip]
  rfl

end IsComment

theorem next?_comments {lines : List (List Char)} (h : ∀ line ∈ lines, IsComment line)
    (rest : List Char) : Lexer.next? (unlines lines ++ rest) = Lexer.next? rest := by
  induction lines with
  | nil => rfl
  | cons line lines ih =>
    rw [List.forall_mem_cons] at h
    have hfirst := h.1.next? (unlines lines ++ rest)
    rw [← ih h.2, ← hfirst]
    simp [unlines]

/-! ## Handles -/

theorem oneLine_of_isName {n : String} (h : isName n = true) : OneLine n.toList := by
  obtain ⟨c, more, hn, hc, -, hmore⟩ := Lexer.isWord_of_isName h
  rw [hn]
  exact .cons (isControl_of_isWordChar hc) fun d hd =>
    isControl_of_isWordChar (List.all_eq_true.1 hmore d hd)

/-- A handle can be a variable, so it has no control character. -/
theorem OfPass.oneLine {taken : Nat → Prop} {given : Nat} {h : Handles}
    (ho : OfPass taken given h) : ∀ name ∈ h.names, OneLine name.toList := by
  intro name hname
  rcases ho name hname with rfl | ⟨p, -, rfl⟩ | ⟨p, n, -, rfl⟩
  · decide
  · exact oneLine_of_isName (LocalName.isName_ofKind _ _)
  · exact oneLine_of_isName (LocalName.isName_ofNested _ _ _)

/-- The handles of every snippet have no control characters. -/
theorem oneLine_handles {scene : Scene} {c : Call} {r : Reconstruction}
    (hr : reconstruct? scene c = some r) : ∀ name ∈ r.handles.names, OneLine name.toList := by
  obtain ⟨hs, -⟩ := Draft.ready_empty.writeArguments scene c.arguments
  rw [reconstruct?_eq (isSome_of_reconstruct? hr)] at hr
  obtain rfl := Option.some.inj hr
  exact (remoteTarget_handles hs scene c.remote).2.oneLine

/-- The comment that says which object a handle stands for, as a line. -/
def handleLine (entry : String × Instance) : List Char :=
  "-- ".toList ++ entry.1.toList ++ " = ".toList ++ entry.2.path.toList

theorem isComment_handleLine {entry : String × Instance} (hname : OneLine entry.1.toList) :
    IsComment (handleLine entry) := by
  have hlead : IsComment "-- ".toList := ⟨List.prefix_refl _, by decide⟩
  exact ((hlead.append hname).append (by decide)).append entry.2.oneLine_path

theorem handleComments_eq (settings : Settings) (entries : List (String × Instance)) :
    entries.flatMap (Reconstruction.handleComment ⟨settings, Instance.path⟩ {}) =
      unlines (entries.map handleLine) := by
  rw [unlines, List.flatMap_map]
  rfl

/-! ## Snippets as lines -/

theorem breaksLines_default : Layout.BreaksLines {} := ⟨rfl, [';'], rfl, by decide⟩

/-- The comments of the handles stand on lines of their own, behind the lines of the heading and of
    the function. -/
theorem Reconstruction.exists_lines (settings : Settings) (r : Reconstruction) :
    ∃ before behind, (r.text ⟨settings, Instance.path⟩ {}).toList =
      unlines (heading.toList :: [] :: before) ++
        (unlines (r.handles.entries.map handleLine) ++ behind) := by
  have hunbroken : Stat.areUnbroken [Resolution.function] = true := by decide +kernel
  obtain ⟨lines, hlines, -⟩ := Stat.exists_lines breaksLines_default hunbroken
  have hfunction : Resolution.function.write {} = unlines lines := by
    rw [← hlines, Stat.writeAll, Stat.writeAll, List.append_nil]
  rw [text, String.toList_ofList, write, preamble, handleComments_eq]
  split
  · next hempty =>
    rw [Roster.isEmpty, List.isEmpty_iff] at hempty
    rw [hempty]
    exact ⟨[], localsText {} r.locals ++ r.call.write {}, by simp [unlines]⟩
  · refine ⟨lines ++ [[]], (Resolution.bind r.handles).write {} ++ ['\n'] ++
      (localsText {} r.locals ++ r.call.write {}), ?_⟩
    rw [hfunction]
    simp [unlines]

/-! ## Outputs as lines -/

/-- The line over the calls on a remote. -/
def bannerLine (remote : Instance) : List Char :=
  "-- ==== ".toList ++ remote.path.toList ++ " ====".toList

theorem isComment_bannerLine (remote : Instance) : IsComment (bannerLine remote) := by
  have hlead : IsComment "-- ==== ".toList := ⟨by decide, by decide⟩
  exact (hlead.append remote.oneLine_path).append (by decide)

theorem banner_toList (remote : Instance) :
    (CommandLine.banner remote).toList = unlines [bannerLine remote] := by
  have hend : " ====\n".toList = " ====".toList ++ ['\n'] := by decide
  rw [CommandLine.banner, String.toList_append, String.toList_append, hend, unlines,
    List.flatMap_singleton]
  exact (List.append_assoc _ _ _).symm

/-- Texts with a line feed behind each make whole lines. -/
theorem exists_unlines_join (texts : List String) : ∃ lines,
    (String.join (texts.map (· ++ "\n"))).toList = unlines lines ∧ ∀ line ∈ lines, '\n' ∉ line := by
  induction texts with
  | nil => exact ⟨[], rfl, nofun⟩
  | cons text texts ih =>
    obtain ⟨line, lines, htext, hlines⟩ := exists_unlines text.toList
    obtain ⟨more, hmore, hrest⟩ := ih
    refine ⟨line :: lines ++ more, ?_, ?_⟩
    · rw [List.map_cons, String.join_cons, String.toList_append, String.toList_append, hmore,
        unlines_append, ← htext]
      rfl
    · intro row hrow
      rcases List.mem_append.1 hrow with hrow | hrow
      · exact hlines row hrow
      · exact hrest row hrow

/-- What is printed for a list of histories is made of whole lines, a banner over those of each. -/
theorem CommandLine.report_lines (c : Capture) (traced : Bool) :
    ∃ printed : History → List (List Char),
      (∀ h, unlines (printed h) =
          (String.join (h.calls.map fun call => renderCall c.settings call ++ "\n")).toList ∧
        ∀ line ∈ printed h, '\n' ∉ line) ∧
      (report c traced).output.toList =
        unlines ((Journal.recordAll { filter := c.filter } c.calls).visible.flatMap fun h =>
          bannerLine h.remote :: printed h) := by
  have hprinted : ∀ h : History, ∃ lines, unlines lines =
      (String.join (h.calls.map fun call => renderCall c.settings call ++ "\n")).toList ∧
        ∀ line ∈ lines, '\n' ∉ line := by
    intro h
    obtain ⟨lines, htext, hlines⟩ := exists_unlines_join (h.calls.map (renderCall c.settings))
    rw [List.map_map] at htext
    exact ⟨lines, htext.symm, hlines⟩
  choose printed hprinted hlines using hprinted
  refine ⟨printed, fun h => ⟨hprinted h, hlines h⟩, ?_⟩
  have hhistory : ∀ h, ((writeHistory c.settings h).1).toList =
      unlines (bannerLine h.remote :: printed h) := by
    intro h
    rw [← List.singleton_append, unlines_append, hprinted, writeHistory, List.map_map,
      String.toList_append, banner_toList]
    rfl
  rw [report, List.map_map]
  induction (Journal.recordAll { filter := c.filter } c.calls).visible with
  | nil => rfl
  | cons h rest ih =>
    rw [List.map_cons, String.join_cons, String.toList_append, ih, List.flatMap_cons,
      unlines_append, ← hhistory h]
    rfl

/-! ## All names -/

/-- **Names of objects stay inside comments.**  No path has a control character, whatever the names
    and classes on it are.  So the snippet of a call with a script has one line for each handle,
    each a comment that a reader skips as a whole; and the output for a capture is made of lines,
    with one line over the calls on each remote that is a comment too. -/
theorem names_stay_in_comments :
    (∀ i : Instance, OneLine i.path.toList) ∧
    (∀ (settings : Settings) (c : Call), c.script.isSome = true → ∃ r before behind,
      reconstruct? ⟨settings, Instance.path⟩ c = some r ∧
      (renderCall settings c).toList = unlines (heading.toList :: [] :: before) ++
        (unlines (r.handles.entries.map handleLine) ++ behind) ∧
      (∀ entry ∈ r.handles.entries, IsComment (handleLine entry)) ∧
      ∀ rest, Lexer.next? (unlines (r.handles.entries.map handleLine) ++ rest) =
        Lexer.next? rest) ∧
    ∀ (c : Capture) (traced : Bool),
      let shown := (Journal.recordAll { filter := c.filter } c.calls).visible
      (∃ printed : History → List (List Char),
        (CommandLine.report c traced).output.toList =
          unlines (shown.flatMap fun h => bannerLine h.remote :: printed h) ∧
        ∀ h, unlines (printed h) =
            (String.join (h.calls.map fun call => renderCall c.settings call ++ "\n")).toList ∧
          ∀ line ∈ printed h, '\n' ∉ line) ∧
      ∀ h ∈ shown, IsComment (bannerLine h.remote) := by
  refine ⟨Instance.oneLine_path, fun settings c hscript => ?_, fun c traced => ⟨?_, ?_⟩⟩
  · obtain ⟨r, hr, htext⟩ := renderCall_of_script settings hscript
    obtain ⟨before, behind, hlines⟩ := r.exists_lines settings
    have hcomments : ∀ entry ∈ r.handles.entries, IsComment (handleLine entry) :=
      fun entry hentry => isComment_handleLine (oneLine_handles hr _ (List.mem_map_of_mem hentry))
    exact ⟨r, before, behind, hr, htext ▸ hlines, hcomments,
      next?_comments (List.forall_mem_map.2 hcomments)⟩
  · obtain ⟨printed, hprinted, houtput⟩ := CommandLine.report_lines c traced
    exact ⟨printed, houtput, hprinted⟩
  · exact fun h _ => isComment_bannerLine h.remote

/-- Line ends and closing quotes and brackets are in the class of a service, in the name of a remote
    below it and in that of a part without a parent. -/
theorem broken_names_in_comments :
    let service : Node := ⟨"S", "Service", "Bad\")\nrun(\"", .service⟩
    let remote : Instance :=
      ⟨⟨"R", "x\nrun()", "RemoteEvent", .plain⟩, [service, Instance.game.toNode]⟩
    let part : Instance := ⟨⟨"P", "\r\n]]run()", "Part", .plain⟩, []⟩
    let c : Call := ⟨some part, [.reference part], remote, .remoteEvent, none, .game⟩
    let lines : List (List Char) :=
      ["-- _4lveInstance1 = [\"\\r\\n]]run()\"] --[[ PARENTED TO NIL OR DESTROYED ]]".toList,
        "-- RemoteInstance = game:GetService(\"Bad\\\")\\nrun(\\\"\")[\"x\\nrun()\"]".toList]
    c.script.isSome = true ∧ ∃ before behind,
      (renderCall {} c).toList =
        unlines (heading.toList :: [] :: before) ++ (unlines lines ++ behind) := by
  intro service remote part c lines
  obtain ⟨-, hsnippet, -⟩ := names_stay_in_comments
  obtain ⟨r, before, behind, hr, htext, -⟩ := hsnippet {} c rfl
  have hlines : (reconstruct? ⟨{}, Instance.path⟩ c).map
      (fun r => r.handles.entries.map handleLine) = some lines := by decide +kernel
  rw [hr] at hlines
  exact ⟨rfl, before, behind, Option.some.inj hlines ▸ htext⟩

end Reenact
