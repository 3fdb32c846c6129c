/-
  The command line: a capture file in, the snippets of its calls out.

  The file is named by the first argument.  Its calls go into a journal, and for each remote that
  the filter shows there is a banner with its path and then the snippet of each of its calls.  What
  is to be said about the run goes to the error stream: the number of calls that were kept, the
  events if the run is traced, and that it is done; or why there was no run.

  * `run` is a whole run, for what was found under the name of the file, and `report` the part of it
    that follows the reading of a capture;
  * `Notice.line` are the lines of the error stream.
-/
import Reenact.Json.Capture
import Reenact.Journal
import Reenact.Reconstruction

namespace Reenact

namespace CommandLine

/-- The file that is read if none is named. -/
def defaultFile : String := "capture.json"

/-- The variable of the environment that turns tracing on if it is `1`. -/
def traceVariable : String := "REMOSPY_TRACE"

/-- The name of the capture file. -/
def fileName (arguments : List String) : String := arguments.head?.getD defaultFile

/-- What was found under the name of a file. -/
inductive Found where
  | nothing
  /-- A directory, or something else that is no file -/
  | noFile
  | contents (bytes : ByteArray)

/-- Why there is no run. -/
inductive Refusal where
  | missing
  | noFile
  /-- The bytes are not UTF-8 -/
  | noText
  | invalid (failure : Json.Failure)

/-- Something said on the error stream. -/
inductive Notice where
  | refused (file : String) (why : Refusal)
  | recorded (kept total : Nat)
  | event (e : Event)
  /-- All was written; the time that it took is added where the line is printed -/
  | finished

def Refusal.message (file : String) : Refusal → String
  | missing => s!"reading {file}: No such file or directory (os error 2)"
  | noFile => s!"{file} is not a file"
  | noText => s!"reading {file}: stream did not contain valid UTF-8"
  | invalid failure => s!"{file} is not a valid capture file: {failure.message}"

/-- A notice as a line. -/
def Notice.line : Notice → String
  | refused file why => "error: " ++ why.message file
  | recorded kept total => s!"recorded {kept} of {total} calls"
  | event e => e.line
  | finished => "reconstructed in"

/-- What a run leaves behind. -/
structure Outcome where
  succeeded : Bool
  output : String
  notices : List Notice

/-- The capture that was found, or why there is none. -/
def capture : Found → Except Refusal Capture
  | .nothing => .error .missing
  | .noFile => .error .noFile
  | .contents bytes =>
    match String.fromUTF8? bytes with
    | none => .error .noText
    | some text => (Json.decodeText Capture.ofJson text).mapError .invalid

/-- The line over the calls of a remote. -/
def banner (remote : Instance) : String := "-- ==== " ++ remote.path ++ " ====\n"

/-- The snippets of the calls on a remote, and their events. -/
def writeHistory (settings : Settings) (h : History) : String × List Event :=
  let written := h.calls.map (writeCall ⟨settings, Instance.path⟩ {})
  (banner h.remote ++ String.join (written.map fun w => w.1 ++ "\n"), written.flatMap (·.2))

/-- The report on a capture. -/
def report (c : Capture) (traced : Bool) : Outcome :=
  let journal := Journal.recordAll { filter := c.filter } c.calls
  let written := journal.visible.map (writeHistory c.settings)
  { succeeded := true
    output := String.join (written.map (·.1))
    notices :=
      .recorded journal.size c.calls.length ::
        ((if traced then written.flatMap fun w => w.2.map .event else []) ++ [.finished]) }

/-- A run for what was found under a name. -/
def run (file : String) (found : Found) (traced : Bool) : Outcome :=
  match capture found with
  | .ok c => report c traced
  | .error why => ⟨false, "", [.refused file why]⟩

end CommandLine

end Reenact
