import LineShell.Execution
import LineShell.Line.Reading

/-!
A session: its settings, its history and the evaluation of lines.
-/

namespace LineShell

structure Session where
  setting : Setting
  /-- The file that the history is loaded from and saved in. -/
  historyFile : Option String
  history : History
  deriving DecidableEq, Repr

/-- Opens the file of a redirection for writing. -/
def Line.Redirection.opened (r : Line.Redirection) (w : World) : Except Fault (Sink × World) :=
  match if r.append then w.openFile r.file else w.openNew r.file with
  | .ok (id, w) => .ok (.file id r.append 0, w)
  | .error fault => .error fault

/-- The sink that a redirection puts in the place of a stream's own, if it is there and its
file can be opened. If not, that is reported on the error stream. -/
def Console.redirect (c : Console) : Option Line.Redirection → Option Sink × Console
  | none => (none, c)
  | some r =>
      match r.opened c.world with
      | .ok (sink, w) => (some sink, { c with world := w })
      | .error fault => (none, c.print .err (ShellError.redirect r.file fault).line)

namespace Session

/-- A session with the history that its file holds. A missing file is no error; any other
failure is there to be reported. -/
def start (setting : Setting) (historyFile : Option String) (w : World) :
    Session × Option ShellError :=
  let fresh : Session := ⟨setting, historyFile, {}⟩
  match historyFile with
  | none => (fresh, none)
  | some path =>
      match fresh.history.readFrom w path with
      | .ok h => ({ fresh with history := h }, none)
      | .error e => (fresh, if e = .history path .notFound then none else some e)

/-- Runs a job with its streams redirected. The output's file is opened first; failures go
to the error stream as it was before. Afterwards the streams are what they were. -/
def runJob (m : Machine) (s : Session) (c : Console) (job : Line.Job) : Outcome :=
  let (out, c) := c.redirect job.out
  let (err, c) := c.redirect job.err
  let o := execute m s.setting s.history
    { c with out := out.getD c.out, err := err.getD c.err } job.stages
  { o with
    console :=
      { o.console with
        out := if out.isSome then c.out else o.console.out
        err := if err.isSome then c.err else o.console.err } }

/-- Evaluates a line. If it is not blank it enters the history, trimmed, before anything
else is done with it. -/
def eval (m : Machine) (s : Session) (c : Console) (line : String) :
    Flow × Session × Console :=
  let line := Text.trim line
  if line = "" then (.proceed, s, c)
  else
    let s := { s with history := s.history.push line }
    match Line.Reading.ofLine line with
    | .idle => (.proceed, s, c)
    | .leave => (.leave, s, c)
    | .run job =>
        let o := s.runJob m c job
        (o.flow, { s with history := o.history }, o.console)

/-- Writes the whole history into its file, from the present working directory on. -/
def save (s : Session) (w : World) : World × Option ShellError :=
  match s.historyFile with
  | none => (w, none)
  | some path =>
      match s.history.writeTo w path with
      | .ok w => (w, none)
      | .error e => (w, some e)

theorem eval_setting (m : Machine) (s : Session) (c : Console) (line : String) :
    (s.eval m c line).2.1.setting = s.setting ∧
      (s.eval m c line).2.1.historyFile = s.historyFile := by
  unfold eval
  dsimp only
  split
  · exact ⟨rfl, rfl⟩
  · split <;> exact ⟨rfl, rfl⟩

end Session

end LineShell
