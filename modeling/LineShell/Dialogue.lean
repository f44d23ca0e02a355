import LineShell.LineReader
import LineShell.Session

/-!
A session over all of its lines: they are read and evaluated one after the other until one ends
the session, none is left or none can be read; then the history is saved.
-/

namespace LineShell

/-- What the shell takes from its environment. -/
structure Environment where
  home : Option String := none
  path : Option String := none
  historyFile : Option String := none
  deriving Repr

namespace Environment

def setting (env : Environment) : Setting :=
  ⟨env.home, (env.path.map SearchPath.ofText).getD SearchPath.empty⟩

/-- The file of the history. An empty name is none. -/
def historyPath (env : Environment) : Option String :=
  env.historyFile.filter (· ≠ "")

end Environment

/-- The prompt in front of a line. -/
def prompt : String := "$ "

/-- How a session ends. -/
inductive Ending
  | done
  /-- The session failed, for these causes, the outermost first. -/
  | failed (causes : List String)
  deriving DecidableEq, Repr

namespace LineReader

/-- Takes up a line that has been read, if it is not blank. -/
def rememberLine (r : LineReader) (line : String) (st : r.State) : r.State :=
  if Text.trim line = "" then st else r.remember (Text.trim line) st

/-- Takes up the entries of a history, the oldest first. -/
def rememberAll (r : LineReader) (entries : List String) : r.State :=
  entries.foldl (fun st entry => r.remember entry st) r.fresh

end LineReader

namespace Session

variable (m : Machine) (r : LineReader)

/-- Reads and evaluates lines until one ends the session, there are no more or none can be read:
how that ends, and the session and the console then. It may go on for ever. -/
def evalAll (s : Session) (st : r.State) (c : Console) : Option (Ending × Session × Console) :=
  -- Made by tactics, the recursive calls carry no place in the file into the definition.
  match r.ask prompt st c with
  | (.line line, st, c) =>
      match s.eval m c line with
      | (.leave, s, c) => some (.done, s, c)
      | (.proceed, s, c) => by
          apply evalAll
          · exact s
          · exact r.rememberLine line st
          · exact c
  | (.interrupted, st, c) => by
      apply evalAll
      · exact s
      · exact st
      · exact c
  | (.ended, _, c) => some (.done, s, c)
  | (.failed causes, _, c) => some (.failed ("failed to read input" :: causes), s, c)
partial_fixpoint

end Session

/-- Reports an error, if there is one, on the error stream. -/
def Console.report (c : Console) : Option ShellError → Console
  | none => c
  | some e => c.print .err e.line

/-- A session with its history loaded, up to the last of its lines. -/
def dialogue (m : Machine) (r : LineReader) (env : Environment) (c : Console) :
    Option (Ending × Session × Console) :=
  let (s, e) := Session.start env.setting env.historyPath c.world
  s.evalAll m r (r.rememberAll s.history.entries) (c.report e)

/-- A whole session: however its lines come to an end, the history is saved then. -/
def converse (m : Machine) (r : LineReader) (env : Environment) (c : Console) :
    Option (Ending × Session × Console) :=
  (dialogue m r env c).map fun (ending, s, c) =>
    let (w, e) := s.save c.world
    (ending, s, ({ c with world := w }).report e)

/-- A run of the shell. If there is no editor to be had, for whatever causes, no line is read and
nothing is saved. -/
def runShell (m : Machine) (editor : Except (List String) LineReader) (env : Environment)
    (c : Console) : Option (Ending × Session × Console) :=
  match editor with
  | .ok r => converse m r env c
  | .error causes =>
      let (s, e) := Session.start env.setting env.historyPath c.world
      some (.failed ("failed to start line editor" :: causes), s, c.report e)

end LineShell
