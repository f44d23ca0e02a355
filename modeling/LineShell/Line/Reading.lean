import LineShell.Text.Blank
import LineShell.Line.Word
import LineShell.Line.Segment
import LineShell.Line.Redirection

/-!
What a line asks for, decided from its text alone: nothing, the end of the session, or a
pipeline whose last segment may redirect the final streams.
-/

namespace LineShell.Line

/-- The word that ends the session. -/
def exitWord : String := "exit"

/-- A pipeline to run: its stages in order and the files its streams go to. -/
structure Job where
  stages : List (List String)
  out : Option Redirection
  err : Option Redirection
  deriving DecidableEq, Repr

inductive Reading
  /-- Nothing to run. -/
  | idle
  /-- The first word ends the session, whatever follows. -/
  | leave
  | run (job : Job)
  deriving DecidableEq, Repr

/-- The job of some segments, the last of which is read as a command: none if no segment
is there or the last keeps no argument. Redirections are the last segment's alone; in the
others operators are arguments. -/
def job? (segs : List (List String)) : Option Job :=
  match segs.getLast? with
  | none => none
  | some final =>
      let c := Command.ofWords final
      if c.args = [] then none else some ⟨segs.dropLast ++ [c.args], c.out, c.err⟩

def Reading.ofWords (ws : List String) : Reading :=
  if ws.head? = some exitWord then .leave
  else
    match job? (segments ws) with
    | none => .idle
    | some job => .run job

/-- How a line is read, blank or not, with white space around it left out. -/
def Reading.ofLine (line : String) : Reading :=
  Reading.ofWords (words (Text.trim line))

example : Reading.ofLine "  exit | cat > f" = .leave := by decide +kernel
example : Reading.ofLine "echo hi | > f" = .idle := by decide +kernel
example : Reading.ofLine "a > x | b > y" =
    .run ⟨[["a", ">", "x"], ["b"]], some ⟨"y", false⟩, none⟩ := by decide +kernel

end LineShell.Line
