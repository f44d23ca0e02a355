import LineShell.Stream

/-!
What the shell asks of the editor that it reads lines with.
-/

namespace LineShell

/-- What comes of asking for a line. -/
inductive Read
  | line (s : String)
  /-- The line was given up; another one can be asked for. -/
  | interrupted
  /-- There are no more lines. -/
  | ended
  /-- No line can be read, for these causes, the outermost first. -/
  | failed (causes : List String)
  deriving DecidableEq, Repr

/-- A line editor. While it reads it may look at the files and at the streams, takes from the
input and shows something on the output. -/
structure LineReader where
  State : Type
  fresh : State
  /-- Takes up a line that can be called back later. -/
  remember : String → State → State
  /-- Asks for a line behind a prompt: what comes of it, what is left of the input and what has
  been shown. -/
  read : String → State → Console → Read × State × Feed × Bytes

/-- Asks for a line on a console. -/
def LineReader.ask (r : LineReader) (prompt : String) (st : r.State) (c : Console) :
    Read × r.State × Console :=
  let (read, st, rest, shown) := r.read prompt st c
  (read, st, { c.write .out shown with input := rest })

end LineShell
