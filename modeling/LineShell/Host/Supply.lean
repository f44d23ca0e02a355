import LineShell.Host.Stream

/-!
The supply of lines. Input is read a block at a time, and what a block holds beyond the line
that is wanted is kept for the lines after it.
-/

namespace LineShell.Feed

/-- How many bytes are asked for at a time. -/
def blockSize : Nat := 8192

/-- The same stream with so many bytes before the repetition, if it has one. -/
def filled (n : Nat) (f : Feed) : Feed :=
  if f.cycle = [] then f
  else { f with head := f.head ++ (List.replicate (n / f.cycle.length + 1) f.cycle).flatten }

/-- No newline comes any more, and no end. -/
def lacksLine (ahead : Bytes) (f : Feed) : Bool :=
  f.cycle ≠ [] && !(ahead ++ f.once).contains Bytes.newline

/-- The next line without its newline, what is then read ahead, and the rest of the input. As
many blocks are read as the line needs. The last line needs no newline; after it there is
none. -/
def nextLine (ahead : Bytes) (f : Feed) : Option Bytes × Bytes × Feed :=
  if ahead.contains Bytes.newline then
    let line := ahead.takeWhile (· ≠ Bytes.newline)
    (some line, ahead.drop (line.length + 1), f)
  else if ahead = [] ∧ f.once = [] then (none, [], f)
  else
    let line := ahead ++ f.once.takeWhile (· ≠ Bytes.newline)
    let used := line.length + 1 - ahead.length
    let read := (used + blockSize - 1) / blockSize * blockSize
    let f := f.filled read
    (some line, (f.head.take read).drop used, f.drop read)

example : nextLine [97] { head := [98, 10, 99] } = (some [97, 98], [99], {}) := by decide
example : nextLine [] { head := [98] } = (some [98], [], {}) := by decide
example : nextLine [] {} = (none, [], {}) := by decide

end LineShell.Feed
