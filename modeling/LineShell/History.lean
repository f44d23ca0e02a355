import LineShell.Files.Access
import LineShell.Text.Blank

/-!
The command history: the lines of a session, oldest first, and how many of them need no
saving because they came from a file or went into one.
-/

namespace LineShell

structure History where
  entries : List String := []
  /-- The entries before this count are not appended to a file again. -/
  saved : Nat := 0
  deriving DecidableEq, Repr

namespace History

def push (h : History) (line : String) : History :=
  { h with entries := h.entries ++ [line] }

/-- The lines of a text that hold more than white space, without the white space around
them. -/
def linesOf (s : String) : List String :=
  ((s.toList.splitOn '\n').map Text.trimChars).filter (· ≠ []) |>.map String.ofList

/-- Takes in the lines of a text; nothing is left to be appended. -/
def absorb (h : History) (s : String) : History :=
  let entries := h.entries ++ linesOf s
  { entries := entries, saved := entries.length }

/-- Entries as a file holds them, each on a line. -/
def fileText (entries : List String) : String :=
  String.join (entries.map (· ++ "\n"))

/-- The entries that the next append writes. -/
def pending (h : History) : List String :=
  h.entries.drop h.saved

def readFrom (h : History) (w : World) (path : String) : Except ShellError History :=
  match w.readText path with
  | .error fault => .error (.history path fault)
  | .ok s => .ok (h.absorb s)

def writeTo (h : History) (w : World) (path : String) : Except ShellError World :=
  match w.writeFile path (Bytes.ofText (fileText h.entries)) with
  | .error fault => .error (.history path fault)
  | .ok w => .ok w

def appendTo (h : History) (w : World) (path : String) :
    Except ShellError (History × World) :=
  match w.appendFile path (Bytes.ofText (fileText h.pending)) with
  | .error fault => .error (.history path fault)
  | .ok w => .ok ({ h with saved := h.entries.length }, w)

/-- How many entries a listing leaves out: all but the last `limit`, none if there are no
more than that or the limit is zero. -/
def skipped (h : History) : Option Nat → Nat
  | none => 0
  | some limit => if limit = 0 then 0 else h.entries.length - limit

/-- An entry as the listing shows it, with its number in the whole history. -/
def entryLine (index : Nat) (entry : String) : String :=
  "    " ++ toString (index + 1) ++ "  " ++ entry ++ "\n"

/-- The listing of the last entries, or of all. -/
def listing (h : History) (limit : Option Nat) : String :=
  String.join ((h.entries.mapIdx entryLine).drop (h.skipped limit))

end History

end LineShell
