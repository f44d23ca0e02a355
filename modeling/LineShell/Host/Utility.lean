import LineShell.Machine
import LineShell.Host.Stream
import LineShell.Host.Manner
import LineShell.Host.Print

/-!
The utilities of the machine that work on streams: each is a function from the files, its
arguments and its input to what it writes.
-/

namespace LineShell

/-- What a utility has done: its writes, its exit status and what it left unread. -/
structure Deed where
  writes : List (Channel × Bytes) := []
  endless : Bytes := []
  status : Nat := 0
  rest : Feed := {}
  deriving Repr

namespace Utility

/-- Some output and no more. -/
def answer (b : Bytes) : Deed :=
  { writes := [(.out, b)] }

def complaint (s : String) : Channel × Bytes :=
  (.err, Bytes.ofText s)

/-- The wording of a fault without its number. -/
def reason : Fault → String
  | .system code => Fault.systemText code
  | fault => fault.message

/-- The files that a utility has to do with by way of its streams: the one that it reads, if
its input is a file, and the one that it writes to. -/
structure Ties where
  source : Option NodeId := none
  target : Option NodeId := none
  /-- What is written is lost without a trace. -/
  vain : Bool := false
  deriving DecidableEq, Repr

/-- One more operand copied to the output: a file, or the input for a dash. A file that the
output goes to is refused unless it is empty. -/
def copy (w : World) (ties : Ties) (d : Deed) (operand : String) : Deed :=
  let refused (why : String) : Deed :=
    { d with
      writes := d.writes ++ [complaint ("cat: " ++ operand ++ ": " ++ why ++ "\n")], status := 1 }
  let own (id : NodeId) : Bool :=
    ties.target == some id &&
      (w.tree.content? id != some [] || d.writes.any fun (c, b) => c = .out ∧ b ≠ [])
  if d.endless ≠ [] then d
  else if operand = "-" then
    if ties.source.any own then refused "input file is output file"
    else
      { d with writes := d.writes ++ [(.out, d.rest.head)], endless := d.rest.cycle, rest := {} }
  else
    match w.locate operand with
    | .error fault => refused (reason fault)
    | .ok id =>
        match w.tree.content? id with
        | none => refused (reason .isDirectory)
        | some content =>
            if own id then refused "input file is output file"
            else { d with writes := d.writes ++ [(.out, content)] }

/-- Some writes with what they put out shown in a manner. -/
def displayed (m : Manner) (p : Manner.Progress) :
    List (Channel × Bytes) → List (Channel × Bytes) × Manner.Progress
  | [] => ([], p)
  | (.out, b) :: rest =>
      let (b, p) := m.display p b
      let (rest, p) := displayed m p rest
      ((.out, b) :: rest, p)
  | (.err, b) :: rest =>
      let (rest, p) := displayed m p rest
      ((.err, b) :: rest, p)

/-- How often what repeats without end is numbered anew. Readers stop before that. -/
def numberedRounds : Nat := 1000

def cat (w : World) (ties : Ties) (feed : Feed) (words : List String) : Deed :=
  match Manner.ofWords {} words with
  | .error message =>
      { writes := [complaint ("cat: " ++ message ++ "\n" ++
          "Try 'cat --help' for more information.\n")]
        status := 1, rest := feed }
  | .ok (m, operands) =>
      let d := (if operands = [] then ["-"] else operands).foldl (copy w ties) { rest := feed }
      let (writes, p) := displayed m {} d.writes
      if d.endless = [] then { d with writes := writes ++ [(.out, Manner.remnant p)] }
      else
        let rounds := if m.numbered ∨ m.numberedFilled then numberedRounds else 1
        let (first, p) := m.displayTimes d.endless rounds p
        { d with writes := writes ++ [(.out, first)], endless := (m.display p d.endless).1 }

/-- The characters of a set, ranges spelled out. -/
def members : List Char → List Char
  | a :: '-' :: b :: rest =>
      (List.range (b.toNat + 1 - a.toNat)).map (fun i => Char.ofNat (a.toNat + i)) ++ members rest
  | c :: rest => c :: members rest
  | [] => []

def setOf (s : String) : Bytes :=
  Bytes.ofText (String.ofList (members s.toList))

/-- The byte at the same place in the second set; its last byte stands for all places
beyond it. A byte outside the first set stays. -/
def exchange (source target : Bytes) (b : UInt8) : UInt8 :=
  match source.idxOf? b with
  | some i => (target[i]?.or target.getLast?).getD b
  | none => b

def tr (feed : Feed) (source target : String) : Deed :=
  let f := feed.map (exchange (setOf source) (setOf target))
  { writes := [(.out, f.head)], endless := f.cycle }

/-- The lines of some bytes; the last needs no newline. -/
def lines (b : Bytes) : List Bytes :=
  let all := b.splitOn Bytes.newline
  if all.getLast? = some [] then all.dropLast else all

/-- The pattern stands somewhere in the line. -/
def occurs (pattern : Bytes) : Bytes → Bool
  | [] => pattern == []
  | b :: rest => pattern.isPrefixOf (b :: rest) || occurs pattern rest

/-- The line holds one of the patterns. -/
def holds (patterns : List Bytes) (line : Bytes) : Bool :=
  patterns.any (occurs · line)

/-- The lines that hold one of the patterns, each with a newline. -/
def matching (patterns : List Bytes) (b : Bytes) : Bytes :=
  ((lines b).filter (holds patterns)).flatMap (· ++ [Bytes.newline])

/-- Searches the input for a fixed text, each line of which is a pattern of its own. Of input
with a NUL in it nothing is shown, only said that it matches, and not even that if all output
is in vain. -/
def grep (ties : Ties) (feed : Feed) (pattern : String) : Deed :=
  let patterns := (Bytes.ofText pattern).splitOn Bytes.newline
  let feed := feed.partedByLine
  let found : Feed := { head := matching patterns feed.head, cycle := matching patterns feed.cycle }
  if found.once = [] then { status := 1 }
  else if ties.vain then {}
  else if feed.once.contains 0 then
    { writes := [complaint "grep: (standard input): binary file matches\n"] }
  else { writes := [(.out, found.head)], endless := found.cycle }

def pageSize : Nat := 4096

/-- Counts the bytes of the input. Those of a file are not read, for its size tells how many
are left; but the size of whole pages is not trusted, and then the file is read on as far
behind the present place as its last page lies behind the start. -/
def countBytes (feed : Feed) : Nat × Feed :=
  match feed.before with
  | none => (feed.head.length, {})
  | some before =>
      let size := before + feed.head.length
      let leap := size - size % (pageSize + 1)
      if size % pageSize ≠ 0 then (feed.head.length, feed)
      else if before < leap then (leap - before + (size - (before + leap)), {})
      else (feed.head.length, {})

/-- Counts the bytes of the input, or its newlines. -/
def wc (feed : Feed) (option : String) : Deed :=
  let (n, rest) :=
    if option = "-l" then (feed.head.count Bytes.newline, {}) else countBytes feed
  { answer (Bytes.ofText (toString n ++ "\n")) with rest := rest }

/-- The path of the working directory, which is searched for in the directory above it. -/
def pwd (w : World) : Deed :=
  match w.workingPath with
  | .ok path => answer (Bytes.ofText (path ++ "\n"))
  | .error _ =>
      { writes := [complaint "pwd: couldn't find directory entry in ‘..’ with matching i-node\n"]
        status := 1 }

def yes (words : List String) : Deed :=
  { endless := Bytes.ofText (String.intercalate " " (if words = [] then ["y"] else words) ++ "\n") }

/-- What a utility says whose output cannot be written. -/
def writeComplaint (name : String) (fault : Fault) : Channel × Bytes :=
  let what := if name = "yes" then "standard output" else "write error"
  complaint (name ++ ": " ++ what ++ ": " ++ reason fault ++ "\n")

/-- The utility of a name, none for a name that has none. -/
def named? (name : String) (arguments : List Bytes) (w : World) (ties : Ties) (feed : Feed) :
    Option Deed :=
  let words := arguments.map fun b => b.textOrEmpty
  match name with
  | "cat" => some (cat w ties feed words)
  | "tr" => some (tr feed (words.headD "") (words.getLastD ""))
  | "grep" => some (grep ties feed (words.getLastD ""))
  | "wc" => some (wc feed (words.headD ""))
  | "pwd" => some { pwd w with rest := feed }
  | "yes" => some { yes words with rest := feed }
  | "echo" =>
      some { answer (Bytes.ofText (String.intercalate " " words ++ "\n")) with rest := feed }
  | "printf" => some { answer (Print.printf arguments) with rest := feed }
  | "true" | "sleep" => some { rest := feed }
  | "false" => some { rest := feed, status := 1 }
  | _ => none

/-- The names of the utilities. -/
def names : List String :=
  ["cat", "tr", "grep", "wc", "pwd", "yes", "echo", "printf", "true", "sleep", "false"]

end Utility

end LineShell
