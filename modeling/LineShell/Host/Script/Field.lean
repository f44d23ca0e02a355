import LineShell.Host.Script.State

/-!
Fields: what the words of a script come to when they are filled in, and how a line that is
read is shared among variables.
-/

namespace LineShell.Script

/-- The fields of a word so far, and the one in progress if there is one. -/
structure Fields where
  done : List (List Mark) := []
  open? : Option (List Mark) := none
  /-- White space has closed the last field, which a separator may still belong to. -/
  parted : Bool := false

def isSpace (n : UInt8) : Bool :=
  n == 32 || n == 9 || n == 10

namespace Fields

def add (f : Fields) (marks : List Mark) : Fields :=
  { f with open? := some (f.open?.getD [] ++ marks), parted := false }

def addFirm (f : Fields) (b : Bytes) : Fields :=
  f.add (Mark.firm b)

def close (f : Fields) : Fields :=
  { done := f.done ++ f.open?.toList }

/-- Adds what is split at separators: white space only parts what stands around it, any other
separator ends a field. -/
def addSplit (f : Fields) (separators : Bytes) (b : Bytes) : Fields :=
  b.foldl
    (fun f n =>
      if !separators.contains n then f.add [(n, false)]
      else if isSpace n then
        if f.open?.isSome then { f.close with parted := true } else f
      else if f.parted then { f with parted := false }
      else { done := f.done ++ [f.open?.getD []] })
    f

def addAll (f : Fields) : List Bytes → Fields
  | [] => f
  | [b] => f.addFirm b
  | b :: rest => (f.addFirm b).close.addAll rest

end Fields

/-- How a value is filled into a word. -/
inductive Filling
  | quoted
  /-- Split into fields. -/
  | split
  /-- In one, but it may be a pattern. -/
  | whole
  deriving DecidableEq, Repr

/-- What is filled in quoted stays so in a word that is split. -/
def Filling.of (splits quoted : Bool) : Filling :=
  if quoted then .quoted else if splits then .split else .whole

namespace Fields

def addValue (f : Fields) (s : State) (filling : Filling) (b : Bytes) : Fields :=
  match filling with
  | .quoted => f.addFirm b
  | .split => f.addSplit s.separators b
  | .whole => f.add (b.map (·, false))

/-- All fields in one. -/
def joined (f : Fields) : List Mark :=
  List.intercalate [(32, true)] f.close.done

end Fields

/-- A filled-in output loses the newlines at its end. -/
def withoutEndNewlines (b : Bytes) : Bytes :=
  (b.reverse.dropWhile (· == Bytes.newline)).reverse

/-- What stands between arguments that are joined: the first separator, or nothing if there
is none. -/
def State.joint (s : State) : Bytes :=
  s.separators.take 1

/-- The number that a script takes for its own. -/
def selfNumber : Nat := 1000

/-- What a parameter stands for, none for a missing one. -/
def Parameter.value? (s : State) : Parameter → Option Bytes
  | .named name => s.value? name
  | .position n => s.arguments[n]?
  | .count => some (Bytes.ofText (toString (s.arguments.length - 1)))
  | .status => some (Bytes.ofText (toString s.status))
  | .self => some (Bytes.ofText (toString selfNumber))
  | .joined | .each =>
      if s.arguments.length ≤ 1 then none
      else some (List.intercalate s.joint (s.arguments.drop 1))

def Parameter.name : Parameter → String
  | .named name => name
  | .position n => toString n
  | .count => "#"
  | .status => "?"
  | .self => "$"
  | .joined => "*"
  | .each => "@"

def Fields.addParameter (f : Fields) (s : State) (filling : Filling) (p : Parameter) : Fields :=
  match p, filling with
  | .each, .quoted => f.addAll (s.arguments.drop 1)
  | .each, .split | .joined, .split =>
      let split := (s.arguments.drop 1).map fun b => (({} : Fields).addValue s .split b).close.done
      match split.flatten with
      | [] => f
      | first :: rest => rest.foldl (fun f marks => f.close.add marks) (f.add first)
  | p, filling => f.addValue s filling ((p.value? s).getD [])

/-- The fields, with paths in place of those that are patterns for some. -/
def State.filled (s : State) (f : Fields) : List Bytes :=
  f.close.done.flatMap fun marks =>
    match if Mark.wild marks ∧ !s.options.contains 'f' then s.world.paths marks else [] with
    | [] => [Mark.bytes marks]
    | paths => paths.map Bytes.ofText

/-- A value that begins with these characters. A tilde alone or before a slash stands for the
home directory. -/
def valueOf (cs : List Char) (rest : Word) : Word :=
  let plain (cs : List Char) : Word :=
    if cs = [] then rest else .text (Bytes.ofChars cs) .plain :: rest
  match cs with
  | '~' :: r => if (r = [] ∧ rest = []) ∨ r.head? = some '/' then home :: plain r else plain cs
  | cs => plain cs

/-- The name and the value of a word that assigns a variable. -/
def assignment? : Word → Option (String × Word)
  | .text b .plain :: rest =>
      let cs := b.chars
      let name := cs.takeWhile nameRest
      match cs.drop name.length with
      | '=' :: value =>
          if name.head?.any nameStart then some (String.ofList name, valueOf value rest) else none
      | _ => none
  | _ => none

/-- The assignments that a command starts with, and its other words. -/
def assignments : List Word → List (String × Word) × List Word
  | [] => ([], [])
  | w :: ws =>
      match assignment? w with
      | some a => let (more, rest) := assignments ws; (a :: more, rest)
      | none => ([], w :: ws)

/-- The marks of a line, whether a newline ended it, and what follows. Zeros are passed over.
Unless the line is taken raw, a backslash goes and gives the byte after it no meaning but its
own; before a newline both go, and the line goes on. -/
def marks (raw escaped : Bool) : Bytes → List Mark × Bool × Bytes
  | [] => ([], false, [])
  | n :: rest =>
      if n = 0 then marks raw escaped rest
      else if n = Bytes.newline then
        if escaped then marks raw false rest else ([], true, rest)
      else if n = Bytes.backslash ∧ !escaped ∧ !raw then marks raw true rest
      else
        let (line, ended, rest) := marks raw false rest
        ((n, escaped) :: line, ended, rest)

/-- A line parted among variables at separators; the last one takes what is left. -/
def share (separators : Bytes) (s : State) (line : List Mark) : List String → State
  | [] => s
  | name :: names =>
      let isPart (m : Mark) : Bool := !m.2 && separators.contains m.1
      let isGap (m : Mark) : Bool := isPart m && isSpace m.1
      let line := line.dropWhile isGap
      let first := line.takeWhile (!isPart ·)
      let behind := (line.drop first.length).dropWhile isGap
      let later := if behind.head?.any isPart then (behind.drop 1).dropWhile isGap else behind
      if names = [] then
        let whole := (line.reverse.dropWhile isGap).reverse
        s.assign name (Mark.bytes (if later = [] then first else whole))
      else share separators (s.assign name (Mark.bytes first)) later names

/-- Reads a line into variables. It fails if the input ends before the line does. -/
def readInto (s : State) (options : List String) : State :=
  let raw := options.contains "-r"
  let names := options.filter (· ≠ "-r")
  if names = [] then { s with status := 2 }.complain "read: arg count"
  else
    let (line, ended, rest) := marks raw false s.feed.head
    if ended ∨ s.feed.cycle = [] then
      share s.separators
        { s with feed := s.feed.ending rest.length, status := if ended then 0 else 1 } line names
    else
      let (line, ended, rest) := marks raw false s.feed.once
      share s.separators
        { s with feed := { s.feed with head := rest }, status := if ended then 0 else 1 } line
        names

end LineShell.Script
