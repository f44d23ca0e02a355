import LineShell.Files.Access

/-!
What kind of program a file holds, and what starting it comes to. Only the first bytes of a
file are looked at.
-/

namespace LineShell

inductive Image
  /-- A program of the machine itself, known by its name. -/
  | native (name : String)
  /-- A text for an interpreter, which may be given one option. -/
  | script (interpreter : Bytes) (option : Option Bytes)
  deriving DecidableEq, Repr

namespace Image

/-- The bytes that a program of the machine itself starts with. -/
def nativeMark : Bytes := [0x7f, 69, 76, 70, 32]

def nativeFile (name : String) : Bytes :=
  nativeMark ++ Bytes.ofText name

/-- The bytes that a script starts with, "#!". -/
def scriptMark : Bytes := [35, 33]

/-- How many bytes of a file tell its kind. -/
def windowSize : Nat := 256

/-- The first bytes of a file, zeros standing for what a shorter one lacks. -/
def window (content : Bytes) : Bytes :=
  content.take windowSize ++ List.replicate (windowSize - content.length) 0

/-- A space or a tab. -/
def isGap (n : UInt8) : Bool :=
  n == 32 || n == 9

def endsName (n : UInt8) : Bool :=
  isGap n || n == 0

def withoutEndGaps (b : Bytes) : Bytes :=
  (b.reverse.dropWhile isGap).reverse

/-- The part of the window after the mark in which a script names its interpreter: the first
line, or all but the last byte if no line ends there. In that case there is none unless the
name is seen to end. -/
def naming? (rest : Bytes) : Option Bytes :=
  let line := rest.takeWhile fun n => n ≠ Bytes.newline ∧ n ≠ 0
  if rest[line.length]? = some Bytes.newline then some line
  else if (rest.dropWhile isGap).any endsName then some rest.dropLast
  else none

/-- The interpreter and its option, which is all that follows the name up to a zero. -/
def ofNaming? (part : Bytes) : Option Image :=
  let named := (withoutEndGaps part).dropWhile isGap
  let interpreter := named.takeWhile (!endsName ·)
  match named with
  | [] => none
  | _ =>
      match named.drop interpreter.length with
      | n :: rest =>
          some (.script interpreter
            (if isGap n then some ((rest.dropWhile isGap).takeWhile (· ≠ 0)) else none))
      | [] => some (.script interpreter none)

/-- The image of a file, none for a file that the system has no way to start. -/
def ofBytes? (content : Bytes) : Option Image :=
  if scriptMark.isPrefixOf content then
    (naming? ((window content).drop scriptMark.length)).bind ofNaming?
  else if nativeMark.isPrefixOf content then
    some (.native (Bytes.textOrEmpty (content.drop nativeMark.length)))
  else none

example : ofBytes? (Bytes.ofText "#! \tbin/a  b c \nd") =
    some (.script (Bytes.ofText "bin/a") (some (Bytes.ofText "b c"))) := by
  decide +kernel
example : ofBytes? (Bytes.ofText "#!bin/a ") = some (.script (Bytes.ofText "bin/a") (some [])) := by
  decide +kernel
example : ofBytes? (Bytes.ofText "#!") = some (.script [] none) := by decide +kernel
example : ofBytes? (Bytes.ofText "#! \n") = none := by decide +kernel

end Image

/-- The most scripts that may be interpreters of one another. -/
def interpreterLimit : Nat := 6

namespace World

/-- The content of a file that is to be started. A file that is open for writing is busy. -/
def contentToStart (w : World) (busy : List NodeId) (path : String) : Except Fault Bytes :=
  match w.locate path with
  | .error fault => .error fault
  | .ok id =>
      match w.tree.node? id with
      | some (.file content mode) =>
          if !executableMode mode then .error .denied
          else if busy.contains id then .error .fileBusy
          else .ok content
      | _ => .error .denied

/-- Why a path that is no text leads nowhere: no file has its first name that is no text, if
the way there is open at all. -/
def straying (w : World) (path : Bytes) : Fault :=
  match (path.splitOn Bytes.slash).takeWhile fun b => (Bytes.text? b).isSome with
  | [] => .notFound
  | names =>
      match w.locate (Bytes.textOrEmpty (List.intercalate [Bytes.slash] (names ++ [[]]))) with
      | .error fault => fault
      | .ok _ => .notFound

/-- The program that starting a file comes to, and its arguments. An interpreter gets its
option and the path of the script in front of the script's arguments. An interpreter without
a name is taken for the working directory, which nobody may execute. -/
def load (w : World) (busy : List NodeId) :
    Nat → String → List Bytes → Except Fault (String × List Bytes)
  | 0, path, _ =>
      match w.contentToStart busy path with
      | .error fault => .error fault
      | .ok _ => .error .tooManyLinks
  | depth + 1, path, arguments =>
      match w.contentToStart busy path with
      | .error fault => .error fault
      | .ok content =>
          match Image.ofBytes? content with
          | none => .error .notExecutable
          | some (.native name) => .ok (name, arguments)
          | some (.script [] _) => .error .denied
          | some (.script interpreter option) =>
              match Bytes.text? interpreter with
              | none => .error (w.straying interpreter)
              | some name =>
                  w.load busy depth name
                    (interpreter :: option.toList ++ [Bytes.ofText path] ++ arguments.drop 1)

end World

end LineShell
