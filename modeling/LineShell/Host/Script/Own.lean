import LineShell.SearchPath
import LineShell.Host.Script.Condition
import LineShell.Host.Script.Field

/-!
The commands that the interpreter carries out itself, but for those that run other commands.
-/

namespace LineShell.Script

/-- The commands whose failure ends a script. -/
def specialNames : List String :=
  [".", ":", "break", "continue", "eval", "exec", "exit", "export", "readonly", "return", "set",
    "shift", "times", "trap", "unset"]

/-- The other commands of the interpreter itself. -/
def regularNames : List String :=
  ["alias", "bg", "cd", "chdir", "command", "echo", "false", "fg", "getopts", "hash", "jobs",
    "kill", "local", "printf", "pwd", "read", "test", "true", "type", "ulimit", "umask", "unalias",
    "wait", "["]

/-- The path that a command name of a script leads to. -/
def pathOf? (s : State) (name : String) : Option String :=
  if name.toList.contains Path.slash then some name
  else (SearchPath.ofText (s.value "PATH").textOrEmpty).find s.world name

namespace State

/-- A status that a word asks for; without one it stays. -/
def exitStatus (s : State) (command : String) : List String → State
  | [] => s
  | word :: _ =>
      match Text.count? word with
      | some n => { s with status := n % 256 }
      | none => s.abort (command ++ ": Illegal number: " ++ word)

/-- Leaves some loops, if any runs. -/
def leaveLoops (s : State) (command : String) (course : Nat → Course) : List String → State
  | [] => if s.loops = 0 then s else { s with course := course 1, status := 0 }
  | word :: _ =>
      match Text.count? word with
      | some (n + 1) =>
          if s.loops = 0 then s
          else { s with course := course (min (n + 1) s.loops), status := 0 }
      | _ => s.abort (command ++ ": Illegal number: " ++ word)

/-- The working directory that a path leads to from a place, with its names put together as
they stand. -/
def placeAt (place path : String) : String :=
  let names := (if Path.endsInSlash (String.ofList (path.toList.take 1)) then []
    else Path.parts place.toList) ++ Path.parts path.toList
  let walked := names.foldl
    (fun walked name =>
      if name = "." then walked else if name = ".." then walked.dropLast else walked ++ [name])
    []
  "/" ++ String.intercalate "/" walked

/-- Moves to a directory. Where the working directory is not known, its path is followed as
it is. -/
def moved (s : State) (path : String) : State :=
  let place := if s.place = "" then path else placeAt s.place path
  match s.world.moveTo place with
  | .ok w =>
      (({ s with world := w, place := place, status := 0 }).pass "OLDPWD"
        (Bytes.ofText s.place)).pass "PWD" (Bytes.ofText place)
  | .error _ => { s with status := 2 }.complain ("cd: can't cd to " ++ path)

def changeDirectory (s : State) (words : List String) : State :=
  match words.filter (["-L", "-P", "--"].contains · = false) with
  | [] => s.moved (s.value "HOME").textOrEmpty
  | "-" :: _ =>
      let s := s.moved (s.value "OLDPWD").textOrEmpty
      if s.status = 0 then s.print "cd" (Bytes.ofText (s.place ++ "\n")) else s
  | path :: _ => s.moved path

/-- Sets variables to what stands behind their names, or passes them on as they are. -/
def passAll (s : State) (words : List Bytes) : State :=
  words.foldl
    (fun s word =>
      let name := Bytes.textOrEmpty (word.takeWhile (· ≠ 61))
      if word.contains 61 then s.pass name (word.drop (name.utf8ByteSize + 1))
      else
        match s.value? name with
        | some b => s.pass name b
        | none => s)
    { s with status := 0 }

/-- Sets options and arguments. -/
def setUp (s : State) : List Bytes → State
  | [] => { s with status := 0 }
  | word :: words =>
      match word.chars with
      | ['-', '-'] => { s with arguments := s.arguments.take 1 ++ words, status := 0 }
      | '-' :: letters => { s with options := s.options ++ letters }.setUp words
      | '+' :: letters =>
          { s with options := s.options.filter (!letters.contains ·) }.setUp words
      | _ => { s with arguments := s.arguments.take 1 ++ word :: words, status := 0 }

def shift (s : State) (words : List String) : State :=
  match words.head?.map Text.count? with
  | some none => s.abort ("shift: Illegal number: " ++ words.headD "")
  | n? =>
      let n := (n?.bind id).getD 1
      if s.arguments.length ≤ n then s.abort "shift: can't shift that many"
      else
        { s with arguments := s.arguments.take 1 ++ s.arguments.drop (n + 1), status := 0 }

/-- What a command name stands for, in full or just as it would be found; nothing for an
unknown name. -/
def meaning (s : State) (full : Bool) (name : String) : Option String :=
  if keywords.contains name then some (if full then name ++ " is a shell keyword" else name)
  else if (s.functions.lookup name).isSome then
    some (if full then name ++ " is a shell function" else name)
  else if specialNames.contains name then
    some (if full then name ++ " is a special shell builtin" else name)
  else if regularNames.contains name then
    some (if full then name ++ " is a shell builtin" else name)
  else
    (pathOf? s name).bind fun path =>
      if s.world.isExecutable path then some (if full then name ++ " is " ++ path else path)
      else none

/-- Prints what names stand for. -/
def tellMeanings (s : State) (command : String) (full : Bool) (names : List String) : State :=
  names.foldl
    (fun s name =>
      match s.meaning full name with
      | some text =>
          let status := s.status
          let s := s.print command (Bytes.ofText (text ++ "\n"))
          { s with status := max status s.status }
      | none =>
          let s := if full then s.print command (Bytes.ofText (name ++ ": not found\n")) else s
          { s with status := 127 })
    { s with status := 0 }

/-- What is to run at the end, and whether writing where nobody reads only fails. -/
def trap (s : State) (words : List Bytes) : State :=
  let words := words.filter (· ≠ Bytes.ofText "--")
  match words with
  | action :: events =>
      let events := events.map Bytes.textOrEmpty
      let none := action = Bytes.ofText "-"
      { s with
        status := 0
        farewell := if events.contains "EXIT" ∨ events.contains "0" then
          if none then [] else action.chars else s.farewell
        shielded := if events.contains "PIPE" ∨ events.contains "13" then !none else s.shielded }
  | [] => { s with status := 0 }

/-- Tests the condition that some words are. -/
def tests (s : State) (command : String) (words : List String) : State :=
  match Condition.holds s.world words with
  | .ok b => { s with status := if b then 0 else 1 }
  | .error message => { s with status := 2 }.complain (command ++ ": " ++ message)

end State

/-- Carries out a command that runs no other command; none for any other name. -/
def own? (s : State) (name : String) (arguments : List Bytes) : Option State :=
  let words := arguments.map Bytes.textOrEmpty
  match name with
  | ":" | "true" | "alias" | "bg" | "fg" | "getopts" | "hash" | "jobs" | "readonly" | "times"
  | "ulimit" | "umask" | "unalias" | "wait" => some { s with status := 0 }
  | "trap" => some (s.trap arguments)
  | "false" => some { s with status := 1 }
  | "exit" => some { s.exitStatus name words with course := .left }
  | "return" => some { s.exitStatus name words with course := .returning }
  | "kill" => some { s with status := 137, course := .left, farewell := [] }
  | "break" => some (s.leaveLoops name .breaking words)
  | "continue" => some (s.leaveLoops name .continuing words)
  | "read" => some (readInto s words)
  | "echo" => some (s.print name (Print.echo arguments))
  | "printf" => some (s.print name (Print.printf arguments))
  | "cd" | "chdir" => some (s.changeDirectory words)
  | "pwd" =>
      some (if words = ["-P"] then s.record name { Utility.pwd s.world with rest := s.feed }
        else s.print name (Bytes.ofText (s.place ++ "\n")))
  | "export" | "local" => some (s.passAll arguments)
  | "unset" => some { words.foldl State.unassign s with status := 0 }
  | "set" => some (s.setUp arguments)
  | "shift" => some (s.shift words)
  | "type" => some (s.tellMeanings name true words)
  | "test" => some (s.tests name words)
  | "[" =>
      some (if words.getLast? = some "]" then s.tests name words.dropLast
        else { s with status := 2 }.complain "[: missing ]")
  | _ => none

end LineShell.Script
