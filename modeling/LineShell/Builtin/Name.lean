import LineShell.Line.Reading

/-!
Command names: which the shell carries out itself, which ends the session, and which
name a program.
-/

namespace LineShell

/-- The commands that the shell carries out itself. -/
inductive Builtin
  | echo
  | type
  | pwd
  | cd
  | history
  deriving DecidableEq, Repr

namespace Builtin

def all : List Builtin := [.echo, .type, .pwd, .cd, .history]

def name : Builtin → String
  | .echo => "echo"
  | .type => "type"
  | .pwd => "pwd"
  | .cd => "cd"
  | .history => "history"

def ofName? (n : String) : Option Builtin :=
  all.find? (fun b => b.name == n)

/-- Every name that the shell answers for itself, the exit word last. -/
def names : List String :=
  all.map name ++ [Line.exitWord]

def isName (n : String) : Bool :=
  names.contains n

theorem name_of_ofName? {n : String} {b : Builtin} (h : ofName? n = some b) : b.name = n := by
  simpa using List.find?_some h

end Builtin

/-- How a command name is carried out. -/
inductive Dispatch
  | builtin (b : Builtin)
  | leave
  | program (name : String)
  deriving DecidableEq, Repr

def Dispatch.ofName (n : String) : Dispatch :=
  if n = Line.exitWord then .leave
  else
    match Builtin.ofName? n with
    | some b => .builtin b
    | none => .program n

end LineShell
