import LineShell.Host.Scene
import LineShell.Host.Script.Run

/-!
A small machine: utilities, scripts and an interpreter for them, none of which ever refuses
a pipe.
-/

namespace LineShell

/-- The least length in bytes at which an argument is too long to be passed on. -/
def argumentLimit : Nat := 131072

/-- The most levels to which scripts run within scripts. -/
def nestingLimit : Nat := 1000

namespace Machine

/-- The program of this name in the machine, in some environment. -/
def program (environment : List (String × Bytes)) (name : String) (arguments : List Bytes) :
    Program := fun c =>
  Script.State.console c
    (Script.native (.deep nestingLimit) (Script.State.ofConsole c environment) name arguments)

/-- Starts a program on a console. -/
def launch (environment : List (String × Bytes)) (c : Console) (path : String)
    (arguments : List String) : Except Fault Program :=
  if arguments.any (·.toList.contains '\x00') then .error .nulInArgument
  else if arguments.any (argumentLimit ≤ ·.utf8ByteSize) then .error .tooManyArguments
  else
    match c.world.load c.targets interpreterLimit path (arguments.map Bytes.ofText) with
    | .error fault => .error fault
    | .ok (name, arguments) => .ok (program environment name arguments)

/-- The machine in an environment, which its programs see. -/
def standard (environment : List (String × String)) : Machine where
  start _ := launch (environment.map fun (name, value) => (name, Bytes.ofText value))
  pipeFault _ := none
  shareFault _ := none

/-- The directories that a machine comes with. -/
def directories : List String :=
  ["usr/bin", "usr/lib", "usr/local/bin", "dev", "etc", "home", "lib", "opt", "proc", "root",
    "run", "sys", "tmp", "var"]

/-- The files of a new machine: its directories, the null device and its programs. -/
def files : Tree :=
  let t := directories.foldl (fun t path => t.arrange Tree.root (.directory path)) Tree.empty
  let t := t.arrange Tree.root (.link "bin" "usr/bin")
  let t := t.arrange Tree.root (.null "dev/null")
  ("sh" :: Utility.names).foldl
    (fun t name => t.arrange Tree.root (.file ("usr/bin/" ++ name) (Image.nativeFile name) 0o755)) t

end Machine

end LineShell
