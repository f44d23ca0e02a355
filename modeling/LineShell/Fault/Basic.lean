import LineShell.Fault.System

/-!
What can go wrong, as causes. The wording that a user reads is kept in one place for
each kind: `Fault.message` for what the operating system and the encoding refuse,
`ShellError.message` for what the shell reports.
-/

namespace LineShell

/-- Why a file operation or the start of a program fails. -/
inductive Fault
  /-- The operating system refuses with this error number. -/
  | system (code : Int)
  /-- Bytes that were to be text are not valid UTF-8. -/
  | notText
  /-- A file name holds a NUL character. -/
  | nulInName
  /-- A program argument holds a NUL character. -/
  | nulInArgument
  deriving DecidableEq, Repr

namespace Fault

def notFound : Fault := .system 2
def tooManyArguments : Fault := .system 7
def notExecutable : Fault := .system 8
def notWritable : Fault := .system 9
def denied : Fault := .system 13
def notDirectory : Fault := .system 20
def isDirectory : Fault := .system 21
def fileBusy : Fault := .system 26
def brokenPipe : Fault := .system 32
def nameTooLong : Fault := .system 36
def tooManyLinks : Fault := .system 40

def message : Fault → String
  | .system code => systemText code ++ " (os error " ++ toString code ++ ")"
  | .notText => "stream did not contain valid UTF-8"
  | .nulInName => "file name contained an unexpected NUL byte"
  | .nulInArgument => "nul byte found in provided data"

end Fault

/-- What a command or a line reports. None of these ends the session. -/
inductive ShellError
  | commandNotFound (name : String)
  | notFound (name : String)
  /-- The builtin of this name lacks its argument. -/
  | missingArgument (builtin : String)
  | noSuchDirectory (path : String)
  | homeNotSet
  | history (path : String) (fault : Fault)
  | redirect (path : String) (fault : Fault)
  | pipe (fault : Fault)
  /-- The program was found and could not be started. -/
  | start (name : String) (fault : Fault)
  | exitInPipeline
  | file (fault : Fault)
  deriving DecidableEq, Repr

namespace ShellError

def message : ShellError → String
  | .commandNotFound name => name ++ ": command not found"
  | .notFound name => name ++ ": not found"
  | .missingArgument builtin => builtin ++ ": missing argument"
  | .noSuchDirectory path => "cd: " ++ path ++ ": No such file or directory"
  | .homeNotSet => "cd: HOME not set"
  | .history path fault => "history: " ++ path ++ ": " ++ fault.message
  | .redirect path fault => "cannot open " ++ path ++ ": " ++ fault.message
  | .pipe fault => "pipe error: " ++ fault.message
  | .start name fault => name ++ ": " ++ fault.message
  | .exitInPipeline => "exit: cannot be used in a pipeline"
  | .file fault => fault.message

/-- The report of an error: its message on a line of its own. -/
def line (e : ShellError) : String :=
  e.message ++ "\n"

end ShellError

end LineShell
