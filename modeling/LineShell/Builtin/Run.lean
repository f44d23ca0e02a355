import LineShell.History
import LineShell.SearchPath
import LineShell.Text.Numeral

/-!
What each builtin does. A builtin either returns the text for its output or an error; it
may also change the history, the files or the working directory.
-/

namespace LineShell

/-- What a session is told from outside: the home directory and where programs are. -/
structure Setting where
  home : Option String
  search : SearchPath
  deriving DecidableEq, Repr

/-- What a builtin comes to: its result, and the history and the world after it. -/
structure Effect where
  result : Except ShellError String
  history : History
  world : World

namespace Builtin

def echoText (arguments : List String) : String :=
  String.intercalate " " arguments ++ "\n"

/-- The directory that an operand of `cd` names. A tilde, alone or before a slash, stands
for the home directory, as does a missing operand. -/
def destination (home : Option String) (operand : Option String) : Except ShellError String :=
  let atHome (rest : String) : Except ShellError String :=
    match home with
    | some dir => .ok (dir ++ rest)
    | none => .error .homeNotSet
  match operand with
  | none => atHome ""
  | some arg =>
      if arg = "~" then atHome ""
      else if Text.begins "~/" arg then atHome (Text.after 1 arg)
      else .ok arg

/-- Whatever keeps a directory from being entered, it is reported as missing. -/
def enter (home : Option String) (w : World) (operand : Option String) :
    Except ShellError World :=
  match destination home operand with
  | .error e => .error e
  | .ok path =>
      match w.moveTo path with
      | .ok w => .ok w
      | .error _ => .error (.noSuchDirectory path)

/-- The working directory on a line. -/
def place (w : World) : Except ShellError String :=
  match w.workingPath with
  | .ok path => .ok (path ++ "\n")
  | .error fault => .error (.file fault)

/-- What a name stands for: a builtin before a program. -/
def describe (search : SearchPath) (w : World) (operand : Option String) :
    Except ShellError String :=
  match operand with
  | none => .error (.missingArgument Builtin.type.name)
  | some arg =>
      if isName arg then .ok (arg ++ " is a shell builtin\n")
      else
        match search.find w arg with
        | some path => .ok (arg ++ " is " ++ path ++ "\n")
        | none => .error (.notFound arg)

/-- A file operation on the history. -/
inductive Transfer
  | read
  | write
  | append
  deriving DecidableEq, Repr

def transfer? : String → Option Transfer
  | "-r" => some .read
  | "-w" => some .write
  | "-a" => some .append
  | _ => none

/-- What the arguments of `history` ask for: a transfer with its file, or a listing. A
transfer without a file is a listing of everything, as is a limit that is no count. -/
inductive HistoryRequest
  | transfer (t : Transfer) (file : String)
  | listing (limit : Option Nat)
  deriving DecidableEq, Repr

def HistoryRequest.ofArguments : List String → HistoryRequest
  | [] => .listing none
  | [limit] => .listing (Text.count? limit)
  | option :: file :: _ =>
      match transfer? option with
      | some t => .transfer t file
      | none => .listing (Text.count? option)

/-- Carries out what `history` is asked for. -/
def runHistory (h : History) (w : World) : HistoryRequest → Effect
  | .listing limit => ⟨.ok (h.listing limit), h, w⟩
  | .transfer .read file =>
      match h.readFrom w file with
      | .ok h => ⟨.ok "", h, w⟩
      | .error e => ⟨.error e, h, w⟩
  | .transfer .write file =>
      match h.writeTo w file with
      | .ok w => ⟨.ok "", h, w⟩
      | .error e => ⟨.error e, h, w⟩
  | .transfer .append file =>
      match h.appendTo w file with
      | .ok (h, w) => ⟨.ok "", h, w⟩
      | .error e => ⟨.error e, h, w⟩

/-- Carries a builtin out. The arguments do not include its name. -/
def run (setting : Setting) (h : History) (w : World) (b : Builtin)
    (arguments : List String) : Effect :=
  match b with
  | .echo => ⟨.ok (echoText arguments), h, w⟩
  | .type => ⟨describe setting.search w arguments.head?, h, w⟩
  | .pwd => ⟨place w, h, w⟩
  | .cd =>
      match enter setting.home w arguments.head? with
      | .ok w => ⟨.ok "", h, w⟩
      | .error e => ⟨.error e, h, w⟩
  | .history => runHistory h w (HistoryRequest.ofArguments arguments)

end Builtin

end LineShell
