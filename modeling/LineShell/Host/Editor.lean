import LineShell.Dialogue
import LineShell.Host.Erasure
import LineShell.Host.Supply

/-!
The line editor of the host, on an input that is no terminal. It takes lines as they come and
carries out their backspaces; there is nobody to call a line back.
-/

namespace LineShell

/-- Terminals that cannot edit a line. On these the editor shows the prompt all the same. -/
def plainTerminals : List String := ["dumb", "cons25", "emacs"]

def showsPrompt (terminal : Option String) : Bool :=
  (terminal.map fun t => plainTerminals.contains t.toLower).getD false

/-- What comes of the bytes of a line. -/
def Read.ofBytes (b : Bytes) : Read :=
  match b.text? with
  | some s => .line (Line.erased s)
  | none => .failed [Fault.notText.message, Fault.notText.message]

/-- The editor on a terminal of this name. Its state is what it has read ahead; a line without
end does not fit into the memory. -/
def LineReader.host (terminal : Option String) : LineReader where
  State := Bytes
  fresh := []
  remember _ ahead := ahead
  read prompt ahead c :=
    let shown := if showsPrompt terminal then Bytes.ofText prompt else []
    if c.input.lacksLine ahead then
      (.failed [(Fault.system 12).message], ahead, c.input, shown)
    else
      let (line, ahead, rest) := c.input.nextLine ahead
      (line.elim .ended .ofBytes, ahead, rest, shown)

namespace Ending

/-- The causes of a failure, the outermost first. -/
def causes : Ending → List String
  | .done => []
  | .failed causes => causes

/-- The report of a failure with its inner causes, which are numbered if there are several. -/
def report (e : Ending) : String :=
  match e.causes with
  | [] => ""
  | [cause] => "Error: " ++ cause ++ "\n"
  | [outer, cause] => "Error: " ++ outer ++ "\n\nCaused by:\n    " ++ cause ++ "\n"
  | outer :: inner =>
      "Error: " ++ outer ++ "\n\nCaused by:\n" ++
        String.join (inner.mapIdx fun i cause => "    " ++ toString i ++ ": " ++ cause ++ "\n")

def status : Ending → Nat
  | .done => 0
  | .failed _ => 1

end Ending

/-- A run of the program: its exit status and the streams with a failure reported on them. -/
def runProgram (m : Machine) (terminal : Option String) (env : Environment) (c : Console) :
    Option (Nat × Console) :=
  (runShell m (.ok (.host terminal)) env c).map fun (ending, _, c) =>
    (ending.status, c.print .err ending.report)

end LineShell
