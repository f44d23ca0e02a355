import LineShell.Host.Editor
import LineShell.Host.Standard

/-!
The command: a session over the standard input, on a machine and files of its own.
-/

namespace LineShell

/-- What the shell reads from the variables of its process. -/
def processEnvironment : IO Environment := do
  let home ← IO.getEnv "HOME"
  let path ← IO.getEnv "PATH"
  let historyFile ← IO.getEnv "HISTFILE"
  return ⟨home, path, historyFile⟩

/-- The variables that started programs get. -/
def Environment.toVariables (env : Environment) : List (String × String) :=
  (env.path.map fun path => ("PATH", path)).toList ++ (env.home.map fun dir => ("HOME", dir)).toList

/-- Reads a stream to its end. -/
partial def readToEnd (stream : IO.FS.Stream) (got : ByteArray) : IO ByteArray := do
  let more ← stream.read 65536
  if more.isEmpty then return got else readToEnd stream (got ++ more)

def writeKept (stream : IO.FS.Stream) (s : Sink) : IO Unit :=
  stream.write ⟨(s.kept?.getD []).toArray⟩

end LineShell

open LineShell in
def main : IO UInt32 := do
  let env ← processEnvironment
  let terminal ← IO.getEnv "TERM"
  let input ← readToEnd (← IO.getStdin) ByteArray.empty
  let c : Console := ⟨⟨Machine.files, Tree.root⟩, Feed.ofFile input.toList, .keep {}, .keep {}⟩
  match runProgram (Machine.standard env.toVariables) terminal env c with
  | none => return 1
  | some (status, c) =>
      writeKept (← IO.getStdout) c.out
      writeKept (← IO.getStderr) c.err
      return status.toUInt32
