import LineShell.Pipeline.Run

/-!
Executing commands: a single command on the session's own streams, or a pipeline of several.
No error ends the session; only a single `exit` does.
-/

namespace LineShell

/-- Whether the session goes on. -/
inductive Flow
  | proceed
  | leave
  deriving DecidableEq, Repr

/-- What an execution comes to. -/
structure Outcome where
  flow : Flow
  history : History
  console : Console

/-- Runs one command. Its builtins change the session's own history. -/
def runCommand (m : Machine) (setting : Setting) (h : History) (c : Console) :
    List String → Outcome
  | [] => ⟨.proceed, h, c⟩
  | name :: arguments =>
      match Dispatch.ofName name with
      | .leave => ⟨.leave, h, c⟩
      | .builtin b =>
          let e := b.run setting h c.world arguments
          ⟨.proceed, e.history, ({ c with world := e.world }).emit e.result⟩
      | .program name =>
          match setting.search.find c.world name with
          | none => ⟨.proceed, h, c.emit (.error (.commandNotFound name))⟩
          | some path =>
              match m.start 0 c path (name :: arguments) with
              | .error fault => ⟨.proceed, h, c.emit (.error (.start name fault))⟩
              | .ok p => ⟨.proceed, h, c.run p⟩

/-- Executes the segments of a command line. Stages of a pipeline leave the session's
history alone. -/
def execute (m : Machine) (setting : Setting) (h : History) (c : Console) :
    List (List String) → Outcome
  | [] => ⟨.proceed, h, c⟩
  | [single] => runCommand m setting h c single
  | segs => ⟨.proceed, h, Pipeline.run m setting h c segs⟩

/-- Only a single command can end the session. -/
theorem execute_flow_of_two_le (m : Machine) (setting : Setting) (h : History) (c : Console)
    {segs : List (List String)} (hn : 2 ≤ segs.length) :
    (execute m setting h c segs).flow = .proceed ∧
      (execute m setting h c segs).history = h := by
  match segs with
  | [] => simp at hn
  | [_] => simp at hn
  | _ :: _ :: _ => exact ⟨rfl, rfl⟩

end LineShell
