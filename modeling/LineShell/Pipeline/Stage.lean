import LineShell.Builtin.Run

/-!
The stages of a pipeline. All of them are found before any is started, and the first that
cannot be found is the error of the whole pipeline.
-/

namespace LineShell

/-- What a segment runs. -/
inductive Stage
  | builtin (b : Builtin) (arguments : List String)
  /-- The program at a path, called by the name that was typed. -/
  | program (path name : String) (arguments : List String)
  deriving DecidableEq, Repr

namespace Stage

def ofCommand (search : SearchPath) (w : World) (name : String) (arguments : List String) :
    Except ShellError Stage :=
  match Dispatch.ofName name with
  | .builtin b => .ok (.builtin b arguments)
  | .leave => .error .exitInPipeline
  | .program name =>
      match search.find w name with
      | some path => .ok (.program path name arguments)
      | none => .error (.commandNotFound name)

/-- The stages of some segments. A segment without words is no stage. -/
def ofSegments (search : SearchPath) (w : World) :
    List (List String) → Except ShellError (List Stage)
  | [] => .ok []
  | [] :: rest => ofSegments search w rest
  | (name :: arguments) :: rest =>
      match ofCommand search w name arguments with
      | .error e => .error e
      | .ok stage =>
          match ofSegments search w rest with
          | .error e => .error e
          | .ok stages => .ok (stage :: stages)

end Stage

end LineShell
