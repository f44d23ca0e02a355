/-!
The two streams a command writes to.
-/

namespace LineShell

inductive Channel
  | out
  | err
  deriving DecidableEq, Repr

end LineShell
