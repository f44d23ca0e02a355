import LineShell.Fault.Basic
import LineShell.Stream

/-!
What the shell asks of the machine it runs on: starting programs, making pipes and sharing
a stream between commands. Each may be refused; only the share of the error stream that the
shell keeps for reports of its own is taken as always to be had. A program is taken as what it
comes to when it has run to its end.
-/

namespace LineShell

/-- A program that has been started: from its streams and the files to how it leaves them. -/
abbrev Program := Console → Console

structure Machine where
  /-- Starts the program at a path under the given arguments, the first being the name it
  is called by, as the stage of this number, counted from zero. The console is that of the
  moment; the files that its streams go to are open. -/
  start : Nat → Console → String → List String → Except Fault Program
  /-- Why the pipe of this number, counted from zero, cannot be made. -/
  pipeFault : Nat → Option Fault
  /-- Why the error stream cannot be shared with the stage of this number. -/
  shareFault : Nat → Option Fault

/-- A machine that has no programs and refuses nothing else. -/
def Machine.bare : Machine where
  start _ _ _ _ := .error .notFound
  pipeFault _ := none
  shareFault _ := none

/-- Runs a program on this console. The working directory is the shell's own and stays, and
of the input nothing is left but an end of what there was. -/
def Console.run (c : Console) (p : Program) : Console :=
  let done := p c
  { done with
    world := { done.world with cwd := c.world.cwd }
    input := c.input.ending done.input.head.length }

end LineShell
