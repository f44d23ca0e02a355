import LineShell.Channel

/-!
Redirections: an operator word and the word after it, whatever that word is, send a
stream of the command to a file. All other words are the command's arguments.
-/

namespace LineShell.Line

/-- A file that a stream goes to, at its end or in place of what it holds. -/
structure Redirection where
  file : String
  append : Bool
  deriving DecidableEq, Repr

/-- The stream that an operator word redirects, and whether it appends. -/
def operator? : String → Option (Channel × Bool)
  | ">" | "1>" => some (.out, false)
  | ">>" | "1>>" => some (.out, true)
  | "2>" => some (.err, false)
  | "2>>" => some (.err, true)
  | _ => none

/-- A command as it is run: its arguments, the first being its name, and the file that
each stream goes to. -/
structure Command where
  args : List String := []
  out : Option Redirection := none
  err : Option Redirection := none
  deriving DecidableEq, Repr

namespace Command

def withArg (w : String) (c : Command) : Command :=
  { c with args := w :: c.args }

/-- A redirection standing in front of the rest of the command: it holds unless the rest
redirects the same stream again. -/
def withRedirection (channel : Channel) (r : Redirection) (c : Command) : Command :=
  match channel with
  | .out => { c with out := c.out.or (some r) }
  | .err => { c with err := c.err.or (some r) }

/-- The command that words spell. Of several redirections of one stream the last holds;
an operator with no word after it is an argument. -/
def ofWords : List String → Command
  | [] => {}
  | [w] => { args := [w] }
  | w :: target :: rest =>
      match operator? w with
      | none => (ofWords (target :: rest)).withArg w
      | some (channel, append) => (ofWords rest).withRedirection channel ⟨target, append⟩

@[simp] theorem args_withArg (w : String) (c : Command) : (c.withArg w).args = w :: c.args :=
  rfl

@[simp] theorem args_withRedirection (channel : Channel) (r : Redirection) (c : Command) :
    (c.withRedirection channel r).args = c.args := by
  cases channel <;> rfl

/-- No argument comes from anywhere but the words. -/
theorem mem_of_mem_args {ws : List String} {w : String} (h : w ∈ (ofWords ws).args) :
    w ∈ ws := by
  fun_induction ofWords ws with
  | case1 => exact h
  | case2 _ => exact h
  | case3 _ _ _ _ ih =>
      rcases List.mem_cons.mp h with rfl | hm
      · exact List.mem_cons_self
      · exact List.mem_cons_of_mem _ (ih hm)
  | case4 _ _ _ _ _ _ ih =>
      exact List.mem_cons_of_mem _ (List.mem_cons_of_mem _ (ih (by simpa using h)))

end Command

example : Command.ofWords ["a", ">", "f", "2>>", ">", "b", ">"] =
    { args := ["a", "b", ">"], out := some ⟨"f", false⟩, err := some ⟨">", true⟩ } := by
  decide +kernel

end LineShell.Line
