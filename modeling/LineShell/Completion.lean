import LineShell.SearchPath

/-!
Completing the first word of a line from the builtin names and the programs. A request that
cannot be met rings the bell the first time and lists the candidates the second time.
-/

namespace LineShell

/-- The answer to a request. -/
inductive Proposal
  /-- The input is no word that could be completed. -/
  | nothing
  | bell
  /-- Text for the place after the input. -/
  | insert (text : String)
  | list (candidates : List String)
  deriving DecidableEq, Repr

/-- What is remembered between requests: the input of the last one, and how many requests in
a row it has had. -/
structure Completion where
  last : String := ""
  presses : Nat := 0
  deriving DecidableEq, Repr

namespace Completion

/-- Builtins and programs whose names begin with the input, in order, each once. -/
def candidates (search : SearchPath) (w : World) (input : String) : List String :=
  sortNames (search.programs w input ++ Builtin.names.filter (Text.begins input))

/-- The input is empty or more than one word. -/
def isOpen (input : String) : Bool :=
  input == "" || input.toList.any Line.separates

/-- The state that counts one more request for an input. -/
def press (c : Completion) (input : String) : Completion :=
  if c.last = input then { c with presses := c.presses + 1 } else ⟨input, 1⟩

/-- The answer to a request that some names are candidates for. -/
def propose (c : Completion) (input : String) : List String → Completion × Proposal
  | [] => (c, .bell)
  | [name] => ({ c with presses := 0 }, .insert (Text.after input.length name ++ " "))
  | names =>
      let common := Text.sharedStart names
      if input.length < common.length then
        (⟨common, 0⟩, .insert (Text.after input.length common))
      else if c.presses = 1 then (c, .bell)
      else ({ c with presses := 0 }, .list names)

def complete (search : SearchPath) (w : World) (c : Completion) (input : String) :
    Completion × Proposal :=
  if isOpen input then (c, .nothing)
  else (c.press input).propose input (candidates search w input)

/-- The text that shows candidates on a line of their own and then the prompt and the input
again. -/
def listing (names : List String) (prompt input : String) : String :=
  "\n" ++ String.intercalate "  " names ++ "\n" ++ prompt ++ input

/-- What completing in a line editor comes to: text to insert, which the editor shows with
the input in front of it, and what is printed. -/
structure Reply where
  insertion : Option String := none
  out : String := ""
  err : String := ""
  deriving DecidableEq, Repr

def bellText : String := "\x07"

def Reply.ofProposal (prompt input : String) : Proposal → Reply
  | .nothing => {}
  | .bell => { err := bellText }
  | .insert text => { insertion := some text }
  | .list names => { out := listing names prompt input }

theorem mem_candidates {search : SearchPath} {w : World} {input name : String} :
    name ∈ candidates search w input ↔
      name ∈ search.programs w input ∨
        name ∈ Builtin.names ∧ Text.begins input name = true := by
  simp [candidates, mem_sortNames]

end Completion

end LineShell
