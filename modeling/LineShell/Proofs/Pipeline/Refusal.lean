import LineShell.Execution
import LineShell.Proofs.Files.Frame

/-!
Pipelines with a segment that stands for no stage. The leftmost such segment is reported on
the error stream and nothing else happens, whatever the other segments would have done.
-/

namespace LineShell

namespace Stage

/-- A segment that cannot be a stage: its command is the exit word, or names neither a
builtin nor a program that can be found. -/
def Refused (search : SearchPath) (w : World) : List String → Prop
  | [] => False
  | name :: _ =>
      name = Line.exitWord ∨ (Builtin.ofName? name = none ∧ search.find w name = none)

instance (search : SearchPath) (w : World) : DecidablePred (Refused search w)
  | [] => inferInstanceAs (Decidable False)
  | name :: _ => inferInstanceAs (Decidable
      (name = Line.exitWord ∨ (Builtin.ofName? name = none ∧ search.find w name = none)))

/-- What is reported of a refused command. -/
def refusal (name : String) : ShellError :=
  if name = Line.exitWord then .exitInPipeline else .commandNotFound name

theorem line_refusal (name : String) :
    (refusal name).line =
      (if name = Line.exitWord then "exit: cannot be used in a pipeline"
        else name ++ ": command not found") ++ "\n" := by
  unfold refusal
  split <;> rfl

variable {search : SearchPath} {w : World} {name : String} {arguments : List String}

theorem ofCommand_of_refused (h : Refused search w (name :: arguments)) :
    ofCommand search w name arguments = .error (refusal name) := by
  by_cases hexit : name = Line.exitWord
  · simp [ofCommand, Dispatch.ofName, refusal, hexit]
  · obtain ⟨hb, hf⟩ := h.resolve_left hexit
    simp [ofCommand, Dispatch.ofName, refusal, hexit, hb, hf]

theorem ofCommand_of_not_refused (h : ¬Refused search w (name :: arguments)) :
    ∃ stage, ofCommand search w name arguments = .ok stage := by
  obtain ⟨hexit, hfound⟩ := not_or.mp h
  cases hb : Builtin.ofName? name with
  | some b => exact ⟨.builtin b arguments, by simp [ofCommand, Dispatch.ofName, hexit, hb]⟩
  | none =>
      cases hf : search.find w name with
      | none => exact absurd ⟨hb, hf⟩ hfound
      | some path =>
          exact ⟨.program path name arguments,
            by simp [ofCommand, Dispatch.ofName, hexit, hb, hf]⟩

theorem ofSegments_cons_eq_ok_iff {segs : List (List String)} {stages : List Stage} :
    ofSegments search w ((name :: arguments) :: segs) = .ok stages ↔
      ∃ stage others, ofCommand search w name arguments = .ok stage ∧
        ofSegments search w segs = .ok others ∧ stage :: others = stages := by
  rw [ofSegments]
  cases ofCommand search w name arguments with
  | error e => simp
  | ok stage => cases ofSegments search w segs <;> simp

/-- The stages are looked for from left to right, up to the first that is refused. -/
theorem ofSegments_of_refused {before later : List (List String)}
    (hbefore : ∀ s ∈ before, ¬Refused search w s) (h : Refused search w (name :: arguments)) :
    ofSegments search w (before ++ (name :: arguments) :: later) = .error (refusal name) := by
  induction before with
  | nil => simp only [List.nil_append, ofSegments, ofCommand_of_refused h]
  | cons s before ih =>
      have ih := ih fun t ht => hbefore t (List.mem_cons_of_mem _ ht)
      cases s with
      | nil => exact ih
      | cons n args =>
          obtain ⟨stage, hstage⟩ := ofCommand_of_not_refused (hbefore _ List.mem_cons_self)
          simp only [List.cons_append, ofSegments, hstage, ih]

end Stage

theorem exists_leftmost {α : Type} {p : α → Prop} [DecidablePred p] {l : List α}
    (h : ∃ a ∈ l, p a) :
    ∃ a before later, l = before ++ a :: later ∧ p a ∧ ∀ b ∈ before, ¬p b := by
  obtain ⟨a, ha⟩ := Option.isSome_iff_exists.mp
    (List.find?_isSome.mpr (by simpa using h) : (l.find? (p ·)).isSome)
  obtain ⟨hp, before, later, hl, hbefore⟩ := List.find?_eq_some_iff_append.mp ha
  exact ⟨a, before, later, hl, by simpa using hp, fun b hb => by simpa using hbefore b hb⟩

/-- More than one segment make a pipeline, which leaves the flow and the history alone. -/
theorem execute_of_two_le (m : Machine) (setting : Setting) (h : History) (c : Console)
    {segs : List (List String)} (hn : 2 ≤ segs.length) :
    execute m setting h c segs = ⟨.proceed, h, Pipeline.run m setting h c segs⟩ := by
  match segs with
  | [] => simp at hn
  | [_] => simp at hn
  | _ :: _ :: _ => rfl

theorem Pipeline.run_of_refused (m : Machine) (setting : Setting) (h : History) (c : Console)
    {before later : List (List String)} {name : String} {arguments : List String}
    (hbefore : ∀ s ∈ before, ¬Stage.Refused setting.search c.world s)
    (hr : Stage.Refused setting.search c.world (name :: arguments)) :
    run m setting h c (before ++ (name :: arguments) :: later) =
      c.print .err (Stage.refusal name).line := by
  simp only [run, Stage.ofSegments_of_refused hbefore hr]

/-- An outcome with nothing to show but a line on the error stream. -/
structure Outcome.OnlyReports (o : Outcome) (h : History) (c : Console) (line : String) :
    Prop where
  flow : o.flow = .proceed
  history : o.history = h
  console : o.console = c.print .err line
  out : o.console.out = c.out
  input : o.console.input = c.input
  cwd : o.console.world.cwd = c.world.cwd
  files : ∀ id, c.err.target? ≠ some id →
    o.console.world.tree.node? id = c.world.tree.node? id

theorem onlyReports_print (h : History) (c : Console) (line : String) :
    Outcome.OnlyReports ⟨.proceed, h, c.print .err line⟩ h c line where
  flow := rfl
  history := rfl
  console := rfl
  out := rfl
  input := rfl
  cwd := c.err.cwd_write c.world _
  files _ hid := c.err.node?_write c.world _ hid

/-- More than one segment, with a refused one among them, do nothing on any machine but
report the leftmost refused segment. -/
theorem execute_of_refused (setting : Setting) (h : History) (c : Console)
    {segs : List (List String)} (hn : 2 ≤ segs.length)
    (hr : ∃ s ∈ segs, Stage.Refused setting.search c.world s) :
    ∃ before name arguments later,
      segs = before ++ (name :: arguments) :: later ∧
      Stage.Refused setting.search c.world (name :: arguments) ∧
      (∀ s ∈ before, ¬Stage.Refused setting.search c.world s) ∧
      ∀ m : Machine, (execute m setting h c segs).OnlyReports h c
        ((if name = Line.exitWord then "exit: cannot be used in a pipeline"
          else name ++ ": command not found") ++ "\n") := by
  obtain ⟨s, before, later, rfl, hs, hbefore⟩ := exists_leftmost hr
  cases s with
  | nil => exact hs.elim
  | cons name arguments =>
      refine ⟨before, name, arguments, later, rfl, hs, hbefore, fun m => ?_⟩
      rw [execute_of_two_le m setting h c hn, Pipeline.run_of_refused m setting h c hbefore hs,
        ← Stage.line_refusal]
      exact onlyReports_print h c _

/-- Builtins that would write a file and move the working directory stand before a program
that is not there, and an exit word after it. -/
theorem execute_refused_behind_builtins :
    let c : Console := ⟨⟨Tree.empty, Tree.root⟩, {}, .keep {}, .keep {}⟩
    let segs := [["history", "-w", "f"], [], ["cd", ".."], ["nowhere", "x"], ["exit"]]
    2 ≤ segs.length ∧ (∃ s ∈ segs, Stage.Refused SearchPath.empty c.world s) ∧
    ∃ before name arguments later,
      segs = before ++ (name :: arguments) :: later ∧
      Stage.Refused SearchPath.empty c.world (name :: arguments) ∧
      (∀ s ∈ before, ¬Stage.Refused SearchPath.empty c.world s) ∧
      ∀ m : Machine, (execute m ⟨none, SearchPath.empty⟩ ⟨["ls"], 0⟩ c segs).OnlyReports
        ⟨["ls"], 0⟩ c
        ((if name = Line.exitWord then "exit: cannot be used in a pipeline"
          else name ++ ": command not found") ++ "\n") := by
  have hr : ∃ s ∈ [["history", "-w", "f"], [], ["cd", ".."], ["nowhere", "x"], ["exit"]],
      Stage.Refused SearchPath.empty ⟨Tree.empty, Tree.root⟩ s :=
    ⟨["nowhere", "x"], by decide, by decide⟩
  exact ⟨by decide, hr, execute_of_refused ⟨none, SearchPath.empty⟩ ⟨["ls"], 0⟩
    ⟨⟨Tree.empty, Tree.root⟩, {}, .keep {}, .keep {}⟩ (by decide) hr⟩

end LineShell
