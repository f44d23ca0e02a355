import LineShell.Proofs.History.Checkpoint
import LineShell.Proofs.Text.Lines
import LineShell.Session

/-!
What evaluating a line does to the history of its session. The line enters it; after that
only a transfer that the line asks for on its own, outside any pipeline, can add entries or
move the checkpoint.
-/

namespace LineShell

/-- The transfer that a line of a single segment asks for. -/
def Line.transfer? (line : String) : Option (Builtin.Transfer × String) :=
  match segments (words (Text.trim line)) with
  | [seg] => Builtin.transferOf? (Command.ofWords seg).args
  | _ => none

/-- The files when those are open that the last segment redirects to. -/
def Console.opened (c : Console) (line : String) : World :=
  match (Line.segments (Line.words (Text.trim line))).getLast? with
  | none => c.world
  | some final =>
      let command := Line.Command.ofWords final
      ((c.redirect command.out).2.redirect command.err).2.world

/-- What a line adds to the history behind itself. -/
def Console.gained (c : Console) (line : String) : List String :=
  match Line.transfer? line with
  | some (.read, file) =>
      match (c.opened line).readText file with
      | .ok text => History.linesOf text
      | .error _ => []
  | _ => []

/-- The line asks for a load or an append, which succeeds. -/
def Console.settles (c : Console) (line : String) : Bool :=
  match Line.transfer? line with
  | some (.read, file) => Builtin.Transfer.read.succeeds (c.opened line) file
  | some (.append, file) => Builtin.Transfer.append.succeeds (c.opened line) file
  | _ => false

namespace Line

theorem segments_cons {w : String} (hw : w ≠ bar) (ws : List String) :
    ∃ first others, segments (w :: ws) = (w :: first) :: others := by
  obtain ⟨first, others, h⟩ := List.exists_cons_of_ne_nil (List.splitOn_ne_nil bar ws)
  refine ⟨first, others.filter (· ≠ []), ?_⟩
  simp [segments, List.splitOn_cons_eq_if_modifyHead, hw, h]

theorem Command.head?_args_ofWords {w : String} (hw : operator? w = none) (ws : List String) :
    (ofWords (w :: ws)).args.head? = some w := by
  cases ws with
  | nil => rfl
  | cons target rest => simp [ofWords, hw]

theorem transfer?_of_exitWord {line : String}
    (h : (words (Text.trim line)).head? = some exitWord) : transfer? line = none := by
  obtain ⟨ws, hws⟩ : ∃ ws, words (Text.trim line) = exitWord :: ws := by
    cases hw : words (Text.trim line) with
    | nil => simp [hw] at h
    | cons w ws =>
        rw [hw, List.head?_cons, Option.some.injEq] at h
        exact ⟨ws, by rw [h]⟩
  obtain ⟨first, others, hs⟩ := segments_cons (show exitWord ≠ bar by decide) ws
  rw [transfer?, hws, hs]
  cases others with
  | cons _ _ => rfl
  | nil =>
      have hhead := Command.head?_args_ofWords (show operator? exitWord = none by decide) first
      simp only
      generalize (Command.ofWords (exitWord :: first)).args = args at hhead
      match args, hhead with
      | [_], _ => rfl
      | [_, _], _ => rfl
      | name :: _ :: _ :: _, hhead =>
          rw [List.head?_cons, Option.some.injEq] at hhead
          rw [hhead, Builtin.transferOf?, if_neg (by decide)]

end Line

variable (m : Machine) (setting : Setting) (h : History) (c : Console)

theorem Line.job?_eq_some {segs : List (List String)} {job : Line.Job}
    (hj : Line.job? segs = some job) :
    ∃ final, segs.getLast? = some final ∧
      job.stages = segs.dropLast ++ [(Line.Command.ofWords final).args] ∧
      job.out = (Line.Command.ofWords final).out ∧
      job.err = (Line.Command.ofWords final).err := by
  unfold Line.job? at hj
  split at hj
  · cases hj
  · rename_i final hfinal
    dsimp only at hj
    split at hj
    · cases hj
    · cases hj
      exact ⟨final, hfinal, rfl, rfl, rfl⟩

namespace Session

variable (s : Session) {line : String}

theorem history_runJob {job : Line.Job}
    (hj : Line.job? (Line.segments (Line.words (Text.trim line))) = some job) :
    (s.runJob m c job).history =
      match Line.transfer? line with
      | some (t, file) =>
          (Builtin.runHistory s.history (c.opened line) (.transfer t file)).history
      | none => s.history := by
  obtain ⟨final, hfinal, hstages, hout, herr⟩ := Line.job?_eq_some hj
  simp only [runJob, hstages, hout, herr]
  match hsegs : Line.segments (Line.words (Text.trim line)) with
  | [] => simp [hsegs] at hfinal
  | [seg] =>
      obtain rfl : seg = final := by simpa [hsegs] using hfinal
      simp only [List.dropLast_singleton, List.nil_append, execute, Line.transfer?,
        Console.opened, hsegs, List.getLast?_singleton]
      exact history_runCommand _ _ _ _ _
  | first :: second :: rest =>
      have hmany : 2 ≤ ((first :: second :: rest).dropLast ++
          [(Line.Command.ofWords final).args]).length := by simp
      rw [Line.transfer?, hsegs]
      exact (execute_flow_of_two_le m _ _ _ hmany).2

theorem transfer?_of_job?_none
    (hj : Line.job? (Line.segments (Line.words (Text.trim line))) = none) :
    Line.transfer? line = none := by
  unfold Line.transfer?
  split
  · rename_i seg hsegs
    rw [hsegs] at hj
    by_cases ha : (Line.Command.ofWords seg).args = []
    · rw [ha]
      rfl
    · simp [Line.job?, ha] at hj
  · rfl

/-- The history after a line, whatever the line, the files and the streams. -/
theorem history_eval (line : String) :
    (s.eval m c line).2.1.history =
      if Text.trim line = "" then s.history
      else
        match Line.transfer? line with
        | some (t, file) =>
            (Builtin.runHistory (s.history.push (Text.trim line)) (c.opened line)
              (.transfer t file)).history
        | none => s.history.push (Text.trim line) := by
  unfold eval
  dsimp only
  split
  · rfl
  · simp only [Line.Reading.ofLine, Text.trim_trim, Line.Reading.ofWords]
    by_cases hexit : (Line.words (Text.trim line)).head? = some Line.exitWord
    · simp only [if_pos hexit, Line.transfer?_of_exitWord hexit]
    · simp only [if_neg hexit]
      cases hj : Line.job? (Line.segments (Line.words (Text.trim line))) with
      | none => simp only [transfer?_of_job?_none hj]
      | some job =>
          have hr := history_runJob m c { s with history := s.history.push (Text.trim line) } hj
          dsimp only at hr ⊢
          exact hr

theorem history_eval_of_not_settles {line : String} (hne : Text.trim line ≠ "")
    (hs : c.settles line = false) :
    (s.eval m c line).2.1.history = s.history.push (Text.trim line) := by
  rw [history_eval, if_neg hne]
  unfold Console.settles at hs
  split
  · rename_i t file ht
    rw [ht] at hs
    cases t with
    | read | append => exact Builtin.history_runHistory_of_fails _ hs
    | write => exact Builtin.history_runHistory_write _ _ _
  · rfl

theorem gained_of_not_settles {line : String} (hs : c.settles line = false) :
    c.gained line = [] := by
  cases ht : Line.transfer? line with
  | none => simp [Console.gained, ht]
  | some p =>
      obtain ⟨t, file⟩ := p
      cases t with
      | write | append => simp [Console.gained, ht]
      | read =>
          simp only [Console.settles, ht] at hs
          cases hr : (c.opened line).readText file with
          | error _ => simp [Console.gained, ht, hr]
          | ok text => simp [Builtin.Transfer.succeeds_read_iff.mpr ⟨text, hr⟩] at hs

theorem history_eval_of_settles {line : String} (hne : Text.trim line ≠ "")
    (hs : c.settles line = true) :
    (s.eval m c line).2.1.history =
      ⟨s.history.entries ++ Text.trim line :: c.gained line,
        (s.history.entries ++ Text.trim line :: c.gained line).length⟩ := by
  rw [history_eval, if_neg hne]
  unfold Console.settles at hs
  split at hs
  · rename_i file ht
    obtain ⟨text, hr⟩ := Builtin.Transfer.succeeds_read_iff.mp hs
    simp [Console.gained, ht, hr, Builtin.history_runHistory_read _ hr, History.absorb,
      History.push]
  · rename_i file ht
    simp [Console.gained, ht, Builtin.history_runHistory_append _ hs, History.push]
  · cases hs

/-- Lines evaluated one after the other, each on the streams and the files of its time. -/
def evalEach (s : Session) (steps : List (Console × String)) : Session :=
  steps.foldl (fun s step => (s.eval m step.1 step.2).2.1) s

theorem evalEach_cons (step : Console × String) (steps : List (Console × String)) :
    s.evalEach m (step :: steps) = (s.eval m step.1 step.2).2.1.evalEach m steps :=
  rfl

theorem evalEach_append (steps later : List (Console × String)) :
    s.evalEach m (steps ++ later) = (s.evalEach m steps).evalEach m later :=
  List.foldl_append

theorem entries_eval (line : String) :
    (s.eval m c line).2.1.history.entries =
      if Text.trim line = "" then s.history.entries
      else s.history.entries ++ Text.trim line :: c.gained line := by
  split
  · rename_i hline
    rw [history_eval, if_pos hline]
  · rename_i hline
    cases hs : c.settles line with
    | true => rw [history_eval_of_settles m c s hline hs]
    | false =>
        rw [history_eval_of_not_settles m c s hline hs, gained_of_not_settles c hs]
        rfl

theorem entries_le_eval (line : String) :
    s.history.entries <+: (s.eval m c line).2.1.history.entries := by
  rw [entries_eval]
  split
  · exact List.prefix_refl _
  · exact List.prefix_append _ _

theorem entries_le_evalEach (steps : List (Console × String)) :
    s.history.entries <+: (s.evalEach m steps).history.entries := by
  induction steps generalizing s with
  | nil => exact List.prefix_refl _
  | cons step steps ih =>
      rw [evalEach_cons]
      exact (s.entries_le_eval m step.1 step.2).trans (ih _)

theorem settles_eq_false {line : String}
    (h : (Line.words (Text.trim line)).head? = some Line.exitWord ∨
      2 ≤ (Line.segments (Line.words (Text.trim line))).length ∨
      ∀ seg ∈ Line.segments (Line.words (Text.trim line)),
        (Line.Command.ofWords seg).args.head? ≠ some Builtin.history.name) :
    c.settles line = false := by
  have ht : Line.transfer? line = none := by
    rcases h with hexit | hmany | hname
    · exact Line.transfer?_of_exitWord hexit
    · unfold Line.transfer?
      split
      · rename_i seg hsegs
        simp [hsegs] at hmany
      · rfl
    · unfold Line.transfer?
      split
      · rename_i seg hsegs
        have hn := hname seg (hsegs ▸ List.mem_singleton_self seg)
        cases hargs : (Line.Command.ofWords seg).args with
        | nil => rfl
        | cons name arguments =>
            apply Builtin.transferOf?_of_ne
            intro he
            exact hn (by rw [hargs, he, List.head?_cons])
      · rfl
  rw [Console.settles, ht]

/-- A line that is not blank enters the history, and behind it the lines of a file if it
asks, on its own, for a load that succeeds. Only then or after an append of its own does the
checkpoint move, to the end. The exit word, a pipeline, other commands and whatever fails add
the line alone. So no entry is ever lost. -/
theorem history_grows_by_lines (m : Machine) :
    (∀ (s : Session) (c : Console) (line : String),
      let l := Text.trim line
      let h' := (s.eval m c line).2.1.history
      (l = "" → h' = s.history) ∧
      (l ≠ "" →
        h'.entries = s.history.entries ++ l :: c.gained line ∧
        h'.saved = if c.settles line then h'.entries.length else s.history.saved) ∧
      (l ≠ "" →
        (Line.words l).head? = some Line.exitWord ∨ 2 ≤ (Line.segments (Line.words l)).length ∨
          (∀ seg ∈ Line.segments (Line.words l),
            (Line.Command.ofWords seg).args.head? ≠ some Builtin.history.name) ∨
          c.settles line = false →
        h' = s.history.push l)) ∧
    ∀ (s : Session) (steps later : List (Console × String)),
      (s.evalEach m steps).history.entries <+:
        (s.evalEach m (steps ++ later)).history.entries := by
  refine ⟨fun s c line => ⟨?_, ?_, ?_⟩, fun s steps later => ?_⟩
  · intro hblank
    rw [history_eval, if_pos hblank]
  · intro hline
    cases hs : c.settles line with
    | true =>
        rw [history_eval_of_settles m c s hline hs]
        exact ⟨rfl, rfl⟩
    | false =>
        rw [history_eval_of_not_settles m c s hline hs, gained_of_not_settles c hs]
        exact ⟨rfl, rfl⟩
  · intro hline halone
    apply history_eval_of_not_settles m c s hline
    rcases halone with hexit | hmany | hname | hs
    · exact settles_eq_false c (.inl hexit)
    · exact settles_eq_false c (.inr (.inl hmany))
    · exact settles_eq_false c (.inr (.inr hname))
    · exact hs
  · rw [evalEach_append]
    exact entries_le_evalEach m (s.evalEach m steps) later

/-- The file that the line takes in is emptied by the line's own redirection before. -/
theorem history_grows_behind_redirection :
    let c : Console := ⟨⟨⟨#[.directory [("g", 1)] 0, .file [98, 10] 0o644]⟩, Tree.root⟩, {},
      .keep {}, .keep {}⟩
    let s : Session := ⟨⟨none, SearchPath.empty⟩, none, ⟨["a"], 0⟩⟩
    let m := Machine.bare
    Text.trim " > g history -r g" ≠ "" ∧
    (s.eval m c " > g history -r g").2.1.history.entries = ["a", "> g history -r g"] ∧
    (s.eval m c " > e history -r g").2.1.history.entries = ["a", "> e history -r g", "b"] := by
  intro c s m
  have hl : Text.trim " > g history -r g" ≠ "" := by decide +kernel
  have hl' : Text.trim " > e history -r g" ≠ "" := by decide +kernel
  have hg := (((history_grows_by_lines m).1 s c " > g history -r g").2.1 hl).1
  have he := (((history_grows_by_lines m).1 s c " > e history -r g").2.1 hl').1
  refine ⟨hl, hg.trans ?_, he.trans ?_⟩
  · decide +kernel
  · decide +kernel

end Session

end LineShell
