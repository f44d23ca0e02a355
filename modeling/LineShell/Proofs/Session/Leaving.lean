import LineShell.Proofs.Session.Redirection

/-!
Which lines end the session. That is a matter of the line alone, whatever the history, the files,
the streams and the machine: the exit word has to stand first in it, or first among the arguments
of its only segment.
-/

namespace LineShell

theorem Dispatch.ofName_eq_leave_iff (name : String) :
    Dispatch.ofName name = .leave ↔ name = Line.exitWord := by
  unfold Dispatch.ofName
  split
  · simp_all
  · cases Builtin.ofName? name <;> simp_all

namespace Line

/-- The line ends the session: at once if the exit word is its first word, or else as the command
of its only segment. -/
inductive Leaves (line : String) : Prop
  | first (h : (words (Text.trim line)).head? = some exitWord)
  | command (p : Phrase) (hsegs : segments (words (Text.trim line)) = [p.words])
      (h : p.args.head? = some exitWord)

theorem leaves_iff_of_segments {line : String} {earlier : List (List String)} {p : Phrase}
    (hfirst : (words (Text.trim line)).head? ≠ some exitWord)
    (hsegs : segments (words (Text.trim line)) = earlier ++ [p.words]) :
    Leaves line ↔ earlier = [] ∧ p.args.head? = some exitWord := by
  constructor
  · intro h
    cases h with
    | first h => exact absurd h hfirst
    | command q hone h =>
        rw [hsegs, List.append_eq_singleton_iff] at hone
        obtain ⟨rfl, hwords⟩ | ⟨-, hnil⟩ := hone
        · rw [Phrase.words_inj (List.singleton_inj.mp hwords)]
          exact ⟨rfl, h⟩
        · cases hnil
  · rintro ⟨rfl, h⟩
    exact .command p hsegs h

/-- Behind another first word the exit word is no command in a pipeline, whatever its place. -/
theorem not_leaves_of_two_le {line : String}
    (hfirst : (words (Text.trim line)).head? ≠ some exitWord)
    (hn : 2 ≤ (segments (words (Text.trim line))).length) : ¬Leaves line := by
  intro h
  cases h with
  | first h => exact hfirst h
  | command p hsegs h => simp [hsegs] at hn

end Line

section Execution

variable (m : Machine) (setting : Setting) (h : History) (c : Console)

theorem flow_runCommand_eq_leave_iff (args : List String) :
    (runCommand m setting h c args).flow = .leave ↔ args.head? = some Line.exitWord := by
  cases args with
  | nil => simp [runCommand]
  | cons name arguments =>
      rw [List.head?_cons, Option.some.injEq, ← Dispatch.ofName_eq_leave_iff, runCommand]
      cases Dispatch.ofName name with
      | leave => simp
      | builtin b => simp
      | program name =>
          dsimp only
          split
          · simp
          · split <;> simp

theorem flow_execute_eq_leave_iff (earlier : List (List String)) (args : List String) :
    (execute m setting h c (earlier ++ [args])).flow = .leave ↔
      earlier = [] ∧ args.head? = some Line.exitWord := by
  cases earlier with
  | nil => simp [execute, flow_runCommand_eq_leave_iff]
  | cons first others =>
      have hmany : 2 ≤ (first :: others ++ [args]).length := by simp
      rw [(execute_flow_of_two_le m setting h c hmany).1]
      simp

end Execution

namespace Session

variable (m : Machine) (s : Session) (c : Console)

theorem flow_eval (line : String) :
    (s.eval m c line).1 =
      match Line.Reading.ofWords (Line.words (Text.trim line)) with
      | .idle => .proceed
      | .leave => .leave
      | .run job =>
          (runJob m { s with history := s.history.push (Text.trim line) } c job).flow := by
  unfold eval
  dsimp only
  split
  · rename_i hblank
    rw [hblank]
    rfl
  · rw [Line.Reading.ofLine, Text.trim_trim]
    cases Line.Reading.ofWords (Line.words (Text.trim line)) <;> rfl

theorem eval_of_first {line : String}
    (h : (Line.words (Text.trim line)).head? = some Line.exitWord) :
    s.eval m c line = (.leave, { s with history := s.history.push (Text.trim line) }, c) := by
  have hne : Text.trim line ≠ "" := by
    intro hblank
    rw [hblank] at h
    cases h
  have hleave : Line.Reading.ofWords (Line.words (Text.trim line)) = .leave := if_pos h
  simp only [eval, if_neg hne, Line.Reading.ofLine, Text.trim_trim, hleave]

theorem flow_eval_eq_leave_iff (line : String) :
    (s.eval m c line).1 = .leave ↔ Line.Leaves line := by
  by_cases hfirst : (Line.words (Text.trim line)).head? = some Line.exitWord
  · rw [s.eval_of_first m c hfirst]
    exact ⟨fun _ => .first hfirst, fun _ => rfl⟩
  rw [flow_eval]
  obtain hsegs | ⟨earlier, final, hsegs⟩ :=
    List.eq_nil_or_concat (Line.segments (Line.words (Text.trim line)))
  · have hidle : Line.Reading.ofWords (Line.words (Text.trim line)) = .idle := by
      rw [Line.Reading.ofWords, if_neg hfirst, hsegs]
      rfl
    have hstays : ¬Line.Leaves line := by
      intro h
      cases h with
      | first h => exact hfirst h
      | command p hone => cases hsegs.symm.trans hone
    rw [hidle, iff_false_right hstays]
    exact Flow.noConfusion
  · obtain ⟨p, rfl⟩ := Line.Phrase.exists_words final
    rw [List.concat_eq_append] at hsegs
    rw [Line.Reading.ofWords_of_segments hfirst hsegs, Line.leaves_iff_of_segments hfirst hsegs]
    by_cases hargs : p.args = []
    · rw [if_pos hargs, hargs]
      simp
    · rw [if_neg hargs]
      exact flow_execute_eq_leave_iff m _ _ _ earlier p.args

/-- A line ends the session if its first word is the exit word, or if it has only one segment and
the first argument of that is the exit word, and for no other reason, whatever comes of the line.
In the first case nothing is run and no file is opened, pipes and redirections notwithstanding. -/
theorem eval_leaves_by_line (line : String) :
    (∀ m s c, (eval m s c line).1 = .leave ↔ Line.Leaves line) ∧
    (∀ m s c, (eval m s c line).1 = .proceed ↔ ¬Line.Leaves line) ∧
    (∀ m m' s s' c c', (eval m s c line).1 = (eval m' s' c' line).1) ∧
    ((Line.words (Text.trim line)).head? = some Line.exitWord → ∀ m s c,
      eval m s c line = (.leave, { s with history := s.history.push (Text.trim line) }, c)) ∧
    ((Line.words (Text.trim line)).head? ≠ some Line.exitWord →
      2 ≤ (Line.segments (Line.words (Text.trim line))).length → ¬Line.Leaves line) := by
  have hleave := fun m s c => flow_eval_eq_leave_iff m s c line
  have hproceed : ∀ m s c, (eval m s c line).1 = .proceed ↔ ¬Line.Leaves line := by
    intro m s c
    rw [← hleave m s c]
    cases (eval m s c line).1 <;> simp
  refine ⟨hleave, hproceed, fun m m' s s' c c' => ?_,
    fun hfirst m s c => s.eval_of_first m c hfirst, Line.not_leaves_of_two_le⟩
  by_cases h : Line.Leaves line
  · rw [(hleave m s c).mpr h, (hleave m' s' c').mpr h]
  · rw [(hproceed m s c).mpr h, (hproceed m' s' c').mpr h]

/-- Stray pipes and a redirection in front of it do not keep the exit word from being the command,
but it is none as the target of a redirection or behind another command. -/
theorem eval_leaves_behind_redirection :
    Line.Leaves " | > f exit 0 | " ∧ ¬Line.Leaves "> exit ls" ∧ ¬Line.Leaves "ls | exit" ∧
    ∀ m s c, (eval m s c " | > f exit 0 | ").1 = .leave ∧ (eval m s c "> exit ls").1 = .proceed ∧
      (eval m s c "ls | exit").1 = .proceed ∧
      eval m s c "exit | cat > f" =
        (.leave, { s with history := s.history.push "exit | cat > f" }, c) := by
  have hbehind : Line.Leaves " | > f exit 0 | " :=
    .command ⟨[.redirection ⟨">", rfl⟩ "f", .word "exit" rfl, .word "0" rfl], none⟩
      (by decide +kernel) rfl
  have htarget : ¬Line.Leaves "> exit ls" := by
    have hsegs : Line.segments (Line.words (Text.trim "> exit ls")) = [] ++
        [Line.Phrase.words ⟨[.redirection ⟨">", rfl⟩ "exit", .word "ls" rfl], none⟩] := by
      decide +kernel
    rw [Line.leaves_iff_of_segments (by decide +kernel) hsegs]
    decide
  have hpiped : ¬Line.Leaves "ls | exit" :=
    (eval_leaves_by_line _).2.2.2.2 (by decide +kernel) (by decide +kernel)
  refine ⟨hbehind, htarget, hpiped, fun m s c => ⟨?_, ?_, ?_, ?_⟩⟩
  · exact ((eval_leaves_by_line _).1 m s c).mpr hbehind
  · exact ((eval_leaves_by_line _).2.1 m s c).mpr htarget
  · exact ((eval_leaves_by_line _).2.1 m s c).mpr hpiped
  · have htrim : Text.trim "exit | cat > f" = "exit | cat > f" := by decide +kernel
    have heval := (eval_leaves_by_line "exit | cat > f").2.2.2.1 (by decide +kernel) m s c
    rwa [htrim] at heval

end Session

end LineShell
