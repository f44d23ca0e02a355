import LineShell.Proofs.History.Preservation

/-!
A whole session, with whatever editor its lines are read. All that is read up to the stop is
evaluated, in order and once, and nothing behind it; then the history is saved, once and whatever
the stop was. Any reads whatever can come.
-/

namespace LineShell

/-- What a line leaves in the history: itself, if it is not blank, and what it loads. -/
def Console.recorded (c : Console) (line : String) : List String :=
  if Text.trim line = "" then [] else Text.trim line :: c.gained line

/-- A session file that can be loaded, with these entries, or that is not there. -/
def World.HoldsEntries (w : World) (path : String) (held : List String) : Prop :=
  (∃ text, w.readText path = .ok text ∧ held = History.linesOf text) ∨
    (w.readText path = .error .notFound ∧ held = [])

namespace LineReader

variable (reads left : List Read)

theorem rememberAll_scripted (entries : List String) :
    (scripted reads).rememberAll entries = reads := by
  induction entries with
  | nil => rfl
  | cons entry entries ih => exact ih

theorem rememberLine_scripted (line : String) :
    (scripted reads).rememberLine line left = left :=
  ite_self _

end LineReader

namespace Session

theorem entries_evalEach (m : Machine) (s : Session) (steps : List (Console × String)) :
    (s.evalEach m steps).history.entries =
      s.history.entries ++ steps.flatMap fun step => step.1.recorded step.2 := by
  induction steps generalizing s with
  | nil => exact (List.append_nil _).symm
  | cons step steps ih =>
      rw [evalEach_cons, ih, entries_eval, List.flatMap_cons, Console.recorded]
      split
      · rfl
      · exact List.append_assoc _ _ _

theorem entries_start_of_holdsEntries (setting : Setting) {w : World} {path : String}
    {held : List String} (hheld : w.HoldsEntries path held) :
    (start setting (some path) w).1.history.entries = held := by
  rcases hheld with ⟨text, ht, rfl⟩ | ⟨hf, rfl⟩
  · exact entries_start setting ht
  · simp only [start, History.readFrom, hf]

/-- Whatever is to be read, a session reads it up to a stop. -/
theorem exists_course_scripted (m : Machine) (reads left : List Read) (s : Session) (c : Console) :
    ∃ asked steps stop last, asked <+: left ++ [.ended] ∧
      s.Course m (.scripted reads) left c asked steps stop last := by
  induction left generalizing s c with
  | nil => exact ⟨[.ended], [], _, _, List.prefix_rfl, .exhausted (LineReader.ask_scripted ..)⟩
  | cons read left ih =>
      have hread := LineReader.ask_scripted reads prompt (read :: left) c
      cases read with
      | ended => exact ⟨[.ended], [], _, _, ⟨left ++ [.ended], rfl⟩, .exhausted hread⟩
      | failed causes => exact ⟨[_], [], _, _, ⟨left ++ [.ended], rfl⟩, .unread hread⟩
      | interrupted =>
          obtain ⟨asked, steps, stop, last, hasked, rest⟩ := ih s c
          exact ⟨_, steps, stop, last, (List.prefix_cons_inj _).mpr hasked, .interrupted hread rest⟩
      | line line =>
          obtain ⟨flow, s', c', heval⟩ :
              ∃ flow s' c', s.eval m c line = (flow, s', c') := ⟨_, _, _, rfl⟩
          cases flow with
          | leave => exact ⟨[_], _, _, _, ⟨left ++ [.ended], rfl⟩, .left hread heval⟩
          | proceed =>
              obtain ⟨asked, steps, stop, last, hasked, rest⟩ := ih s' c'
              rw [← LineReader.rememberLine_scripted reads left line] at rest
              exact ⟨_, _, stop, last, (List.prefix_cons_inj _).mpr hasked,
                .proceed hread heval rest⟩

end Session

open Session

/-- A session follows one course, whatever its editor makes of the input: it evaluates the lines
read up to the first end of the input, the first that cannot be read or the first that ends the
session, and no others, and fails just in the second case. After them the history is saved, once
and whatever the end was. An absolute file that could be loaded, or was not there, and that can be
written then holds its old entries and behind them what each line left. Only where the reads go on
for ever there is no end; and any sequence of reads can come. -/
theorem converse_evaluates_up_to_stop (m : Machine) (r : LineReader) (env : Environment)
    (c : Console) :
    let begun := start env.setting env.historyPath c.world
    let s := begun.1
    let opening := c.report begun.2
    let entries := s.history.entries
    (∀ reads steps stop last,
      s.Course m r (r.rememberAll entries) opening reads steps stop last →
      (∀ reads' steps' stop' last',
        s.Course m r (r.rememberAll entries) opening reads' steps' stop' last' →
        reads' = reads ∧ steps' = steps ∧ stop' = stop ∧ last' = last) ∧
      s.Follows m reads steps stop ∧
      (let saved := (s.evalEach m steps).save last.world
       converse m r env c =
         some (stop.ending, s.evalEach m steps,
           ({ last with world := saved.1 }).report saved.2)) ∧
      (stop.ending ≠ .done ↔ ∃ causes, reads.getLast? = some (.failed causes)) ∧
      ∀ path held, env.historyFile = some path → path.toList.head? = some Path.slash →
        c.world.HoldsEntries path held → last.world.Opens path →
        let kept := held ++ steps.flatMap fun step => step.1.recorded step.2
        ((∀ step ∈ steps, '\n' ∉ step.2.toList) → ∀ e ∈ kept, '\n' ∉ e.toList) ∧
        ∃ after, converse m r env c = some (stop.ending, s.evalEach m steps, after) ∧
          ∀ dir, ({ after.world with cwd := dir } : World).readFile path =
            .ok (Bytes.ofText (History.fileText kept))) ∧
    ((∃ reads steps stop last,
        s.Course m r (r.rememberAll entries) opening reads steps stop last) ∨
      (∀ n, s.Goes m r n (r.rememberAll entries) opening) ∧ converse m r env c = none) ∧
    ∀ reads, ∃ asked steps stop last, asked <+: reads ++ [.ended] ∧
      s.Course m (.scripted reads) ((LineReader.scripted reads).rememberAll entries) opening asked
        steps stop last := by
  intro begun s opening entries
  refine ⟨fun reads steps stop last hcourse => ?_, ?_, fun reads => ?_⟩
  · have hended : dialogue m r env c = some (stop.ending, s.evalEach m steps, last) :=
      hcourse.evalAll_eq
    have hfollows := hcourse.follows
    refine ⟨fun _ _ _ _ h' => hcourse.unique h', hfollows, converse_of_dialogue hended, ?_, ?_⟩
    · simp only [← hfollows.unread]
      cases stop <;> simp [Stop.ending]
    · intro path held hfile habs hheld hopens kept
      have hstart : s.history.entries = held := by
        simp only [s, begun, historyPath_of_absolute hfile habs]
        exact entries_start_of_holdsEntries env.setting hheld
      have hentries : (s.evalEach m steps).history.entries = kept := by
        rw [entries_evalEach, hstart]
      obtain ⟨after, hconverse, hafter⟩ := readFile_converse hfile habs hended hopens
      rw [hentries] at hafter
      refine ⟨fun hlines e he => ?_, after, hconverse, hafter⟩
      rw [← hentries] at he
      have hloaded := isEntry_start env.setting env.historyPath c.world
      exact (isEntry_evalEach m hlines hloaded e he).newline
  · by_cases hgoes : ∀ n, s.Goes m r n (r.rememberAll entries) opening
    · have hnone : dialogue m r env c = none := evalAll_eq_none_iff.mpr hgoes
      exact .inr ⟨hgoes, by rw [converse, hnone]; rfl⟩
    · obtain ⟨n, hn⟩ := Classical.not_forall.mp hgoes
      exact .inl (exists_course_of_not_goes hn)
  · rw [LineReader.rememberAll_scripted]
    exact exists_course_scripted m reads reads s opening

/-- The first line loads a file, another one is given up, the next ends the session, and the last
is not read. -/
theorem converse_evaluates_up_to_exit :
    let m := Machine.bare
    let asked : List Read := [.line "history -r f", .interrupted, .line " exit"]
    let r := LineReader.scripted (asked ++ [.line "echo b > f"])
    let env : Environment := { historyFile := some "/h" }
    let w : World := ⟨⟨#[.directory [("h", 1), ("f", 2)] 0,
      .file (Bytes.ofText "ls\n \n pwd") 0o644, .file (Bytes.ofText "a") 0o644]⟩, Tree.root⟩
    let c : Console := ⟨w, {}, .keep {}, .keep {}⟩
    let s := (start env.setting env.historyPath w).1
    let steps := [(c, "history -r f"), (c, " exit")]
    env.historyFile = some "/h" ∧ "/h".toList.head? = some Path.slash ∧
    w.HoldsEntries "/h" ["ls", "pwd"] ∧ w.Opens "/h" ∧
    s.Course m r (r.rememberAll s.history.entries) c asked steps .left c ∧
    ∃ after, converse m r env c = some (.done, s.evalEach m steps, after) ∧
      ({ after.world with cwd := Tree.root } : World).readFile "/h" =
        .ok (Bytes.ofText "ls\npwd\nhistory -r f\na\nexit\n") := by
  intro m asked r env w c s steps
  have hheld : w.HoldsEntries "/h" ["ls", "pwd"] := .inl ⟨"ls\n \n pwd", rfl, by decide +kernel⟩
  have hopens : w.Opens "/h" := ⟨1, w, _, 0o644, rfl, rfl⟩
  let s' : Session := ⟨env.setting, some "/h", ⟨["ls", "pwd", "history -r f", "a"], 4⟩⟩
  let s'' : Session := ⟨env.setting, some "/h", ⟨["ls", "pwd", "history -r f", "a", "exit"], 4⟩⟩
  have hread := LineReader.ask_scripted (asked ++ [.line "echo b > f"]) prompt
  have heval : s.eval m c "history -r f" = (.proceed, s', c) := by decide +kernel
  have heval' : s'.eval m c " exit" = (.leave, s'', c) := by decide +kernel
  have hcourse : s.Course m r (r.rememberAll s.history.entries) c asked steps .left c :=
    .proceed (hread ..) heval (.interrupted (hread ..) (.left (hread ..) heval'))
  obtain ⟨hstops, -, -⟩ := converse_evaluates_up_to_stop m r env c
  have hopening : c.report (start env.setting env.historyPath w).2 = c := by decide +kernel
  rw [hopening] at hstops
  obtain ⟨-, -, -, -, hfile⟩ := hstops _ _ _ _ hcourse
  obtain ⟨-, after, hconverse, hafter⟩ := hfile "/h" ["ls", "pwd"] rfl rfl hheld hopens
  refine ⟨rfl, rfl, hheld, hopens, hcourse, after, hconverse, ?_⟩
  have hentries : ["ls", "pwd"] ++ [(c, "history -r f"), (c, " exit")].flatMap
      (fun step => step.1.recorded step.2) = ["ls", "pwd", "history -r f", "a", "exit"] := by
    decide +kernel
  rw [hafter Tree.root, hentries]
  rfl

end LineShell
