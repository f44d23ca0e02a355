import LineShell.Proofs.History.RoundTrip
import LineShell.Proofs.Session.Course
import LineShell.Proofs.Text.Encoding

/-!
What a whole session leaves of the history file it found. Lines that were loaded are saved
again, in order and in front of the new ones. A file that cannot be loaded because some of it
is no text is overwritten all the same, and its lines are lost.
-/

namespace LineShell

namespace Session

/-- A later state of the same session: the file is the same and no entry has gone. -/
structure Extends (s s' : Session) : Prop where
  historyFile : s'.historyFile = s.historyFile
  entries : s.history.entries <+: s'.history.entries

theorem Extends.refl (s : Session) : s.Extends s :=
  ⟨rfl, List.prefix_refl _⟩

theorem Extends.trans {s s' s'' : Session} (h : s.Extends s') (h' : s'.Extends s'') :
    s.Extends s'' :=
  ⟨h'.historyFile.trans h.historyFile, h.entries.trans h'.entries⟩

theorem extends_of_eval {m : Machine} {s s' : Session} {c c' : Console} {line : String}
    {flow : Flow} (h : s.eval m c line = (flow, s', c')) : s.Extends s' := by
  have hfile := (s.eval_setting m c line).2
  have hentries := s.entries_le_eval m c line
  rw [h] at hfile hentries
  exact ⟨hfile, hentries⟩

theorem Course.extends {m : Machine} {r : LineReader} {s : Session} {st : r.State}
    {c last : Console} {reads : List Read} {steps : List (Console × String)} {stop : Stop}
    (h : s.Course m r st c reads steps stop last) : s.Extends (s.evalEach m steps) := by
  induction h with
  | exhausted | unread => exact .refl _
  | left _ heval =>
      rw [evalEach_cons, heval]
      exact extends_of_eval heval
  | interrupted _ _ ih => exact ih
  | proceed _ heval _ ih =>
      rw [evalEach_cons, heval]
      exact (extends_of_eval heval).trans ih

end Session

/-- The session in the end, and the console, with its history saved there. -/
theorem converse_of_dialogue {m : Machine} {r : LineReader} {env : Environment} {c last : Console}
    {ending : Ending} {s : Session} (h : dialogue m r env c = some (ending, s, last)) :
    converse m r env c = some (ending, s,
      ({ last with world := (s.save last.world).1 }).report (s.save last.world).2) := by
  rw [converse, h]
  rfl

theorem extends_dialogue {m : Machine} {r : LineReader} {env : Environment} {c last : Console}
    {ending : Ending} {s : Session} (h : dialogue m r env c = some (ending, s, last)) :
    (Session.start env.setting env.historyPath c.world).1.Extends s := by
  obtain ⟨reads, steps, stop, last, hcourse, hended⟩ := Session.exists_course_of_dialogue h
  cases hended
  exact hcourse.extends

theorem historyFile_start (setting : Setting) (historyFile : Option String) (w : World) :
    (Session.start setting historyFile w).1.historyFile = historyFile := by
  unfold Session.start
  dsimp only
  split
  · rfl
  · split <;> rfl

/-- A session that starts on a file of text has its lines in the history. -/
theorem entries_start (setting : Setting) {w : World} {path text : String}
    (ht : w.readText path = .ok text) :
    (Session.start setting (some path) w).1.history.entries = History.linesOf text := by
  simp only [Session.start, History.readFrom_of_readText ht, History.entries_absorb_new]

theorem historyPath_of_absolute {env : Environment} {path : String}
    (hfile : env.historyFile = some path) (habs : path.toList.head? = some Path.slash) :
    env.historyPath = some path := by
  have hne : path ≠ "" := by
    intro h
    rw [h] at habs
    cases habs
  simp [Environment.historyPath, hfile, hne]

/-- What is in the file after a session, from whatever directory it is read, are the entries
of the session and nothing of what was there before. -/
theorem readFile_converse {m : Machine} {r : LineReader} {env : Environment} {c last : Console}
    {ending : Ending} {s : Session} {path : String} (hfile : env.historyFile = some path)
    (habs : path.toList.head? = some Path.slash)
    (hended : dialogue m r env c = some (ending, s, last)) (hopens : last.world.Opens path) :
    ∃ after, converse m r env c = some (ending, s, after) ∧
      ∀ dir, ({ after.world with cwd := dir } : World).readFile path =
        .ok (Bytes.ofText (History.fileText s.history.entries)) := by
  have hpath : s.historyFile = some path := by
    rw [(extends_dialogue hended).historyFile, historyFile_start,
      historyPath_of_absolute hfile habs]
  obtain ⟨w', hw, -, hread, -⟩ := s.history.readText_writeTo hopens
  have hsave : s.save last.world = (w', none) := by simp only [Session.save, hpath, hw]
  refine ⟨_, converse_of_dialogue hended, fun dir => ?_⟩
  simp only [hsave, Console.report]
  rw [World.readFile_of_absolute w' habs dir, hread]

/-- The file at the path, from whatever directory it is read, holds a line for each line of the
content, in order. -/
def World.Keeps (w : World) (path : String) (content : Bytes) : Prop :=
  ∃ kept, (∀ dir, ({ w with cwd := dir } : World).readFile path = .ok kept) ∧
    content.lines.Sublist kept.lines

theorem sublist_lines_fileText {text : String} {entries : List String}
    (h : History.linesOf text <+: entries) :
    (Bytes.ofText text).lines.Sublist (Bytes.ofText (History.fileText entries)).lines := by
  obtain ⟨later, hlater⟩ := h
  have hes : ∀ e ∈ History.linesOf text, History.IsEntry e := fun e he =>
    History.isEntry_of_mem_linesOf he
  rw [Bytes.lines_ofText, Bytes.lines_ofText, ← hlater, History.linesOf_fileText_append hes]
  exact List.sublist_append_left _ _

/-- What a history file of text held when a session started is there when the session has
ended and saved, whatever was read and run in between, as long as a file can be written there
still. -/
theorem converse_keeps_text {m : Machine} {r : LineReader} {env : Environment} {c last : Console}
    {ending : Ending} {s : Session} {path : String} {content : Bytes}
    (hfile : env.historyFile = some path) (habs : path.toList.head? = some Path.slash)
    (hread : c.world.readFile path = .ok content) (htext : content.text?.isSome)
    (hended : dialogue m r env c = some (ending, s, last)) (hopens : last.world.Opens path) :
    ∃ after, converse m r env c = some (ending, s, after) ∧ after.world.Keeps path content := by
  obtain ⟨text, htext⟩ := Option.isSome_iff_exists.mp htext
  have ht : c.world.readText path = .ok text := by simp only [World.readText, hread, htext]
  have hentries := (extends_dialogue hended).entries
  rw [historyPath_of_absolute hfile habs, entries_start env.setting ht] at hentries
  obtain ⟨after, hconverse, hafter⟩ := readFile_converse hfile habs hended hopens
  refine ⟨after, hconverse, _, hafter, ?_⟩
  rw [Bytes.eq_ofText_of_text? htext]
  exact sublist_lines_fileText hentries

/-- The session goes into the directory of the file and overwrites it there. -/
theorem converse_keeps_overwritten_text :
    let m := Machine.bare
    let r := LineReader.scripted [.line "cd d", .line "echo x > h", .line "exit"]
    let env : Environment := { historyFile := some "/d/h" }
    let content := Bytes.ofText " ls\r\n\npwd"
    let w : World := ⟨⟨#[.directory [("d", 1)] 0, .directory [("h", 2)] 0,
      .file content 0o644]⟩, Tree.root⟩
    let c : Console := ⟨w, {}, .keep {}, .keep {}⟩
    let s : Session := ⟨env.setting, some "/d/h",
      ⟨["ls", "pwd", "cd d", "echo x > h", "exit"], 2⟩⟩
    let last : Console := ⟨⟨⟨#[.directory [("d", 1)] 0, .directory [("h", 2)] 0,
      .file (Bytes.ofText "x\n") 0o644]⟩, 1⟩, {}, .keep {}, .keep {}⟩
    env.historyFile = some "/d/h" ∧ "/d/h".toList.head? = some Path.slash ∧
    w.readFile "/d/h" = .ok content ∧ content.text?.isSome = true ∧
    dialogue m r env c = some (.done, s, last) ∧ last.world.Opens "/d/h" ∧
    ∃ after, converse m r env c = some (.done, s, after) ∧ after.world.Keeps "/d/h" content := by
  intro m r env content w c s last
  have hread : w.readFile "/d/h" = .ok content := rfl
  have htext : content.text?.isSome = true := by decide +kernel
  let begun : Session := ⟨env.setting, some "/d/h", ⟨["ls", "pwd"], 2⟩⟩
  let moved : Console := { c with world := { w with cwd := 1 } }
  have hstart : Session.start env.setting env.historyPath w = (begun, none) := by decide +kernel
  have hfirst : begun.eval m c "cd d" =
      (.proceed, { begun with history := ⟨["ls", "pwd", "cd d"], 2⟩ }, moved) := by decide +kernel
  have hsecond : ({ begun with history := ⟨["ls", "pwd", "cd d"], 2⟩ } : Session).eval m moved
      "echo x > h" =
      (.proceed, { begun with history := ⟨["ls", "pwd", "cd d", "echo x > h"], 2⟩ }, last) := by
    decide +kernel
  have hthird : ({ begun with history := ⟨["ls", "pwd", "cd d", "echo x > h"], 2⟩ } :
      Session).eval m last "exit" = (.leave, s, last) := by decide +kernel
  have hcourse : begun.Course m r
      [.line "cd d", .line "echo x > h", .line "exit"] c
      [.line "cd d", .line "echo x > h", .line "exit"]
      [(c, "cd d"), (moved, "echo x > h"), (last, "exit")] .left last :=
    .proceed (LineReader.ask_scripted ..) hfirst
      (.proceed (LineReader.ask_scripted ..) hsecond
        (.left (LineReader.ask_scripted ..) hthird))
  have hend : begun.evalEach m
      [(c, "cd d"), (moved, "echo x > h"), (last, "exit")] = s := by decide +kernel
  have hended : dialogue m r env c = some (.done, s, last) :=
    hcourse.dialogue_eq (c := c) hstart rfl hend
  have hopens : last.world.Opens "/d/h" := ⟨2, _, _, 0o644, rfl, rfl⟩
  exact ⟨rfl, rfl, hread, htext, hended, hopens,
    converse_keeps_text rfl rfl hread htext hended hopens⟩

/-- One byte that is no text, behind two good lines, and a session without any line. -/
theorem converse_loses_lines_by_bad_byte :
    ¬∀ (m : Machine) (r : LineReader) (env : Environment) (c : Console) (path : String)
      (content : Bytes) (ending : Ending) (s : Session) (last : Console),
      env.historyFile = some path → path.toList.head? = some Path.slash →
      c.world.readFile path = .ok content → dialogue m r env c = some (ending, s, last) →
      last.world.Opens path →
      ∃ after, converse m r env c = some (ending, s, after) ∧
        after.world.Keeps path content := by
  intro h
  let m := Machine.bare
  let r := LineReader.scripted []
  let env : Environment := { historyFile := some "/h" }
  let content : Bytes := Bytes.ofText "ls\npwd\n" ++ [255, 10]
  let w : World := ⟨⟨#[.directory [("h", 1)] 0, .file content 0o644]⟩, Tree.root⟩
  let c : Console := ⟨w, {}, .keep {}, .keep {}⟩
  let s : Session := ⟨env.setting, some "/h", {}⟩
  let opening := c.report (some (.history "/h" .notText))
  have hstart : Session.start env.setting env.historyPath w =
      (s, some (.history "/h" .notText)) := by decide +kernel
  have hcourse : s.Course m r [] opening [.ended] [] .exhausted opening :=
    .exhausted (LineReader.ask_scripted ..)
  have hended : dialogue m r env c = some (.done, s, opening) :=
    hcourse.dialogue_eq (c := c) hstart rfl rfl
  have hopens : opening.world.Opens "/h" := ⟨1, w, content, 0o644, rfl, rfl⟩
  obtain ⟨after, hconverse, kept, hkept, hlines⟩ :=
    h m r env c "/h" content .done s opening rfl rfl rfl hended hopens
  obtain ⟨after', hconverse', hempty⟩ := readFile_converse rfl rfl hended hopens
  cases hconverse.symm.trans hconverse'
  cases (hkept Tree.root).symm.trans (hempty Tree.root)
  have held : content.lines = ["ls", "pwd"] := by decide +kernel
  rw [held] at hlines
  exact absurd hlines (by decide +kernel)

end LineShell
