import LineShell.Proofs.Files.ReadBack
import LineShell.Proofs.History.Growth

/-!
Saving a history and loading it again. Whatever a session has been through, its entries are
such that a file of them reads back as the same entries, and a file that has been loaded and
saved once does not change any more.
-/

namespace LineShell

namespace History

/-- What is written can be read again, at the same path and from any directory if that is
absolute. -/
theorem readText_writeTo (h : History) {w : World} {path : String} (ho : w.Opens path) :
    ∃ w', h.writeTo w path = .ok w' ∧ w'.cwd = w.cwd ∧
      w'.readFile path = .ok (Bytes.ofText (fileText h.entries)) ∧
      w'.readText path = .ok (fileText h.entries) := by
  obtain ⟨w', hw, hcwd, hr⟩ := World.readFile_writeFile ho (Bytes.ofText (fileText h.entries))
  refine ⟨w', ?_, hcwd, hr, ?_⟩
  · rw [writeTo, hw]
  · simp only [World.readText, hr, Bytes.text?_ofText]

theorem readFrom_of_readText {w : World} {path text : String} (ht : w.readText path = .ok text)
    (h : History) : h.readFrom w path = .ok (h.absorb text) := by
  rw [readFrom, ht]

theorem entries_absorb_new (text : String) : (absorb {} text).entries = linesOf text :=
  List.nil_append _

theorem readFrom_writeTo {h : History} (hes : ∀ e ∈ h.entries, IsEntry e) {w : World}
    {path : String} (ho : w.Opens path) :
    ∃ w' h', h.writeTo w path = .ok w' ∧ ({} : History).readFrom w' path = .ok h' ∧
      h'.entries = h.entries := by
  obtain ⟨w', hw, -, -, ht⟩ := h.readText_writeTo ho
  refine ⟨w', absorb {} (fileText h.entries), hw, readFrom_of_readText ht {}, ?_⟩
  rw [entries_absorb_new, linesOf_fileText hes]

theorem readFrom_of_readFile {w : World} {path text : String} {content : Bytes}
    (hr : w.readFile path = .ok content) (ht : content.text? = some text) :
    ({} : History).readFrom w path = .ok (absorb {} text) := by
  apply readFrom_of_readText
  simp only [World.readText, hr, ht]

end History

theorem Console.isEntry_of_mem_gained {c : Console} {line e : String} (he : e ∈ c.gained line) :
    History.IsEntry e := by
  unfold Console.gained at he
  split at he
  · split at he
    · exact History.isEntry_of_mem_linesOf he
    · cases he
  · cases he

namespace Session

theorem isEntry_start (setting : Setting) (historyFile : Option String) (w : World) :
    ∀ e ∈ (start setting historyFile w).1.history.entries, History.IsEntry e := by
  intro e he
  unfold start at he
  dsimp only at he
  split at he
  · cases he
  · split at he
    · rename_i path h hread
      unfold History.readFrom at hread
      split at hread
      · cases hread
      · cases hread
        exact History.isEntry_of_mem_linesOf (by simpa [History.entries_absorb_new] using he)
    · cases he

theorem isEntry_eval (m : Machine) {s : Session} (hs : ∀ e ∈ s.history.entries, History.IsEntry e)
    (c : Console) {line : String} (hnl : '\n' ∉ line.toList) :
    ∀ e ∈ (s.eval m c line).2.1.history.entries, History.IsEntry e := by
  intro e he
  rw [entries_eval] at he
  split at he
  · exact hs e he
  · rename_i hline
    rcases List.mem_append.mp he with he | he
    · exact hs e he
    · rcases List.mem_cons.mp he with rfl | he
      · exact History.isEntry_trim hline hnl
      · exact Console.isEntry_of_mem_gained he

theorem isEntry_evalEach (m : Machine) {steps : List (Console × String)}
    (hsteps : ∀ step ∈ steps, '\n' ∉ step.2.toList) {s : Session}
    (hs : ∀ e ∈ s.history.entries, History.IsEntry e) :
    ∀ e ∈ (s.evalEach m steps).history.entries, History.IsEntry e := by
  induction steps generalizing s with
  | nil => exact hs
  | cons step steps ih =>
      rw [evalEach_cons]
      apply ih fun later hlater => hsteps later (List.mem_cons_of_mem step hlater)
      exact isEntry_eval m hs step.1 (hsteps step List.mem_cons_self)

/-- After any lines a session can save its history so that loading gives the same entries, and
so can a history that has just been loaded from any text. -/
theorem load_save_round_trip (m : Machine) (setting : Setting) (historyFile : Option String)
    (first : World) {steps : List (Console × String)}
    (hsteps : ∀ step ∈ steps, '\n' ∉ step.2.toList) :
    let s := (start setting historyFile first).1.evalEach m steps
    (∀ e ∈ s.history.entries, History.IsEntry e) ∧
    (∀ (w : World) (path : String), w.Opens path →
      ∃ w' h, s.history.writeTo w path = .ok w' ∧
        ({} : History).readFrom w' path = .ok h ∧ h.entries = s.history.entries) ∧
    ∀ (w : World) (path : String) (content : Bytes) (text : String),
      w.readFile path = .ok content → content.text? = some text →
      ∃ h, ({} : History).readFrom w path = .ok h ∧
        ∀ (w' : World) (path' : String), w'.Opens path' →
          ∃ w'' h', h.writeTo w' path' = .ok w'' ∧
            ({} : History).readFrom w'' path' = .ok h' ∧ h'.entries = h.entries := by
  have hentries := isEntry_evalEach m hsteps (isEntry_start setting historyFile first)
  refine ⟨hentries, fun w path ho => History.readFrom_writeTo hentries ho, ?_⟩
  intro w path content text hr ht
  refine ⟨_, History.readFrom_of_readFile hr ht, fun w' path' ho => ?_⟩
  apply History.readFrom_writeTo _ ho
  intro e he
  rw [History.entries_absorb_new] at he
  exact History.isEntry_of_mem_linesOf he

/-- A file with carriage returns, blanks beyond ASCII and no newline at its end is loaded, and
taken in once more behind a line that was typed. -/
theorem load_save_carriage_returns :
    let w : World := ⟨⟨#[.directory [("h", 1)] 0,
      .file (Bytes.ofText "\r\n a\rb\u00a0\r\n\u2003\nc") 0o644]⟩, Tree.root⟩
    let c : Console := ⟨w, {}, .keep {}, .keep {}⟩
    let m := Machine.bare
    let steps := [(c, " echo \u00a0x\r"), (c, "history -r h")]
    let s := (start ⟨none, SearchPath.empty⟩ (some "h") w).1.evalEach m steps
    (∀ step ∈ steps, '\n' ∉ step.2.toList) ∧ w.Opens "h" ∧
    s.history.entries = ["a\rb", "c", "echo \u00a0x", "history -r h", "a\rb", "c"] ∧
    ∃ w' h, s.history.writeTo w "h" = .ok w' ∧
      ({} : History).readFrom w' "h" = .ok h ∧ h.entries = s.history.entries := by
  intro w c m steps
  have hsteps : ∀ step ∈ steps, '\n' ∉ step.2.toList := by decide +kernel
  have hopen : w.openFile "h" = .ok (1, w) := rfl
  have ho : w.Opens "h" := ⟨1, w, _, 0o644, hopen, rfl⟩
  have hround := load_save_round_trip m ⟨none, SearchPath.empty⟩ (some "h") w hsteps
  refine ⟨hsteps, ho, ?_, hround.2.1 w "h" ho⟩
  decide +kernel

end Session

end LineShell
