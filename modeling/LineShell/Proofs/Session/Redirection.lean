import LineShell.Proofs.Files.Opening
import LineShell.Proofs.Line.Phrase
import LineShell.Proofs.Stream.Writing
import LineShell.Proofs.Text.Lines

/-!
The redirections of a line. Only the last operator of each stream in the last segment counts, and
only if there is something to run. What cannot be opened is reported on the error stream as it was
before, and the line is run all the same.
-/

namespace LineShell

/-- How a redirection is put in a stream's place, if there is one: the sink that takes the place,
and the console after it. -/
inductive Console.Redirects (c : Console) :
    Option Line.Redirection → Option Sink → Console → Prop
  | unasked : Redirects c none none c
  | opened {r sink w} (h : r.Opens c.world (.ok (sink, w))) :
      Redirects c (some r) (some sink) { c with world := w }
  | refused {r fault} (h : r.Opens c.world (.error fault)) :
      Redirects c (some r) none
        (c.print .err ("cannot open " ++ r.file ++ ": " ++ fault.message ++ "\n"))

/-- The file that a stream goes to instead of its own. -/
def Sink.targets (sink : Option Sink) : List NodeId :=
  (sink.bind Sink.target?).toList

namespace Sink

theorem shape_write (s : Sink) (w : World) (b : Bytes) : (s.write w b).2.shape = w.shape := by
  cases s with
  | keep _ | discard | broken | refuse => rfl
  | file id append offset =>
      cases append with
      | true => exact w.shape_appendTo id b
      | false => exact w.shape_writeAt id offset b

end Sink

namespace Console

theorem redirects_redirect (c : Console) (r : Option Line.Redirection) :
    c.Redirects r (c.redirect r).1 (c.redirect r).2 := by
  cases r with
  | none => exact .unasked
  | some r =>
      have hopens := r.opens_opened c.world
      unfold redirect
      dsimp only
      cases hopened : r.opened c.world with
      | error fault =>
          rw [hopened] at hopens
          exact .refused hopens
      | ok opened =>
          rw [hopened] at hopens
          exact .opened hopens

namespace Redirects

variable {c c' : Console} {r : Option Line.Redirection} {sink : Option Sink}

theorem redirect_eq (h : c.Redirects r sink c') : c.redirect r = (sink, c') := by
  cases h with
  | unasked => rfl
  | opened h => simp only [redirect, h.opened_eq]
  | refused h =>
      simp only [redirect, h.opened_eq]
      rfl

/-- The streams stay what they are, but for what is reported. -/
theorem streams (h : c.Redirects r sink c') :
    c'.input = c.input ∧ c'.out = c.out ∧ c'.err.target? = c.err.target? := by
  cases h with
  | unasked | opened => exact ⟨rfl, rfl, rfl⟩
  | refused =>
      refine ⟨rfl, rfl, ?_⟩
      simp only [print, write, Sink.fst_write, Sink.target?_wrote]

theorem sameBut (h : c.Redirects r sink c') :
    World.SameBut (Sink.targets sink ++ c.err.target?.toList) c.world c'.world := by
  cases h with
  | unasked => exact .refl _ _
  | opened h => exact h.sameBut.mono (List.subset_append_left _ _)
  | refused => exact c.err.sameBut_write c.world _

/-- A stream that stays where it is changes nothing of what can be opened after it. -/
theorem shape_eq (h : c.Redirects r none c') : c'.world.shape = c.world.shape := by
  cases h with
  | unasked => rfl
  | refused => exact c.err.shape_write c.world _

end Redirects

end Console

theorem Line.Reading.ofWords_of_segments {ws : List String} {earlier : List (List String)}
    {p : Phrase} (hexit : ws.head? ≠ some exitWord) (hsegs : segments ws = earlier ++ [p.words]) :
    Reading.ofWords ws =
      if p.args = [] then .idle
      else .run ⟨earlier ++ [p.args], p.last .out, p.last .err⟩ := by
  rw [Reading.ofWords, if_neg hexit, hsegs, job?, List.getLast?_concat, List.dropLast_concat]
  dsimp only
  rw [Command.ofWords_words]
  by_cases hargs : p.args = []
  · rw [if_pos hargs, if_pos hargs]
  · rw [if_neg hargs, if_neg hargs]

namespace Session

variable (m : Machine) (s : Session) (c : Console) {line : String}

theorem console_eval_of_idle
    (h : Line.Reading.ofWords (Line.words (Text.trim line)) = .leave ∨
      Line.Reading.ofWords (Line.words (Text.trim line)) = .idle) :
    (s.eval m c line).2.2 = c := by
  unfold eval
  dsimp only
  split
  · rfl
  · rw [Line.Reading.ofLine, Text.trim_trim]
    obtain h | h := h <;> rw [h]

theorem eval_of_run {job : Line.Job}
    (h : Line.Reading.ofWords (Line.words (Text.trim line)) = .run job) :
    s.eval m c line =
      let s' := { s with history := s.history.push (Text.trim line) }
      let o := s'.runJob m c job
      (o.flow, { s with history := o.history }, o.console) := by
  have hne : Text.trim line ≠ "" := by
    intro hnil
    rw [hnil] at h
    cases h
  simp only [eval, if_neg hne, Line.Reading.ofLine, Text.trim_trim, h]

/-- No file is opened for a line that ends the session or has nothing to run. For any other line
its last segment is read as a phrase, the only one with its words. The last redirections of the
phrase are opened, that of the output first, and no other file is touched. A stream whose file
cannot be opened stays what it was, and so does what the other stream finds to open; its one line
of report goes to the error stream that was there. The line is run in any case, the words of the
earlier segments being what they are. -/
theorem eval_opens_last_redirections (line : String) :
    let ws := Line.words (Text.trim line)
    (ws.head? = some Line.exitWord ∨ Line.segments ws = [] → (s.eval m c line).2.2 = c) ∧
    ∀ earlier final, ws.head? ≠ some Line.exitWord → Line.segments ws = earlier ++ [final] →
      ∃ p : Line.Phrase, p.words = final ∧ (∀ q : Line.Phrase, q.words = final → q = p) ∧
        (p.args = [] → (s.eval m c line).2.2 = c) ∧
        (p.args ≠ [] → ∃ out err c₁ c₂,
          c.Redirects (p.last .out) out c₁ ∧ c₁.Redirects (p.last .err) err c₂ ∧
          c₂.input = c.input ∧ c₂.out = c.out ∧
          World.SameBut (Sink.targets out ++ Sink.targets err ++ c.err.target?.toList)
            c.world c₂.world ∧
          (out = none → ∀ r : Line.Redirection,
            (r.opened c₁.world).map Prod.fst = (r.opened c.world).map Prod.fst) ∧
          s.eval m c line =
            let o := execute m s.setting (s.history.push (Text.trim line))
              { c₂ with out := out.getD c₂.out, err := err.getD c₂.err } (earlier ++ [p.args])
            (o.flow, { s with history := o.history },
              { o.console with
                out := if out.isSome then c₂.out else o.console.out
                err := if err.isSome then c₂.err else o.console.err })) := by
  intro ws
  constructor
  · rintro (hexit | hsegs)
    · exact console_eval_of_idle m s c (.inl (if_pos hexit))
    · by_cases hexit : ws.head? = some Line.exitWord
      · exact console_eval_of_idle m s c (.inl (if_pos hexit))
      · refine console_eval_of_idle m s c (.inr ((if_neg hexit).trans ?_))
        rw [hsegs]
        rfl
  intro earlier final hexit hsegs
  obtain ⟨p, rfl⟩ := Line.Phrase.exists_words final
  have hreading := Line.Reading.ofWords_of_segments hexit hsegs
  refine ⟨p, rfl, fun q hq => Line.Phrase.words_inj hq, fun hargs => ?_, fun hargs => ?_⟩
  · exact console_eval_of_idle m s c (.inr (hreading.trans (if_pos hargs)))
  · rw [if_neg hargs] at hreading
    have hout := c.redirects_redirect (p.last .out)
    have herr := (c.redirect (p.last .out)).2.redirects_redirect (p.last .err)
    obtain ⟨hinput₁, hout₁, htarget⟩ := hout.streams
    obtain ⟨hinput₂, hout₂, -⟩ := herr.streams
    refine ⟨_, _, _, _, hout, herr, hinput₂.trans hinput₁, hout₂.trans hout₁, ?_, ?_,
      eval_of_run m s c hreading⟩
    · have hfirst := hout.sameBut
      have hsecond := herr.sameBut
      rw [htarget] at hsecond
      refine (hfirst.mono ?_).trans (hsecond.mono ?_) <;> simp
    · intro hnone r
      rw [hnone] at hout
      exact r.map_fst_opened_of_shape_eq hout.shape_eq

/-- Of two files for the output the second is made; the last file for the error stream is a
directory, and the one before it stays as it was. The operator of the first segment is handed to
its command. -/
theorem eval_opens_one_of_repeated_redirections :
    let m := Machine.bare
    let s : Session := ⟨⟨none, SearchPath.empty⟩, none, {}⟩
    let old : Node := .file (Bytes.ofText "x") 0o644
    let c : Console := ⟨⟨⟨#[.directory [("d", 1), ("old", 2)] 0, .directory [] 0, old]⟩,
      Tree.root⟩, {}, .keep {}, .keep {}⟩
    let c' : Console := ⟨⟨⟨#[.directory [("d", 1), ("old", 2)] 0, .directory [("two", 3)] 0, old,
      .file [] World.newFileMode]⟩, Tree.root⟩, {}, .keep {},
      .keep (Feed.ofText "cannot open d: Is a directory (os error 21)\n")⟩
    let line := "echo > k | type > one > d/two 2>> old cd 2> d "
    Line.segments (Line.words (Text.trim line)) =
      [["echo", ">", "k"], ["type", ">", "one", ">", "d/two", "2>>", "old", "cd", "2>", "d"]] ∧
    s.eval m c line =
      let o := execute m s.setting (s.history.push (Text.trim line))
        { c' with out := .file 3 false 0 } [["echo", ">", "k"], ["type", "cd"]]
      (o.flow, { s with history := o.history }, { o.console with out := .keep {} }) := by
  intro m s old c c' line
  have hexit : (Line.words (Text.trim line)).head? ≠ some Line.exitWord := by decide +kernel
  have hsegs : Line.segments (Line.words (Text.trim line)) = [["echo", ">", "k"]] ++
      [["type", ">", "one", ">", "d/two", "2>>", "old", "cd", "2>", "d"]] := by decide +kernel
  refine ⟨hsegs, ?_⟩
  obtain ⟨p, hwords, -, -, hrun⟩ := (eval_opens_last_redirections m s c line).2 _ _ hexit hsegs
  have hcommand := Line.Command.ofWords_words p
  rw [hwords] at hcommand
  have hread : Line.Command.ofWords
      ["type", ">", "one", ">", "d/two", "2>>", "old", "cd", "2>", "d"] =
      ⟨["type", "cd"], some ⟨"d/two", false⟩, some ⟨"d", false⟩⟩ := by decide +kernel
  rw [hread] at hcommand
  obtain ⟨hargs, hout, herr⟩ := Line.Command.mk.inj hcommand
  rw [← hargs, ← hout, ← herr] at hrun
  obtain ⟨out, err, c₁, c₂, hout, herr, -, -, -, -, heval⟩ := hrun (by decide)
  have hfirst : c.redirect (some ⟨"d/two", false⟩) =
      (some (.file 3 false 0), { c' with err := .keep {} }) := by decide +kernel
  obtain ⟨rfl, rfl⟩ := Prod.mk.inj (hout.redirect_eq.symm.trans hfirst)
  have hsecond : ({ c' with err := .keep {} } : Console).redirect (some ⟨"d", false⟩) =
      (none, c') := by decide +kernel
  obtain ⟨rfl, rfl⟩ := Prod.mk.inj (herr.redirect_eq.symm.trans hsecond)
  exact heval

end Session

end LineShell
