import LineShell.Proofs.Line.Quotation
import LineShell.Proofs.Line.Segmentation
import LineShell.Proofs.Pipeline.Refusal
import LineShell.Proofs.Session.Redirection
import Mathlib.Data.List.Forall2

/-!
What is executed for a line. There is at most one execution, of at least one stage, and no stage
is without a command. The stages are the segments of the line, each the very words of its segment
but for the last, which has no redirections left in it. So each stage of a pipeline that can be
found is started as a stage of its own.
-/

namespace LineShell

namespace Stage

variable {search : SearchPath} {w : World}

/-- The stage is what a segment, which must have a command, is found to run. -/
def IsFound (search : SearchPath) (w : World) (seg : List String) (stage : Stage) : Prop :=
  ∃ name arguments, seg = name :: arguments ∧ ofCommand search w name arguments = .ok stage

theorem isFound_cons {name : String} {arguments : List String} {stage : Stage} :
    IsFound search w (name :: arguments) stage ↔
      ofCommand search w name arguments = .ok stage := by
  constructor
  · rintro ⟨_, _, hseg, hstage⟩
    cases hseg
    exact hstage
  · exact fun hstage => ⟨name, arguments, rfl, hstage⟩

/-- No segment without a command is left out where there is none. -/
theorem ofSegments_eq_ok_iff (search : SearchPath) (w : World) {segs : List (List String)}
    (hs : ∀ seg ∈ segs, seg ≠ []) (stages : List Stage) :
    ofSegments search w segs = .ok stages ↔ List.Forall₂ (IsFound search w) segs stages := by
  induction segs generalizing stages with
  | nil => cases stages <;> simp [ofSegments]
  | cons seg segs ih =>
      obtain ⟨hseg, hsegs⟩ := List.forall_mem_cons.mp hs
      obtain ⟨name, arguments, rfl⟩ := List.exists_cons_of_ne_nil hseg
      rw [ofSegments_cons_eq_ok_iff, List.forall₂_cons_left_iff]
      constructor
      · rintro ⟨stage, others, hstage, hothers, rfl⟩
        exact ⟨stage, others, isFound_cons.mpr hstage, (ih hsegs others).mp hothers, rfl⟩
      · rintro ⟨stage, others, hstage, hothers, rfl⟩
        exact ⟨stage, others, isFound_cons.mp hstage, (ih hsegs others).mpr hothers, rfl⟩

end Stage

namespace Line

/-- What a line comes to if anything is executed for it. -/
structure Executes (line : String) (stages : List (List String)) : Prop where
  ne_nil : stages ≠ []
  length : stages.length = (segments (words (Text.trim line))).length
  stage : ∀ seg ∈ stages, seg ≠ [] ∧ ∀ w ∈ seg, w ≠ "" ∧ w ≠ bar
  earlier : ∀ i, i + 1 < stages.length → stages[i]? = (segments (words (Text.trim line)))[i]?
  final : ∀ seg, stages.getLast? = some seg → ∀ w ∈ seg.dropLast, w ∉ operators

theorem ne_empty_of_mem_words {line w : String} (h : w ∈ words line) : w ≠ "" := by
  obtain ⟨cs, hcs, rfl⟩ := List.mem_map.mp h
  intro he
  exact ne_nil_of_mem_wordsOf hcs (by simpa using congrArg String.toList he)

theorem mem_of_mem_segments {ws seg : List String} {w : String} (hseg : seg ∈ segments ws)
    (hw : w ∈ seg) : w ∈ ws := by
  have hmem : w ∈ (segments ws).flatten := List.mem_flatten.mpr ⟨seg, hseg, hw⟩
  rw [flatten_segments] at hmem
  exact (List.mem_filter.mp hmem).1

theorem not_mem_operators {w : String} (hbar : w ≠ bar) (hw : operator? w = none) :
    w ∉ operators := by
  intro h
  simp only [operators, List.mem_cons, List.not_mem_nil, or_false] at h
  rcases h with h | rfl | rfl | rfl | rfl | rfl | rfl
  · exact hbar h
  all_goals cases hw

namespace Phrase

theorem mem_words_of_mem_args {p : Phrase} {w : String} (h : w ∈ p.args) : w ∈ p.words := by
  have hargs : (Command.ofWords p.words).args = p.args := by rw [Command.ofWords_words]
  exact Command.mem_of_mem_args (hargs ▸ h)

/-- Only at the end can an operator be left over. -/
theorem operator?_of_mem_dropLast_args {p : Phrase} {w : String} (h : w ∈ p.args.dropLast) :
    operator? w = none := by
  have hword : ∀ v ∈ p.clauses.filterMap Clause.arg?, operator? v = none := by
    intro v hv
    obtain ⟨cl, -, hcl⟩ := List.mem_filterMap.mp hv
    cases cl with
    | word u hu =>
        cases hcl
        exact hu
    | redirection op target => cases hcl
  apply hword
  unfold args at h
  cases hd : p.dangling with
  | none =>
      rw [hd, Option.toList_none, List.map_nil, List.append_nil] at h
      exact List.dropLast_subset _ h
  | some op =>
      rw [hd, Option.toList_some, List.map_singleton, List.dropLast_concat] at h
      exact h

end Phrase

theorem Reading.exists_phrase_of_run {ws : List String} {job : Job}
    (h : Reading.ofWords ws = .run job) :
    ∃ (earlier : List (List String)) (p : Phrase),
      segments ws = earlier ++ [p.words] ∧ p.args ≠ [] ∧ job.stages = earlier ++ [p.args] := by
  have hexit : ws.head? ≠ some exitWord := by
    intro hexit
    rw [Reading.ofWords, if_pos hexit] at h
    cases h
  obtain hsegs | ⟨earlier, final, hsegs⟩ := List.eq_nil_or_concat (segments ws)
  · rw [Reading.ofWords, if_neg hexit, hsegs] at h
    cases h
  · obtain ⟨p, rfl⟩ := Phrase.exists_words final
    rw [List.concat_eq_append] at hsegs
    rw [Reading.ofWords_of_segments hexit hsegs] at h
    split at h
    · cases h
    · rename_i hargs
      cases h
      exact ⟨earlier, p, hsegs, hargs, rfl⟩

theorem executes_of_run {line : String} {job : Job} (h : Reading.ofLine line = .run job) :
    Executes line job.stages := by
  obtain ⟨earlier, p, hsegs, hargs, hstages⟩ := Reading.exists_phrase_of_run h
  have hword : ∀ seg ∈ segments (words (Text.trim line)), ∀ w ∈ seg, w ≠ "" ∧ w ≠ bar := by
    intro seg hseg w hw
    refine ⟨ne_empty_of_mem_words (mem_of_mem_segments hseg hw), ?_⟩
    rintro rfl
    exact bar_not_mem_of_mem_segments hseg hw
  have hlast : p.words ∈ segments (words (Text.trim line)) := by simp [hsegs]
  have hkept : ∀ w ∈ p.args, w ≠ "" ∧ w ≠ bar := fun w hw =>
    hword p.words hlast w (Phrase.mem_words_of_mem_args hw)
  rw [hstages]
  constructor
  · simp
  · simp [hsegs]
  · intro seg hseg
    rcases List.mem_append.mp hseg with hseg | hseg
    · have hmem : seg ∈ segments (words (Text.trim line)) := by simp [hsegs, hseg]
      exact ⟨ne_nil_of_mem_segments hmem, hword seg hmem⟩
    · rw [List.mem_singleton.mp hseg]
      exact ⟨hargs, hkept⟩
  · intro i hi
    rw [List.length_append, List.length_singleton, Nat.add_lt_add_iff_right] at hi
    rw [hsegs, List.getElem?_append_left hi, List.getElem?_append_left hi]
  · intro seg hseg w hw
    rw [List.getLast?_concat, Option.some.injEq] at hseg
    subst hseg
    exact not_mem_operators (hkept w (List.dropLast_subset _ hw)).2
      (Phrase.operator?_of_mem_dropLast_args hw)

end Line

namespace Session

section

variable (m : Machine) (s : Session) (c : Console) {line : String}

theorem eval_of_not_run
    (h : ∀ job, Line.Reading.ofLine line ≠ .run job) :
    ∃ flow, s.eval m c line =
      (flow, if Text.trim line = "" then s
        else { s with history := s.history.push (Text.trim line) }, c) := by
  unfold eval
  dsimp only
  by_cases hblank : Text.trim line = ""
  · rw [if_pos hblank, if_pos hblank]
    exact ⟨.proceed, rfl⟩
  · rw [if_neg hblank, if_neg hblank, Line.Reading.ofLine, Text.trim_trim]
    cases hreading : Line.Reading.ofWords (Line.words (Text.trim line)) with
    | idle => exact ⟨.proceed, rfl⟩
    | leave => exact ⟨.leave, rfl⟩
    | run job => exact absurd hreading (h job)

/-- The sinks that redirections have replaced are put back after the execution. -/
theorem exists_execute_of_run {job : Line.Job}
    (h : Line.Reading.ofLine line = .run job) :
    ∃ out err c₁ c₂, c.Redirects job.out out c₁ ∧ c₁.Redirects job.err err c₂ ∧
      s.eval m c line =
        let o := execute m s.setting (s.history.push (Text.trim line))
          { c₂ with out := out.getD c₂.out, err := err.getD c₂.err } job.stages
        (o.flow, { s with history := o.history },
          { o.console with
            out := if out.isSome then c₂.out else o.console.out
            err := if err.isSome then c₂.err else o.console.err }) :=
  ⟨_, _, _, _, c.redirects_redirect job.out, (c.redirect job.out).2.redirects_redirect job.err,
    eval_of_run m s c h⟩

end

/-- A line that is left at once, or has nothing to run, is remembered and that is all. For any
other there is one execution, on the streams as they are redirected. What is executed are the
segments of the line, all but the last as they are. No stage is empty and no word of it is empty
or a bar, and in the last stage only the last word can be an operator. So there is nothing to be
left out: a pipeline has as many stages as it has segments, if they can be found. -/
theorem eval_executes_whole_segments (line : String) :
    ((∀ job, Line.Reading.ofLine line ≠ .run job) → ∀ m s c, ∃ flow,
      eval m s c line =
        (flow, if Text.trim line = "" then s
          else { s with history := s.history.push (Text.trim line) }, c)) ∧
    ∀ job, Line.Reading.ofLine line = .run job →
      (∀ m s c, ∃ out err c₁ c₂,
        Console.Redirects c job.out out c₁ ∧ c₁.Redirects job.err err c₂ ∧
        eval m s c line =
          let o := execute m s.setting (s.history.push (Text.trim line))
            { c₂ with out := out.getD c₂.out, err := err.getD c₂.err } job.stages
          (o.flow, { s with history := o.history },
            { o.console with
              out := if out.isSome then c₂.out else o.console.out
              err := if err.isSome then c₂.err else o.console.err })) ∧
      Line.Executes line job.stages ∧
      (∀ seg ∈ job.stages, ∃ name arguments, seg = name :: arguments) ∧
      job.stages.filter (· ≠ []) = job.stages ∧
      ∀ search w stages,
        (Stage.ofSegments search w job.stages = .ok stages ↔
          List.Forall₂ (Stage.IsFound search w) job.stages stages) ∧
        (Stage.ofSegments search w job.stages = .ok stages →
          stages.length = job.stages.length) := by
  refine ⟨fun h m s c => s.eval_of_not_run m c h, fun job hrun => ?_⟩
  have hexec := Line.executes_of_run hrun
  have hne : ∀ seg ∈ job.stages, seg ≠ [] := fun seg hseg => (hexec.stage seg hseg).1
  refine ⟨fun m s c => s.exists_execute_of_run m c hrun, hexec,
    fun seg hseg => List.exists_cons_of_ne_nil (hne seg hseg),
    List.filter_eq_self.mpr fun seg hseg => decide_eq_true (hne seg hseg),
    fun search w stages => ?_⟩
  have hfound := Stage.ofSegments_eq_ok_iff search w hne stages
  exact ⟨hfound, fun hok => (hfound.mp hok).length_eq.symm⟩

/-- Quotes around nothing leave no word, and the bars about them no segment. The last operator has
nothing to redirect to. -/
theorem eval_executes_segments_among_stray_bars :
    let line := "'' | cat > f '' | \"\" | wc 2> '>>' -l > "
    let stages := [["cat", ">", "f"], ["wc", "-l", ">"]]
    Line.Reading.ofLine line = .run ⟨stages, none, some ⟨">>", false⟩⟩ ∧
    Line.Executes line stages ∧
    ∀ search w found, Stage.ofSegments search w stages = .ok found → found.length = 2 := by
  intro line stages
  have hreading : Line.Reading.ofLine line = .run ⟨stages, none, some ⟨">>", false⟩⟩ := by
    decide +kernel
  obtain ⟨-, hexecutes, -, -, hfound⟩ := (eval_executes_whole_segments line).2 _ hreading
  exact ⟨hreading, hexecutes, fun search w found => (hfound search w found).2⟩

end Session

end LineShell
