import LineShell.Dialogue
import LineShell.Proofs.Files.Frame
import LineShell.Proofs.History.Growth

/-!
The course of a session. Lines are read and evaluated one after the other until there is none, one
cannot be read or one ends the session. A session comes to such a stop on one course, or its lines
go on for ever.
-/

namespace LineShell

namespace Read

def line? : Read → Option String
  | .line s => some s
  | _ => none

/-- Nothing is read after this. -/
def Ends : Read → Prop
  | .ended | .failed _ => True
  | .line _ | .interrupted => False

end Read

/-- An editor that goes by a script, whatever the input is: at the end of it there are no more
lines. -/
def LineReader.scripted (reads : List Read) : LineReader where
  State := List Read
  fresh := reads
  remember _ left := left
  read _ left c := (left.head?.getD .ended, left.tail, c.input, [])

theorem LineReader.ask_scripted (reads : List Read) (prompt : String) (left : List Read)
    (c : Console) :
    (scripted reads).ask prompt left c = (left.head?.getD .ended, left.tail, c) := by
  simp only [ask, scripted, Console.write, Sink.write_nil]

/-- Why no further line is evaluated. -/
inductive Stop
  | exhausted
  | unread (causes : List String)
  | left
  deriving DecidableEq, Repr

def Stop.ending : Stop → Ending
  | .exhausted | .left => .done
  | .unread causes => .failed ("failed to read input" :: causes)

/-- The read with which these lines come to the stop. -/
def Stop.read? (steps : List (Console × String)) : Stop → Option Read
  | .exhausted => some .ended
  | .unread causes => some (.failed causes)
  | .left => steps.getLast?.map fun step => .line step.2

namespace Session

/-- From a session on, what has been read, the lines evaluated, each with the console it is
evaluated on, why it stops there, and the console in the end. -/
inductive Course (m : Machine) (r : LineReader) : Session → r.State → Console →
    List Read → List (Console × String) → Stop → Console → Prop
  | exhausted {s st c st' c'} (hread : r.ask prompt st c = (.ended, st', c')) :
      Course m r s st c [.ended] [] .exhausted c'
  | unread {s st c st' c' causes} (hread : r.ask prompt st c = (.failed causes, st', c')) :
      Course m r s st c [.failed causes] [] (.unread causes) c'
  | left {s st c line st' c' s' last} (hread : r.ask prompt st c = (.line line, st', c'))
      (heval : s.eval m c' line = (.leave, s', last)) :
      Course m r s st c [.line line] [(c', line)] .left last
  | interrupted {s st c st' c' reads steps stop last}
      (hread : r.ask prompt st c = (.interrupted, st', c'))
      (rest : Course m r s st' c' reads steps stop last) :
      Course m r s st c (.interrupted :: reads) steps stop last
  | proceed {s st c line st' c' s' c'' reads steps stop last}
      (hread : r.ask prompt st c = (.line line, st', c'))
      (heval : s.eval m c' line = (.proceed, s', c''))
      (rest : Course m r s' (r.rememberLine line st') c'' reads steps stop last) :
      Course m r s st c (.line line :: reads) ((c', line) :: steps) stop last

/-- The session is not over when it has read so often. -/
inductive Goes (m : Machine) (r : LineReader) : Nat → Session → r.State → Console → Prop
  | start {s st c} : Goes m r 0 s st c
  | interrupted {n s st c st' c'} (hread : r.ask prompt st c = (.interrupted, st', c'))
      (rest : Goes m r n s st' c') : Goes m r (n + 1) s st c
  | proceed {n s st c line st' c' s' c''}
      (hread : r.ask prompt st c = (.line line, st', c'))
      (heval : s.eval m c' line = (.proceed, s', c''))
      (rest : Goes m r n s' (r.rememberLine line st') c'') : Goes m r (n + 1) s st c

variable {m : Machine} {r : LineReader} {s : Session} {st : r.State} {c last : Console}
  {reads : List Read} {steps : List (Console × String)} {stop : Stop}

/-- What there is to tell of a course: every line that is read is evaluated, only the last read
ends the reading and only the last line the session. -/
structure Follows (m : Machine) (s : Session) (reads : List Read)
    (steps : List (Console × String)) (stop : Stop) : Prop where
  lines : reads.filterMap Read.line? = steps.map Prod.snd
  goes : ∀ read ∈ reads.dropLast, ¬read.Ends
  exhausted : stop = .exhausted ↔ reads.getLast? = some .ended
  unread (causes : List String) : stop = .unread causes ↔ reads.getLast? = some (.failed causes)
  leaves {before later : List (Console × String)} {step : Console × String} :
    steps = before ++ step :: later →
      (((s.evalEach m before).eval m step.1 step.2).1 = .leave ↔ later = [] ∧ stop = .left)

namespace Course

variable (h : s.Course m r st c reads steps stop last)

include h

theorem unique {reads' : List Read} {steps' : List (Console × String)} {stop' : Stop}
    {last' : Console} (h' : s.Course m r st c reads' steps' stop' last') :
    reads' = reads ∧ steps' = steps ∧ stop' = stop ∧ last' = last := by
  induction h generalizing reads' steps' with
  | exhausted hread | unread hread =>
      cases h' with
      | exhausted hread' | unread hread' | left hread' | interrupted hread' | proceed hread' =>
          cases hread.symm.trans hread' <;> exact ⟨rfl, rfl, rfl, rfl⟩
  | left hread heval =>
      cases h' with
      | exhausted hread' | unread hread' | interrupted hread' => cases hread.symm.trans hread'
      | left hread' heval' =>
          cases hread.symm.trans hread'
          cases heval.symm.trans heval'
          exact ⟨rfl, rfl, rfl, rfl⟩
      | proceed hread' heval' =>
          cases hread.symm.trans hread'
          cases heval.symm.trans heval'
  | interrupted hread _ ih =>
      cases h' with
      | exhausted hread' | unread hread' | left hread' | proceed hread' =>
          cases hread.symm.trans hread'
      | interrupted hread' rest =>
          cases hread.symm.trans hread'
          obtain ⟨rfl, hend⟩ := ih rest
          exact ⟨rfl, hend⟩
  | proceed hread heval _ ih =>
      cases h' with
      | exhausted hread' | unread hread' | interrupted hread' => cases hread.symm.trans hread'
      | left hread' heval' =>
          cases hread.symm.trans hread'
          cases heval.symm.trans heval'
      | proceed hread' heval' rest =>
          cases hread.symm.trans hread'
          cases heval.symm.trans heval'
          obtain ⟨rfl, rfl, hend⟩ := ih rest
          exact ⟨rfl, rfl, hend⟩

theorem not_goes : ¬s.Goes m r reads.length st c := by
  induction h with
  | exhausted hread | unread hread =>
      rintro (_ | ⟨hread', _⟩ | ⟨hread', _, _⟩) <;> cases hread.symm.trans hread'
  | left hread heval =>
      rintro (_ | ⟨hread', _⟩ | ⟨hread', heval', _⟩) <;> cases hread.symm.trans hread'
      cases heval.symm.trans heval'
  | interrupted hread _ ih =>
      rintro (_ | ⟨hread', rest⟩ | ⟨hread', _, _⟩) <;> cases hread.symm.trans hread'
      exact ih rest
  | proceed hread heval _ ih =>
      rintro (_ | ⟨hread', _⟩ | ⟨hread', heval', rest⟩) <;> cases hread.symm.trans hread'
      cases heval.symm.trans heval'
      exact ih rest

theorem evalAll_eq : s.evalAll m r st c = some (stop.ending, s.evalEach m steps, last) := by
  induction h with
  | exhausted hread | unread hread =>
      rw [evalAll, hread]
      rfl
  | left hread heval =>
      rw [evalAll, hread]
      simp only [heval, evalEach_cons]
      rfl
  | interrupted hread _ ih =>
      rw [evalAll, hread]
      exact ih
  | proceed hread heval _ ih =>
      rw [evalAll, hread]
      simp only [heval, evalEach_cons]
      exact ih

theorem reads_ne_nil : reads ≠ [] := by
  cases h <;> exact List.cons_ne_nil _ _

theorem steps_ne_nil_of_left (hstop : stop = .left) : steps ≠ [] := by
  induction h with
  | exhausted | unread => cases hstop
  | left | proceed => exact List.cons_ne_nil _ _
  | interrupted _ _ ih => exact ih hstop

theorem leave_iff {before later : List (Console × String)} {step : Console × String}
    (hsteps : steps = before ++ step :: later) :
    ((s.evalEach m before).eval m step.1 step.2).1 = .leave ↔ later = [] ∧ stop = .left := by
  induction h generalizing before with
  | exhausted | unread => simp at hsteps
  | left hread heval =>
      cases before with
      | nil =>
          cases hsteps
          simp [evalEach, heval]
      | cons first before => simp at hsteps
  | interrupted _ _ ih => exact ih hsteps
  | proceed hread heval rest ih =>
      cases before with
      | nil =>
          cases hsteps
          simp only [evalEach, List.foldl_nil, heval, reduceCtorEq, false_iff, not_and]
          exact fun hlater hstop => rest.steps_ne_nil_of_left hstop hlater
      | cons first before =>
          obtain ⟨rfl, hrest⟩ := List.cons.inj hsteps
          rw [evalEach_cons, heval]
          exact ih hrest

theorem filterMap_line? : reads.filterMap Read.line? = steps.map Prod.snd := by
  induction h with
  | exhausted | unread | left => rfl
  | interrupted _ _ ih => exact ih
  | proceed _ _ _ ih => exact congrArg (_ :: ·) ih

theorem getLast?_reads : reads.getLast? = stop.read? steps := by
  induction h with
  | exhausted | unread | left => rfl
  | interrupted _ rest ih => rw [List.getLast?_cons_of_ne_nil rest.reads_ne_nil, ih]
  | @proceed _ _ _ _ _ _ _ _ _ _ stop _ _ _ rest ih =>
      rw [List.getLast?_cons_of_ne_nil rest.reads_ne_nil, ih]
      cases stop with
      | exhausted | unread => rfl
      | left =>
          have hne := rest.steps_ne_nil_of_left rfl
          rw [Stop.read?, Stop.read?, List.getLast?_cons_of_ne_nil hne]

theorem not_ends_of_mem_dropLast : ∀ read ∈ reads.dropLast, ¬read.Ends := by
  induction h with
  | exhausted | unread | left => exact List.forall_mem_nil _
  | interrupted _ rest ih | proceed _ _ rest ih =>
      rw [List.dropLast_cons_of_ne_nil rest.reads_ne_nil]
      exact List.forall_mem_cons.mpr ⟨id, ih⟩

theorem follows : s.Follows m reads steps stop where
  lines := h.filterMap_line?
  goes := h.not_ends_of_mem_dropLast
  exhausted := by
    rw [h.getLast?_reads]
    cases stop <;> simp [Stop.read?]
  unread causes := by
    rw [h.getLast?_reads]
    cases stop <;> simp [Stop.read?]
  leaves hsteps := h.leave_iff hsteps

end Course

/-- The induction is on how often the session can read at most. -/
theorem exists_course_of_not_goes {n : Nat} (hn : ¬s.Goes m r n st c) :
    ∃ reads steps stop last, s.Course m r st c reads steps stop last := by
  induction n generalizing s st c with
  | zero => exact absurd .start hn
  | succ n ih =>
      obtain ⟨read, st', c', hread⟩ : ∃ read st' c', r.ask prompt st c = (read, st', c') :=
        ⟨_, _, _, rfl⟩
      cases read with
      | ended => exact ⟨_, _, _, _, .exhausted hread⟩
      | failed causes => exact ⟨_, _, _, _, .unread hread⟩
      | interrupted =>
          obtain ⟨reads, steps, stop, last, rest⟩ := ih fun hrest => hn (.interrupted hread hrest)
          exact ⟨_, _, _, _, .interrupted hread rest⟩
      | line line =>
          obtain ⟨flow, s', c'', heval⟩ :
              ∃ flow s' c'', s.eval m c' line = (flow, s', c'') := ⟨_, _, _, rfl⟩
          cases flow with
          | leave => exact ⟨_, _, _, _, .left hread heval⟩
          | proceed =>
              obtain ⟨reads, steps, stop, last, rest⟩ :=
                ih fun hrest => hn (.proceed hread heval hrest)
              exact ⟨_, _, _, _, .proceed hread heval rest⟩

/-- What is returned at all is returned at the end of a course. -/
theorem exists_course_of_evalAll {ended : Ending × Session × Console}
    (h : s.evalAll m r st c = some ended) :
    ∃ reads steps stop last, s.Course m r st c reads steps stop last ∧
      ended = (stop.ending, s.evalEach m steps, last) := by
  by_cases hgoes : ∀ n, s.Goes m r n st c
  · -- Each turn of the loop only takes a read away from a run that has infinitely many.
    refine absurd hgoes (evalAll.partial_correctness m r
      (fun s st c _ => ¬∀ n, s.Goes m r n st c) (fun f ih s st c result hresult hgoes => ?_)
      s st c ended h)
    cases hgoes 1 with
    | interrupted hread =>
        rw [hread] at hresult
        refine ih _ _ _ _ hresult fun n => ?_
        cases hgoes (n + 1) with
        | interrupted hread' rest =>
            cases hread.symm.trans hread'
            exact rest
        | proceed hread' => cases hread.symm.trans hread'
    | proceed hread heval =>
        rw [hread] at hresult
        simp only [heval] at hresult
        refine ih _ _ _ _ hresult fun n => ?_
        cases hgoes (n + 1) with
        | interrupted hread' => cases hread.symm.trans hread'
        | proceed hread' heval' rest =>
            cases hread.symm.trans hread'
            cases heval.symm.trans heval'
            exact rest
  · obtain ⟨n, hn⟩ := Classical.not_forall.mp hgoes
    obtain ⟨reads, steps, stop, last, hcourse⟩ := exists_course_of_not_goes hn
    exact ⟨reads, steps, stop, last, hcourse, Option.some.inj (h.symm.trans hcourse.evalAll_eq)⟩

theorem evalAll_eq_none_iff : s.evalAll m r st c = none ↔ ∀ n, s.Goes m r n st c := by
  constructor
  · intro hnone n
    refine Classical.byContradiction fun hn => ?_
    obtain ⟨reads, steps, stop, last, hcourse⟩ := exists_course_of_not_goes hn
    cases hnone.symm.trans hcourse.evalAll_eq
  · intro hgoes
    cases h : s.evalAll m r st c with
    | none => rfl
    | some ended =>
        obtain ⟨reads, steps, stop, last, hcourse, -⟩ := exists_course_of_evalAll h
        exact absurd (hgoes reads.length) hcourse.not_goes

/-- A session that starts on this console comes to its end on a course of its own. -/
theorem Course.dialogue_eq {env : Environment} {opening : Console} {error : Option ShellError}
    (hstart : start env.setting env.historyPath c.world = (s, error))
    (hopening : c.report error = opening)
    (h : s.Course m r (r.rememberAll s.history.entries) opening reads steps stop last)
    {s' : Session} (hend : s.evalEach m steps = s') :
    dialogue m r env c = some (stop.ending, s', last) := by
  rw [dialogue, hstart]
  simp only [hopening]
  rw [h.evalAll_eq, hend]

theorem exists_course_of_dialogue {env : Environment} {ended : Ending × Session × Console}
    (h : dialogue m r env c = some ended) :
    let begun := start env.setting env.historyPath c.world
    ∃ reads steps stop last,
      begun.1.Course m r (r.rememberAll begun.1.history.entries) (c.report begun.2) reads steps stop
        last ∧
      ended = (stop.ending, begun.1.evalEach m steps, last) :=
  exists_course_of_evalAll h

end Session

end LineShell
