import LineShell.Proofs.Pipeline.Determinacy

/-!
What the stages of a pipeline do where all of them can see it: to the files, to the working
directory and on the error stream. Written down in the order in which it happens it is a log,
which leads from the console before the pipeline to the one behind it, and in which every stage
has done what it is there for. Stages side by side leave such a log as well as stages that are
carried out one after the other.
-/

namespace LineShell.Pipeline

/-- Something that a stage does to the files or on the error stream. -/
inductive Deed
  /-- A builtin is carried out on what it finds. -/
  | work (found : World) (b : Builtin) (arguments : List String)
  /-- Some bytes are written to the error stream. -/
  | say (b : Bytes)
  /-- Whatever a program does. -/
  | run (change : Console → Console)

namespace Deed

/-- What a deed makes of the session's streams and the files. -/
def carry (setting : Setting) (h : History) (d : Console) : Deed → Console
  | work found b arguments => { d with world := (b.run setting h found arguments).world }
  | say b => d.write .err b
  | run change => change d

def Finds (w : World) : Deed → Prop
  | work found _ _ => found = w
  | say _ | run _ => True

end Deed

/-- What the stages have done, each deed under the number of its stage. -/
abbrev Log := List (Nat × Deed)

namespace Log

/-- What one of the stages has done. -/
def of (i : Nat) (log : Log) : List Deed :=
  (log.filter (·.1 = i)).map Prod.snd

@[simp] theorem of_nil (i : Nat) : of i [] = [] := rfl

@[simp] theorem of_append (i : Nat) (log log' : Log) :
    (log ++ log').of i = log.of i ++ log'.of i := by
  simp [of]

@[simp] theorem of_self (i : Nat) (deed : Deed) : of i [(i, deed)] = [deed] := by
  simp [of]

theorem of_of_ne {i j : Nat} (h : j ≠ i) (deed : Deed) : of j [(i, deed)] = [] := by
  simp [of, h.symm]

/-- What becomes of the session's streams and the files in the course of a log. In between the
input may be read and the output written. -/
inductive Leads (setting : Setting) (h : History) (c : Console) : Log → Console → Prop
  | start : Leads setting h c [] c
  | deed {log : Log} {d : Console} {deed : Deed} (i : Nat) :
      Leads setting h c log d → deed.Finds d.world →
      Leads setting h c (log ++ [(i, deed)]) (deed.carry setting h d)
  | read {log : Log} {d : Console} (input : Feed) :
      Leads setting h c log d → Leads setting h c log { d with input := input }
  | write {log : Log} {d : Console} (b : Bytes) :
      Leads setting h c log d → Leads setting h c log (d.write .out b)

end Log

/-- What a stage does from its start to its end. A builtin is carried out once, and complains if
that fails; a program does what programs do. -/
inductive Does (setting : Setting) (h : History) (own : Deed → Prop) : Work → List Deed → Prop
  | told {b arguments w text} (hresult : (b.run setting h w arguments).result = .ok text) :
      Does setting h own (.builtin b arguments) [.work w b arguments]
  | complained {b arguments w error}
      (hresult : (b.run setting h w arguments).result = .error error) :
      Does setting h own (.builtin b arguments)
        [.work w b arguments, .say (Bytes.ofText (error.message ++ "\n"))]
  | ran {p : Program} {deeds : List Deed} (hown : ∀ deed ∈ deeds, own deed) :
      Does setting h own (.program p) deeds

/-- A log of started stages that leads to this console. Each of them has begun with what it does,
those that are over have done all of it, and no other stage has done anything. -/
structure Chronicle (setting : Setting) (h : History) (own : Deed → Prop) (l : Launch)
    (c : Console) (ended : Nat → Prop) (log : Log) (d : Console) : Prop where
  leads : log.Leads setting h c d
  does {i : Nat} {task : Task} : l.started[i]? = some task →
    ∃ later, Does setting h own task.work (log.of i ++ later) ∧ (ended i → later = [])
  others {i : Nat} : l.started.length ≤ i → log.of i = []

/-- A log in which more is known to be over. -/
theorem Chronicle.mono {setting : Setting} {h : History} {own : Deed → Prop} {l : Launch}
    {c d : Console} {ended ended' : Nat → Prop} {log : Log}
    (hc : Chronicle setting h own l c ended log d)
    (ho : ∀ i < l.started.length, ended' i → ended i) :
    Chronicle setting h own l c ended' log d where
  leads := hc.leads
  does {i task} ht := by
    obtain ⟨later, hdoes, hnone⟩ := hc.does ht
    exact ⟨later, hdoes, fun hi => hnone (ho i (List.getElem?_eq_some_iff.mp ht).1 hi)⟩
  others := hc.others

/-! Stages side by side -/

/-- What it is for a stage to look at the files and to change them. -/
def Deed.ofVisit (w : World) (change : World → World) : Work → Deed
  | .builtin b arguments => .work w b arguments
  | .program _ => .run fun d => { d with world := change d.world }

/-- The acts of a process that are over come to these deeds. -/
inductive Conduct.Leaves (k : Conduct) (work : Work) : List Reply → List Deed → Prop
  | start : Leaves k work [] []
  | visit {replies : List Reply} {deeds : List Deed} {change : World → World} {w : World} :
      Leaves k work replies deeds → k replies = .visit change →
      Leaves k work (.saw w :: replies) (deeds ++ [.ofVisit w change work])
  | complain {replies : List Reply} {deeds : List Deed} {b : Bytes} :
      Leaves k work replies deeds → k replies = .complain b →
      Leaves k work (.done :: replies) (deeds ++ [.say b])
  | other {replies : List Reply} {deeds : List Deed} (r : Reply) :
      Leaves k work replies deeds → (∀ change, k replies ≠ .visit change) →
      (∀ b, k replies ≠ .complain b) → Leaves k work (r :: replies) deeds

section Leaves

variable {setting : Setting} {h : History} {own : Deed → Prop} {b : Builtin}
  {arguments : List String} {replies : List Reply} {deeds : List Deed}

/-- The deeds of a program are among these. -/
def Conduct.Within (own : Deed → Prop) (k : Conduct) : Prop :=
  ∀ replies,
    (∀ change, k replies = .visit change → own (.run fun d => { d with world := change d.world })) ∧
    ∀ b, k replies = .complain b → own (.say b)

theorem Conduct.Within.does {k : Conduct} {p : Program} (hk : k.Within own)
    (hl : k.Leaves (.program p) replies deeds) : Does setting h own (.program p) deeds := by
  refine .ran ?_
  induction hl with
  | start => nofun
  | visit _ ha ih =>
      exact List.forall_mem_append.mpr ⟨ih, List.forall_mem_singleton.mpr ((hk _).1 _ ha)⟩
  | complain _ ha ih =>
      exact List.forall_mem_append.mpr ⟨ih, List.forall_mem_singleton.mpr ((hk _).2 _ ha)⟩
  | other _ _ _ _ ih => exact ih

end Leaves

/-- A move adds at most a deed of the process's own to the log. -/
theorem Move.exists_log {κ : Circumstances} {opened : List StreamEnd} {p p' : Process}
    {t t' : Traffic} (hm : Move κ opened p t p' t') {i : Nat} {work : Work} {c : Console}
    {log : Log} (hp : p.conduct = κ.conduct i work)
    (hleads : log.Leads κ.setting κ.history c t.console)
    (hleaves : p.conduct.Leaves work p.replies (log.of i)) :
    ∃ log' : Log, log'.Leads κ.setting κ.history c t'.console ∧
      p'.conduct.Leaves work p'.replies (log'.of i) ∧ ∀ j ≠ i, log'.of j = log.of j := by
  have hother (r : Reply) (hvisit : ∀ change, p.act ≠ .visit change)
      (hcomplain : ∀ b, p.act ≠ .complain b) :
      p.conduct.Leaves work (r :: p.replies) (log.of i) := hleaves.other r hvisit hcomplain
  have hadd (deed : Deed) : ∀ j ≠ i, Log.of j (log ++ [(i, deed)]) = log.of j := fun j hj => by
    rw [Log.of_append, Log.of_of_ne hj, List.append_nil]
  cases hm with
  | @take _ _ e ha =>
      refine ⟨log, ?_, hother _ (by rw [ha]; nofun) (by rw [ha]; nofun), fun _ _ => rfl⟩
      cases e with
      | input => exact hleads.read _
      | output | reader _ | writer _ => exact hleads
  | finish ha | readNothing ha | sent ha | broken ha | closeInlet ha | closeOutlet ha =>
      exact ⟨log, hleads, hother _ (by rw [ha]; nofun) (by rw [ha]; nofun), fun _ _ => rfl⟩
  | @send _ _ e ha =>
      refine ⟨log, ?_, hleaves, fun _ _ => rfl⟩
      cases e with
      | output => exact hleads.write _
      | input | reader _ | writer _ => exact hleads
  | @complain b ha =>
      have hfinds : (Deed.say b).Finds t.console.world := trivial
      refine ⟨log ++ [(i, .say b)], hleads.deed i hfinds, ?_, hadd _⟩
      rw [Log.of_append, Log.of_self]
      exact hleaves.complain ha
  | @visit change ha =>
      let deed := Deed.ofVisit t.console.world change work
      refine ⟨log ++ [(i, deed)], ?_, ?_, hadd _⟩
      · cases work with
        | builtin b arguments =>
            rw [Process.act, hp] at ha
            obtain ⟨-, rfl⟩ := Conduct.nil_of_ofBuiltin_visit ha
            have hfinds : deed.Finds t.console.world := rfl
            exact hleads.deed i hfinds
        | program _ =>
            have hfinds : deed.Finds t.console.world := trivial
            exact hleads.deed i hfinds
      · rw [Log.of_append, Log.of_self]
        exact hleaves.visit ha
  | exit => exact ⟨log, hleads, hleaves, fun _ _ => rfl⟩

namespace System

variable {κ : Circumstances} {l : Launch} {c : Console} {s s' : System} {log : Log}

/-- The log of a moment: every process has done what its acts come to. -/
structure Recorded (κ : Circumstances) (l : Launch) (c : Console) (log : Log) (s : System) :
    Prop where
  leads : log.Leads κ.setting κ.history c s.traffic.console
  leaves {i : Nat} {p : Process} {task : Task} : s.processes[i]? = some p →
    l.started[i]? = some task → p.conduct.Leaves task.work p.replies (log.of i)
  unstarted {i : Nat} : s.processes.length ≤ i → log.of i = []

theorem Recorded.of_processes_eq (hr : s.Recorded κ l c log)
    (hp : s'.processes = s.processes) (ht : s'.traffic = s.traffic) : s'.Recorded κ l c log where
  leads := ht ▸ hr.leads
  leaves hi := hr.leaves (hp ▸ hi)
  unstarted hi := hr.unstarted (hp ▸ hi)

theorem Recorded.launch (hr : s.Recorded κ l c log) {task : Task} :
    Recorded κ l c log
      { s with processes := s.processes ++ [κ.process s.processes.length task] } where
  leads := hr.leads
  leaves {i p task'} hi ht := by
    obtain hi | ⟨rfl, rfl⟩ := getElem?_launch hi
    · exact hr.leaves hi ht
    · rw [hr.unstarted (Nat.le_refl _)]
      exact .start
  unstarted hi := hr.unstarted (Nat.le_of_succ_le (by simpa using hi))

theorem Recorded.move (hr : s.Recorded κ l c log) {i : Nat} {p p' : Process} {task : Task}
    {t : Traffic} (hi : s.processes[i]? = some p) (ht : l.started[i]? = some task)
    (hp : p.conduct = κ.conduct i task.work) (hm : Move κ (s.opened l) p s.traffic p' t) :
    ∃ log', Recorded κ l c log' { s with processes := s.processes.set i p', traffic := t } := by
  obtain ⟨log', hleads, hleaves, hsame⟩ := hm.exists_log hp hr.leads (hr.leaves hi ht)
  refine ⟨log', hleads, fun {j q task'} hj ht' => ?_, fun {j} hj => ?_⟩
  · by_cases hji : j = i
    · subst hji
      rw [List.getElem?_set_self (List.getElem?_eq_some_iff.mp hi).1] at hj
      cases hj
      cases ht.symm.trans ht'
      exact hleaves
    · rw [hsame j hji]
      obtain hj | ⟨rfl, -⟩ := getElem?_move hj
      · exact hr.leaves hj ht'
      · exact absurd rfl hji
  · rw [List.length_set] at hj
    have hji : j ≠ i := by
      rintro rfl
      exact Nat.not_lt.mpr hj (List.getElem?_eq_some_iff.mp hi).1
    rw [hsame j hji]
    exact hr.unstarted hj

end System

/-! Stages one after the other -/

section finish

variable {setting : Setting} {h : History} {own : Deed → Prop} {l : Launch} {c d : Console}
  {log : Log} {feeds : Feeds} {i : Nat} {task : Task}

/-- What a builtin tells goes to the session's output or into a pipe, which shows nowhere. -/
theorem step_builtin (setting : Setting) (h : History) (b : Builtin) (arguments : List String)
    (released : List StreamEnd) (inlet outlet : StreamEnd) :
    let e := b.run setting h d.world arguments
    let own : Console := { d with world := e.world, input := feeds inlet }
    let d' := (step setting h released (d, feeds) ⟨.builtin b arguments, inlet, outlet⟩).1
    (∀ text, e.result = .ok text → d' = own ∨ d' = own.write .out (Bytes.ofText text)) ∧
    ∀ error, e.result = .error error → d' = own.write .err (Bytes.ofText error.line) := by
  refine ⟨fun text htext => ?_, fun error herror => ?_⟩
  · simp only [step, Work.run, htext, Console.emit, Console.print, Console.write]
    cases outlet with
    | input | output | reader _ => exact .inr rfl
    | writer pipe => exact .inl (by rw [snd_write_sinkAt_writer])
  · simp only [step, Work.run, herror, Console.emit, Console.print, Console.write]
    cases outlet with
    | input | output | reader _ | writer _ => rfl

/-- The deeds of a stage that is carried out as a whole. -/
theorem Log.Leads.step (hl : log.Leads setting h c d) (i : Nat) (released : List StreamEnd)
    (hown : ∀ p, task.work = .program p →
      own (.run fun d => (Pipeline.step setting h released (d, feeds) task).1)) :
    ∃ deeds, Does setting h own task.work deeds ∧
      Leads setting h c (log ++ deeds.map (i, ·))
        (Pipeline.step setting h released (d, feeds) task).1 := by
  obtain ⟨work, inlet, outlet⟩ := task
  cases work with
  | program p =>
      have hfinds : (Deed.run fun d => (Pipeline.step setting h released (d, feeds)
        ⟨.program p, inlet, outlet⟩).1).Finds d.world := trivial
      refine ⟨[_], .ran fun deed hmem => ?_, hl.deed i hfinds⟩
      exact List.mem_singleton.mp hmem ▸ hown p rfl
  | builtin b arguments =>
      have hfinds : (Deed.work d.world b arguments).Finds d.world := rfl
      have hdone := (hl.read (feeds inlet)).deed i hfinds
      obtain ⟨htold, hcomplained⟩ :=
        step_builtin setting h b arguments released inlet outlet
      cases hresult : (b.run setting h d.world arguments).result with
      | ok text =>
          refine ⟨[_], .told hresult, ?_⟩
          obtain hd | hd := htold text hresult
          · rw [hd]
            exact hdone
          · rw [hd]
            exact hdone.write _
      | error error =>
          have hsays : (Deed.say (Bytes.ofText error.line)).Finds
            (b.run setting h d.world arguments).world := trivial
          refine ⟨[_, _], .complained hresult, ?_⟩
          rw [hcomplained error hresult, List.map_cons, ← List.singleton_append,
            ← List.append_assoc]
          exact hdone.deed i hsays

/-- The console and what there is to read when so many of the started stages have been carried
out. -/
def course (setting : Setting) (h : History) (l : Launch) (c : Console) (stages : Nat) :
    Console × Feeds :=
  (l.started.take stages).foldl (step setting h l.released) (c, Feeds.start c.input)

end finish

end LineShell.Pipeline
