import LineShell.Proofs.Pipeline.Agreement
import LineShell.Proofs.Pipeline.Ownership

/-!
A pipeline that is abandoned at a program which cannot be started. The stages before it have been
started and come to their ends as they would, only nobody reads the last of their pipes; the
stages from there on are never started, and nothing reaches the session's output.
-/

namespace LineShell

namespace Stage

variable {search : SearchPath} {w : World}

end Stage

namespace Launch

open Pipeline

variable {m : Machine} {found : Nat → Console} {stages : List Stage} {k : Nat} {path name : String}
  {arguments : List String} {fault : Fault}

/-- The pipes can be made, and the program that is stage `k` is the first that cannot be
started. The machine is asked for each stage by its number and on the console of that moment, to
which the stages that run already may have done something. -/
structure RefusedAt (m : Machine) (found : Nat → Console) (stages : List Stage) (k : Nat)
    (path name : String) (arguments : List String) (fault : Fault) : Prop where
  pipes : ∀ i < stages.length - 1, m.pipeFault i = none
  shared : ∀ i ≤ k, m.shareFault i = none
  stage : stages[k]? = some (.program path name arguments)
  refused : m.start k (found k) path (name :: arguments) = .error fault
  before : ∀ i < k, ∀ path name arguments, stages[i]? = some (.program path name arguments) →
    ∃ p, m.start i (found i) path (name :: arguments) = .ok p

theorem behind_behind (l : Launch) (tasks tasks' : List Task) :
    (l.behind tasks').behind tasks = l.behind (tasks ++ tasks') := by
  simp [behind]

theorem RefusedAt.lt_length (h : RefusedAt m found stages k path name arguments fault) :
    k < stages.length :=
  (List.getElem?_eq_some_iff.mp h.stage).1

theorem RefusedAt.exists_work (h : RefusedAt m found stages k path name arguments fault) {i : Nat}
    (hi : i < k) :
    ∃ stage work, stages[i]? = some stage ∧ stage.start m i (found i) = .ok work := by
  have hlt := Nat.lt_trans hi h.lt_length
  have hstage : stages[i]? = some stages[i] := List.getElem?_eq_getElem hlt
  cases hs : stages[i] with
  | builtin b arguments => exact ⟨_, .builtin b arguments, hs ▸ hstage, rfl⟩
  | program path name arguments =>
      obtain ⟨p, hp⟩ := h.before i hi path name arguments (hs ▸ hstage)
      exact ⟨_, .program p, hs ▸ hstage, by rw [Stage.start, hp]⟩

/-- The stages up to one that is not behind the refused program are started one by one. -/
theorem RefusedAt.exists_behind (h : RefusedAt m found stages k path name arguments fault) {i : Nat}
    (hi : i ≤ k) :
    ∃ tasks, tasks.length = i ∧
      ofPipeline m found stages = (ofStage m found stages i).behind tasks := by
  induction i with
  | zero => exact ⟨[], rfl, ofPipeline_eq h.pipes⟩
  | succ i ih =>
      obtain ⟨tasks, hlength, hl⟩ := ih (Nat.le_of_succ_le hi)
      obtain ⟨stage, work, hstage, hwork⟩ := h.exists_work hi
      rw [ofStage_of_started hstage (h.shared i (Nat.le_of_succ_le hi)) hwork,
        behind_behind] at hl
      exact ⟨_, by rw [List.length_append, hlength]; rfl, hl⟩

end Launch

namespace Pipeline

variable {setting : Setting} {h : History} {l : Launch} {c : Console}

theorem Move.output_eq {κ : Circumstances} {opened : List StreamEnd} {p p' : Process}
    {t t' : Traffic} (hm : Move κ opened p t p' t') (ho : p.outlet ≠ some .output) :
    t'.output = t.output ∧ t'.console.out = t.console.out := by
  cases hm with
  | @take _ _ e => cases e <;> exact ⟨rfl, rfl⟩
  | @send _ _ e _ he =>
      cases e with
      | output => exact absurd he ho
      | input | reader _ | writer _ => exact ⟨rfl, rfl⟩
  | finish | readNothing | sent | broken | complain | visit | closeInlet | closeOutlet | exit =>
      exact ⟨rfl, rfl⟩

namespace System

variable {κ : Circumstances} {s s' : System}

/-- So far the session's output has received nothing. -/
structure Silent (c : Console) (s : System) : Prop where
  output : s.traffic.output = []
  out : s.traffic.console.out = c.out

theorem Silent.step
    (ho : ∀ (i : Nat) (task : Task), l.started[i]? = some task → task.outlet = .writer i)
    (hsound : s.Sound l) (hsilent : s.Silent c) (hs : Step κ l s s') : s'.Silent c := by
  cases hs with
  | launch | launched | release | await | join | back => exact ⟨hsilent.output, hsilent.out⟩
  | @move i p p' t hi he hm =>
      obtain ⟨houtput, hout⟩ := hm.output_eq fun hout => by
        obtain ⟨task, ht, hown⟩ := hsound.own hi
        cases (hown.outlet hout).trans (ho i task ht)
      exact ⟨houtput.trans hsilent.output, hout.trans hsilent.out⟩

end System

end Pipeline

open Launch Pipeline

end LineShell
