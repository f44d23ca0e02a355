import LineShell.Proofs.Pipeline.System
import Mathlib.Data.List.Perm.Subperm

/-!
Closing the ends of streams. The open ends pass from the shell to the stages and from there to
nobody: a step may close some of them, and it opens none.
-/

namespace LineShell

namespace Pipeline

theorem Move.ends_sublist {κ : Circumstances} {opened : List StreamEnd} {p p' : Process}
    {t t' : Traffic} (h : Move κ opened p t p' t') : p'.ends.Sublist p.ends := by
  cases h with
  | take | finish | readNothing | send | sent | broken | complain | visit => exact .refl _
  | closeInlet => exact List.sublist_append_right _ _
  | closeOutlet => exact List.Sublist.append_left (List.nil_sublist _) _
  | exit => exact List.nil_sublist _

namespace System

variable {κ : Circumstances} {l : Launch} {s s' : System}

theorem held_of_launch {task : Task} (hp : s.phase = .starting)
    (ht : l.started[s.processes.length]? = some task) :
    s.held l = task.inlet :: task.outlet :: l.remaining (s.processes.length + 1) := by
  obtain ⟨hlt, rfl⟩ := List.getElem?_eq_some_iff.mp ht
  simp only [held, hp, Launch.remaining]
  rw [List.drop_eq_getElem_cons hlt]
  rfl

theorem Step.opened_subperm (hs : Step κ l s s') : (s'.opened l).Subperm (s.opened l) := by
  have of_held (hp : s'.processes = s.processes) (h : (s'.held l).Sublist (s.held l)) :
      (s'.opened l).Subperm (s.opened l) := by
    rw [opened, opened, hp]
    exact (h.append_right _).subperm
  cases hs with
  | @launch task hp ht =>
      have hends : (κ.process s.processes.length task).ends = [task.inlet, task.outlet] := rfl
      rw [opened, opened, held_of_launch hp ht]
      simp only [held, hp, List.length_append, List.length_singleton, List.flatMap_append,
        List.flatMap_singleton, hends]
      apply List.Perm.subperm
      rw [List.perm_iff_count]
      intro e
      simp only [List.count_append, List.count_cons, List.count_nil]
      omega
  | launched hp hn =>
      refine of_held rfl ?_
      simp only [held, hp]
      exact List.sublist_append_right _ _
  | release hp =>
      refine of_held rfl ?_
      simp only [held, hp]
      exact List.sublist_cons_self _ _
  | await | join | back => exact of_held rfl (List.nil_sublist _)
  | @move i p p' t hi he hm =>
      obtain ⟨hlt, rfl⟩ := List.getElem?_eq_some_iff.mp hi
      have hheld :
          held l { s with processes := s.processes.set i p', traffic := t } = s.held l := by
        simp only [held, List.length_set]
      rw [opened, opened, hheld]
      refine (List.Sublist.append_left ?_ _).subperm
      have hsplit : s.processes =
          s.processes.take i ++ s.processes[i] :: s.processes.drop (i + 1) := by
        rw [List.getElem_cons_drop, List.take_append_drop]
      rw [List.set_eq_take_append_cons_drop, if_pos hlt]
      conv => rhs; rw [hsplit]
      simp only [List.flatMap_append, List.flatMap_cons]
      exact (hm.ends_sublist.append_right _).append_left _

/-- No step opens an end. -/
theorem Step.mem_opened (hs : Step κ l s s') {e : StreamEnd} (he : e ∈ s'.opened l) :
    e ∈ s.opened l :=
  hs.opened_subperm.subset he

/-- Before the first start the shell has all ends. -/
theorem opened_start_perm (l : Launch) (c : Console) :
    ((start c).opened l).Perm (l.handed ++ l.released) := by
  rw [opened, start, List.flatMap_nil, List.append_nil]
  refine List.Perm.append_right _ ?_
  rw [List.length_nil, List.drop_zero, Launch.handed]
  induction l.started with
  | nil => exact List.Perm.refl _
  | cons task tasks ih =>
      simp only [List.flatMap_cons, List.map_cons, List.cons_append, List.nil_append]
      exact .cons _ ((ih.cons _).trans List.perm_middle.symm)

end System

end Pipeline

end LineShell
