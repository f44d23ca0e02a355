import LineShell.Proofs.Pipeline.Starting

/-!
Every end of a stream has one owner at a time and is closed once. While the stages are started
an end is with the shell, with a stage or dropped; from the first start on the open ends only
become fewer, and when the shell returns there is none.
-/

namespace LineShell

namespace Launch

open Pipeline

variable {m : Machine} {found : Nat → Console} {stages : List Stage}

theorem perm_handed_released (m : Machine) (found : Nat → Console) (stages : List Stage) :
    ((ofPipeline m found stages).handed ++ (ofPipeline m found stages).released).Perm
      (inlets (pipesMade m stages.length) ++ outlets (pipesMade m stages.length)) := by
  rw [ofPipeline, pipesMade]
  cases missingPipe? m (stages.length - 1) with
  | none => exact handed_released_perm m found 0 stages _ _
  | some missing => exact List.Perm.refl _

theorem ends_ofPipeline {i : Nat} {task : Task}
    (h : (ofPipeline m found stages).started[i]? = some task) :
    i < stages.length ∧ task.inlet = inletOf i ∧ task.outlet = outletOf stages.length i := by
  obtain ⟨stage, hstage, -⟩ := start_ofPipeline h
  have hi : i < stages.length := (List.getElem?_eq_some_iff.mp hstage).1
  obtain ⟨hin, hout⟩ := started_ofPipeline h
  rw [getElem?_inlets (by omega)] at hin
  rw [getElem?_outlets (by omega), Nat.sub_add_cancel (by omega)] at hout
  exact ⟨hi, (Option.some.inj hin).symm, (Option.some.inj hout).symm⟩

theorem map_eq_take {g : Task → StreamEnd} {tasks : List Task} {ends : List StreamEnd}
    (h : ∀ (i : Nat) (task : Task), tasks[i]? = some task → ends[i]? = some (g task)) :
    tasks.map g = ends.take tasks.length := by
  apply List.ext_getElem?
  intro i
  cases ht : tasks[i]? with
  | none =>
      rw [List.getElem?_map, ht, List.getElem?_take_eq_none (List.getElem?_eq_none_iff.mp ht)]
      rfl
  | some task =>
      rw [List.getElem?_map, ht, List.getElem?_take_of_lt (List.getElem?_eq_some_iff.mp ht).1,
        h i task ht]
      rfl

section IsPrefix

variable {tasks : List Task} (h : tasks <+: (ofPipeline m found stages).started)

include h

theorem started_of_isPrefix {i : Nat} {task : Task} (ht : tasks[i]? = some task) :
    (ofPipeline m found stages).started[i]? = some task := by
  obtain ⟨hi, rfl⟩ := List.getElem?_eq_some_iff.mp ht
  exact List.prefix_iff_getElem?.mp h i hi

theorem map_inlet_eq_take :
    tasks.map Task.inlet = (inlets (stages.length - 1)).take tasks.length :=
  map_eq_take fun _ _ ht => (started_ofPipeline (started_of_isPrefix h ht)).1

theorem map_outlet_eq_take :
    tasks.map Task.outlet = (outlets (stages.length - 1)).take tasks.length :=
  map_eq_take fun _ _ ht => (started_ofPipeline (started_of_isPrefix h ht)).2

end IsPrefix

/-- Ends that are left and ends that have been taken are all there are. -/
theorem perm_drop_take (ins outs : List StreamEnd) (i : Nat) :
    (ins.drop i ++ outs.drop i ++ (ins.take i ++ outs.take i)).Perm (ins ++ outs) := by
  rw [List.perm_iff_count]
  intro e
  have hin := congrArg (List.count e) (List.take_append_drop i ins)
  have hout := congrArg (List.count e) (List.take_append_drop i outs)
  rw [List.count_append] at hin hout
  simp only [List.count_append]
  omega

end Launch

namespace Pipeline

open Launch

namespace Starter

variable {m : Machine} {found : Nat → Console} {stages : List Stage} {s s' : Starter}

/-- Of the ends that there are each lies in one place: with the shell, with one stage, or among
those that have been dropped. No stage has found its place empty. -/
structure Owned (m : Machine) (found : Nat → Console) (stages : List Stage) (s : Starter) :
    Prop where
  ends : (s.held ++ s.handed ++ s.dropped).Perm (inlets s.pipes ++ outlets s.pipes)
  once : (s.held ++ s.handed ++ s.dropped).Nodup
  handover {i : Nat} {h : Handover} : s.started[i]? = some h →
    (∃ stage, stages[i]? = some stage ∧ stage.start m i (found i) = .ok h.work) ∧
      h.inlet = some (inletOf i) ∧ h.outlet = some (outletOf stages.length i)
  idle : s.point.isFinal → s.held = []

/-- What the shell has come to is this launch. -/
structure Yields (s : Starter) (l : Launch) : Prop where
  started : s.started = l.started.map Handover.ofTask
  dropped : s.dropped.Perm l.released
  failure : s.failure = l.failure

@[simp] theorem handed_map (point : Point) (pipes : Nat) (store : Store) (tasks : List Task)
    (dropped : List StreamEnd) (failure : Option ShellError) :
    handed ⟨point, pipes, store, tasks.map .ofTask, dropped, failure⟩ =
      tasks.map Task.inlet ++ tasks.map Task.outlet := by
  have hin : Handover.inlet ∘ Handover.ofTask = some ∘ Task.inlet := rfl
  have hout : Handover.outlet ∘ Handover.ofTask = some ∘ Task.outlet := rfl
  rw [handed, List.filterMap_map, List.filterMap_map, hin, hout, List.filterMap_eq_map,
    List.filterMap_eq_map]

theorem exists_tasks (h : Tracks m found stages s) :
    ∃ tasks, s.started = tasks.map Handover.ofTask ∧
      tasks <+: (ofPipeline m found stages).started := by
  cases h with
  | making | refused => exact ⟨[], rfl, List.nil_prefix⟩
  | @choosing tasks _ _ hl | @handing tasks _ _ hl =>
      refine ⟨tasks, rfl, ?_⟩
      rw [hl]
      exact List.prefix_append tasks _
  | @clearing _ _ _ tasks _ _ hl | @waiting _ _ tasks _ _ hl =>
      exact ⟨tasks, rfl, [], by rw [hl, List.append_nil]⟩

theorem perm_of_tracks (h : Tracks m found stages s) :
    (s.held ++ s.handed ++ s.dropped).Perm (inlets s.pipes ++ outlets s.pipes) := by
  obtain ⟨started, hstarted, hprefix⟩ := exists_tasks h
  have hperm := perm_handed_released m found stages
  have hmade (hn : ∀ i < stages.length - 1, m.pipeFault i = none) :
      pipesMade m stages.length = stages.length - 1 := by
    rw [pipesMade, missingPipe?_eq_none hn]
    rfl
  cases h with
  | making =>
      simp only [held, handed, Store.ends_before (Nat.zero_le _), Point.hands, List.append_nil,
        List.filterMap_nil, List.drop_zero]
      exact List.Perm.refl _
  | @choosing tasks hn hi hl =>
      have hp : tasks <+: (ofPipeline m found stages).started := hl ▸ List.prefix_append tasks _
      simp only [held, handed_map, Point.hands, List.append_nil]
      rw [Store.ends_before (by omega), map_inlet_eq_take hp, map_outlet_eq_take hp]
      exact perm_drop_take _ _ _
  | @handing tasks hn hi hl =>
      have hp : tasks <+: (ofPipeline m found stages).started := hl ▸ List.prefix_append tasks _
      have hle : tasks.length ≤ stages.length - 1 := by omega
      have hall := perm_drop_take (inlets (stages.length - 1)) (outlets (stages.length - 1))
        tasks.length
      have hout := drop_outlets hle
      rw [Nat.sub_add_cancel (by omega)] at hout
      simp only [held, handed_map, Point.hands, List.append_nil, Option.toList_some]
      rw [Store.ends_before (by omega), map_inlet_eq_take hp, map_outlet_eq_take hp]
      refine List.Perm.trans ?_ hall
      rw [drop_inlets hle, hout, List.perm_iff_count]
      intro e
      simp only [List.count_append, List.count_cons, List.count_nil]
      omega
  | @clearing store dropped released tasks failure hn hl hd =>
      rw [hl, hmade hn] at hperm
      simp only [held, handed_map, Point.hands, List.append_nil]
      refine List.Perm.trans ?_ hperm
      refine List.Perm.trans ?_ (List.Perm.append_left _ hd)
      rw [List.perm_iff_count]
      intro e
      simp only [Launch.handed, List.count_append]
      omega
  | @waiting dropped released tasks failure hn hl hd =>
      rw [hl, hmade hn] at hperm
      simp only [held, handed_map, Point.hands, List.append_nil]
      exact (List.Perm.append_left _ hd).trans hperm
  | refused hm => exact List.Perm.refl _

theorem owned_of_tracks (h : Tracks m found stages s) : s.Owned m found stages where
  ends := perm_of_tracks h
  once := (perm_of_tracks h).nodup_iff.mpr (nodup_ends s.pipes)
  handover {i given} hi := by
    obtain ⟨tasks, hstarted, hprefix⟩ := exists_tasks h
    rw [hstarted, List.getElem?_map, Option.map_eq_some_iff] at hi
    obtain ⟨task, ht, rfl⟩ := hi
    have ht := started_of_isPrefix hprefix ht
    obtain ⟨-, hin, hout⟩ := ends_ofPipeline ht
    exact ⟨start_ofPipeline ht, congrArg some hin, congrArg some hout⟩
  idle hf := by
    cases h with
    | waiting | refused => rfl
    | _ => exact hf.elim

theorem yields_of_tracks (h : Tracks m found stages s) (hf : s.point.isFinal) :
    s.Yields (ofPipeline m found stages) := by
  cases h with
  | waiting hn hl hd =>
      rw [hl]
      exact ⟨rfl, hd, rfl⟩
  | refused hm =>
      simp only [ofPipeline, hm]
      exact ⟨rfl, List.Perm.refl _, rfl⟩
  | _ => exact hf.elim

/-! The starting comes to an end -/

theorem exists_step (h : Tracks m found stages s) (hf : ¬s.point.isFinal) :
    ∃ s', Step m found stages s s' := by
  cases h with
  | @making pipes hn _ =>
      by_cases hlt : pipes < stages.length - 1
      · cases hfault : m.pipeFault pipes with
        | none => exact ⟨_, .pipe rfl hlt hfault⟩
        | some fault => exact ⟨_, .noPipe rfl hlt hfault⟩
      · exact ⟨_, .piped rfl (Nat.le_of_not_lt hlt)⟩
  | @choosing tasks =>
      by_cases hlt : tasks.length < stages.length
      · exact ⟨_, .take rfl hlt rfl⟩
      · exact ⟨_, .started rfl (Nat.le_of_not_lt hlt)⟩
  | @handing tasks _ hi =>
      have hstage := List.getElem?_eq_getElem hi
      cases hfault : m.shareFault tasks.length with
      | some fault => exact ⟨_, .notShared rfl hfault⟩
      | none =>
          cases hstart : stages[tasks.length].start m tasks.length (found tasks.length) with
          | error e => exact ⟨_, .notStarted rfl hfault hstage hstart⟩
          | ok work => exact ⟨_, .start rfl hfault hstage hstart⟩
  | clearing => exact ⟨_, .clear rfl⟩
  | waiting | refused => exact absurd trivial hf

/-- A bound on the steps that are left. -/
def rank (stages : Nat) (s : Starter) : Nat :=
  match s.point with
  | .making => (stages - s.pipes) + 2 * stages + 4
  | .choosing i => 2 * (stages - i) + 3
  | .handing i _ _ => 2 * (stages - i) + 2
  | .clearing => 1
  | .waiting | .refused => 0

theorem Step.rank_lt (hs : Step m found stages s s') :
    s'.rank stages.length < s.rank stages.length := by
  cases hs with
  | pipe hp hn => simp only [rank, hp]; omega
  | noPipe hp | piped hp | take hp | notShared hp | notStarted hp | started hp | clear hp =>
      simp only [rank, abandon, hp]
      omega
  | start hp _ hi =>
      have hlt := (List.getElem?_eq_some_iff.mp hi).1
      simp only [rank, hp]
      omega

theorem exists_final (h : Reachable m found stages s) :
    ∃ s', Reachable m found stages s' ∧ s'.point.isFinal := by
  induction hn : s.rank stages.length using Nat.strongRecOn generalizing s with
  | ind n ih =>
      by_cases hf : s.point.isFinal
      · exact ⟨s, h, hf⟩
      · obtain ⟨s', hs⟩ := exists_step (tracks_of_reachable h) hf
        exact ih _ (hn ▸ hs.rank_lt) (h.tail hs) rfl

end Starter

namespace System

variable {m : Machine} {found : Nat → Console} {stages : List Stage} {κ : Circumstances}
  {l : Launch} {s : System}

theorem nodup_opened {c : Console} (h : Reachable κ (ofPipeline m found stages) c s) :
    (s.opened (ofPipeline m found stages)).Nodup := by
  induction h with
  | refl =>
      have hperm := (opened_start_perm (ofPipeline m found stages) c).trans
        (perm_handed_released m found stages)
      exact hperm.nodup_iff.mpr (nodup_ends _)
  | tail _ hs ih =>
      obtain ⟨left, hperm, hsub⟩ := hs.opened_subperm
      exact hperm.nodup_iff.mp (ih.sublist hsub)

theorem opened_of_returned {c : Console} (h : Reachable κ l c s) (hr : s.phase = .returned) :
    s.opened l = [] := by
  rw [opened, held, hr, List.nil_append, List.flatMap_eq_nil_iff]
  intro p hp
  obtain ⟨i, hi⟩ := List.mem_iff_getElem?.mp hp
  obtain ⟨task, -, hown⟩ := (sound_of_reachable h).own hi
  obtain ⟨hin, hout⟩ := hown.ended ((ended_of_returned h hr).2 p hp)
  rw [Process.ends, hin, hout]
  rfl

end System

/-- Each end of a stream has one owner and is closed once, wherever making a pipe, sharing the
error stream or starting a stage fails. The shell's starting comes to an end, at every moment
of it each end is in one place, and at the end the shell has none left; then the stages run,
an open end stays with one owner, none is opened again, and at the return none is open. -/
theorem each_end_owned_and_closed_once (m : Machine) (found : Nat → Console) (c : Console)
    (stages : List Stage) :
    let l := ofPipeline m found stages
    (∃ s, Starter.Reachable m found stages s ∧ s.point.isFinal) ∧
    (∀ s, Starter.Reachable m found stages s →
      s.Owned m found stages ∧ (s.point.isFinal → s.Yields l)) ∧
    ((System.start c).opened l).Perm
      (inlets (pipesMade m stages.length) ++ outlets (pipesMade m stages.length)) ∧
    ∀ κ s, System.Reachable κ l c s →
      (s.opened l).Nodup ∧
      (∀ s', System.Step κ l s s' → (s'.opened l).Subperm (s.opened l)) ∧
      (s.phase = .returned → s.opened l = []) := by
  intro l
  refine ⟨Starter.exists_final .refl, fun s hs => ?_, ?_, fun κ s hs => ?_⟩
  · have htracks := Starter.tracks_of_reachable hs
    exact ⟨Starter.owned_of_tracks htracks, Starter.yields_of_tracks htracks⟩
  · exact (System.opened_start_perm l c).trans (perm_handed_released m found stages)
  · exact ⟨System.nodup_opened hs, fun s' hstep => hstep.opened_subperm,
      System.opened_of_returned hs⟩

/-- Two programs have the ends that they need, those of the third one are dropped, and when the
two have ended nothing is open. -/
theorem ends_closed_behind_refused_stage :
    let c : Console := ⟨⟨Tree.empty, Tree.root⟩, {}, .keep {}, .keep {}⟩
    let stages : List Stage :=
      [.program "yes" "yes" [], .program "yes" "yes" [], .builtin .pwd []]
    let l := ofPipeline thirdRefused (fun _ => c) stages
    let κ : Circumstances := { endless with programs := fun _ _ => .exit }
    (∃ s, Starter.Reachable thirdRefused (fun _ => c) stages s ∧ s.point.isFinal ∧
      s.Owned thirdRefused (fun _ => c) stages ∧ s.Yields l ∧
      s.handed = [.input, .reader 0, .writer 0, .writer 1] ∧
      s.dropped = [.reader 1, .output]) ∧
    ∃ s, System.Reachable κ l c s ∧ s.phase = .returned ∧ (s.opened l).Nodup ∧
      s.opened l = [] := by
  intro c stages l κ
  obtain ⟨-, howned, -, hsystem⟩ :=
    each_end_owned_and_closed_once thirdRefused (fun _ => c) c stages
  have hpipes : Starter.Reachable thirdRefused (fun _ => c) stages _ :=
    ((Relation.ReflTransGen.refl.tail (.pipe rfl (by decide) rfl)).tail
      (.pipe rfl (by decide) rfl)).tail (.piped rfl (by decide))
  have hfirst := (hpipes.tail (.take rfl (by decide) rfl)).tail (.start rfl rfl rfl rfl)
  have hsecond := (hfirst.tail (.take rfl (by decide) rfl)).tail (.start rfl rfl rfl rfl)
  have hlast := ((hsecond.tail (.take rfl (by decide) rfl)).tail (.notShared rfl rfl)).tail
    (.clear rfl)
  have hstarted : System.Reachable κ l c _ :=
    ((Relation.ReflTransGen.refl.tail (.launch rfl rfl)).tail (.launch rfl rfl)).tail
      (.launched rfl (by decide))
  have hwaiting := ((hstarted.tail (.release rfl)).tail (.release rfl)).tail (.await rfl)
  have hended := (hwaiting.tail (.move (i := 0) rfl rfl (.exit rfl))).tail
    (.move (i := 1) rfl rfl (.exit rfl))
  have hback := ((hended.tail (.join rfl rfl rfl)).tail (.join rfl rfl rfl)).tail (.back rfl)
  refine ⟨⟨_, hlast, trivial, (howned _ hlast).1, (howned _ hlast).2 trivial, rfl, rfl⟩,
    _, hback, rfl, (hsystem κ _ hback).1, (hsystem κ _ hback).2.2 rfl⟩

end Pipeline

end LineShell
