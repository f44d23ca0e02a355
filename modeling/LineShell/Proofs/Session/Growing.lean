import LineShell.Proofs.Builtin.Effects
import LineShell.Proofs.Pipeline.Determinacy
import LineShell.Proofs.Session.Course
import LineShell.Proofs.Session.Redirection

/-!
What a session does to the tree of files. Nothing in the shell itself takes an entry away or puts
a link anywhere, so if the programs that it starts do neither, directories have their old entries
in the end and every way that there was leads where it led.
-/

namespace LineShell

/-- Whatever it finds, the program may make files and write to them, and no more. -/
def Program.OnlyAdds (p : Program) : Prop :=
  ∀ c, Tree.Grown c.world.tree (p c).world.tree

/-- All programs that can be started are of that kind. -/
def Machine.OnlyAdds (m : Machine) : Prop :=
  ∀ i c path arguments p, m.start i c path arguments = .ok p → Program.OnlyAdds p

def Work.OnlyAdds : Work → Prop
  | .builtin _ _ => True
  | .program p => p.OnlyAdds

namespace World

theorem grown_writeAt (w : World) (id : NodeId) (offset : Nat) (b : Bytes) :
    Tree.Grown w.tree (w.writeAt id offset b).tree := by
  unfold writeAt
  split
  · exact w.tree.grown_setContent id _
  · exact .refl w.tree

theorem grown_appendTo (w : World) (id : NodeId) (b : Bytes) :
    Tree.Grown w.tree (w.appendTo id b).tree := by
  unfold appendTo
  split
  · exact w.tree.grown_setContent id _
  · exact .refl w.tree

theorem grown_create {w : World} {path : String} {dir : NodeId} {name : String}
    (hplace : w.resolve true path = .ok (.vacant dir name)) (content : Bytes) (mode : Nat) :
    Tree.Grown w.tree (w.tree.create dir name (.file content mode)).2 := by
  obtain ⟨entries, parent, hd, hl⟩ := misses_of_resolve hplace
  exact Tree.grown_create hd hl nofun

theorem Rewrites.grown {w w' : World} {path : String} {change : Bytes → Bytes}
    (h : w.Rewrites path change w') : Tree.Grown w.tree w'.tree := by
  cases h with
  | @file id _ _ _ hnode =>
      rw [Tree.put_eq_setContent hnode]
      exact w.tree.grown_setContent id _
  | null => exact .refl w.tree
  | made hplace => exact grown_create hplace _ _

end World

theorem Line.Redirection.Opens.grown {r : Redirection} {w w' : World} {sink : Sink}
    (h : r.Opens w (.ok (sink, w'))) : Tree.Grown w.tree w'.tree := by
  cases h with
  | @there id =>
      split
      · exact .refl w.tree
      · exact w.tree.grown_setContent id []
  | made hplace => exact World.grown_create hplace _ _

theorem Sink.grown_write (s : Sink) (w : World) (b : Bytes) :
    Tree.Grown w.tree (s.write w b).2.tree := by
  cases s with
  | keep _ | discard | broken | refuse => exact .refl w.tree
  | file id append offset =>
      cases append with
      | true => exact w.grown_appendTo id b
      | false => exact w.grown_writeAt id offset b

namespace Console

variable (c : Console)

theorem grown_print (channel : Channel) (s : String) :
    Tree.Grown c.world.tree (c.print channel s).world.tree := by
  cases channel with
  | out => exact c.out.grown_write c.world _
  | err => exact c.err.grown_write c.world _

theorem grown_emit (result : Except ShellError String) :
    Tree.Grown c.world.tree (c.emit result).world.tree := by
  cases result with
  | ok s => exact c.grown_print .out s
  | error e => exact c.grown_print .err e.line

theorem grown_report (e : Option ShellError) :
    Tree.Grown c.world.tree (c.report e).world.tree := by
  cases e with
  | none => exact .refl _
  | some e => exact c.grown_print .err e.line

theorem Redirects.grown {c c' : Console} {r : Option Line.Redirection} {sink : Option Sink}
    (h : c.Redirects r sink c') : Tree.Grown c.world.tree c'.world.tree := by
  cases h with
  | unasked => exact .refl _
  | opened h => exact h.grown
  | refused => exact c.grown_print .err _

theorem grown_redirect (r : Option Line.Redirection) :
    Tree.Grown c.world.tree (c.redirect r).2.world.tree :=
  (c.redirects_redirect r).grown

theorem grown_ask (r : LineReader) (st : r.State) :
    Tree.Grown c.world.tree (r.ask prompt st c).2.2.world.tree :=
  c.out.grown_write c.world _

end Console

variable {m : Machine} (setting : Setting) (h : History) (c : Console)

theorem Builtin.grown_run (w : World) (b : Builtin) (arguments : List String) :
    Tree.Grown w.tree (b.run setting h w arguments).world.tree := by
  have hsound : Sound setting h w b arguments (b.run setting h w arguments) :=
    sound_run b arguments
  cases hresult : (b.run setting h w arguments).result with
  | error error =>
      rw [(hsound.failure error hresult).2]
      exact .refl w.tree
  | ok text =>
      generalize (b.run setting h w arguments).world = w',
        (b.run setting h w arguments).history = h', hsound.success text hresult = hc
      cases hc with
      | keeps | moves | lists | loads => exact .refl w.tree
      | writes hw | appends hw => exact hw.grown

theorem Work.grown_run (work : Work) (hw : work.OnlyAdds) :
    Tree.Grown c.world.tree (work.run setting h c).world.tree := by
  cases work with
  | builtin b arguments =>
      let e := b.run setting h c.world arguments
      have hemit := ({ c with world := e.world } : Console).grown_emit e.result
      exact (b.grown_run setting h c.world arguments).trans hemit
  | program p => exact hw c

theorem Stage.onlyAdds_of_start (hm : m.OnlyAdds) {i : Nat} {c : Console} {stage : Stage}
    {work : Work} (hstart : stage.start m i c = .ok work) : work.OnlyAdds := by
  cases stage with
  | builtin b arguments =>
      cases hstart
      trivial
  | program path name arguments =>
      obtain ⟨p, hp, rfl⟩ := Stage.exists_of_start hstart
      exact hm _ _ _ _ p hp

namespace Pipeline

theorem grown_step (released : List StreamEnd) (state : Console × Feeds) {task : Task}
    (hw : task.work.OnlyAdds) :
    Tree.Grown state.1.world.tree (step setting h released state task).1.world.tree := by
  have hrun := Work.grown_run setting h
    { state.1 with input := state.2 task.inlet, out := sinkAt released state.1.out task.outlet }
    task.work hw
  unfold step
  dsimp only
  split <;> exact hrun

theorem grown_foldl_step (released : List StreamEnd) {tasks : List Task}
    (hw : ∀ task ∈ tasks, task.work.OnlyAdds) (state : Console × Feeds) :
    Tree.Grown state.1.world.tree
      (tasks.foldl (step setting h released) state).1.world.tree := by
  induction tasks generalizing state with
  | nil => exact .refl _
  | cons task tasks ih =>
      have hstep := grown_step setting h released state (hw task List.mem_cons_self)
      exact hstep.trans (ih (fun other ho => hw other (List.mem_cons_of_mem task ho)) _)

theorem grown_finish {l : Launch} (hw : ∀ task ∈ l.started, task.work.OnlyAdds) :
    Tree.Grown c.world.tree (finish setting h c l).world.tree := by
  have hrun := grown_foldl_step setting h l.released hw (c, Feeds.start c.input)
  cases hran : l.started.foldl (step setting h l.released) (c, Feeds.start c.input) with
  | mk c' feeds =>
      rw [hran] at hrun
      simp only [finish, hran]
      split
      · exact hrun
      · exact hrun.trans (Console.grown_print { c' with input := feeds .input } .err _)

theorem grown_run (hm : m.OnlyAdds) (segs : List (List String)) :
    Tree.Grown c.world.tree (run m setting h c segs).world.tree := by
  unfold run
  split
  · exact c.grown_print .err _
  · apply grown_finish
    intro task htask
    obtain ⟨k, hk⟩ := List.getElem?_of_mem htask
    obtain ⟨stage, -, hstart⟩ := Launch.start_ofPipeline hk
    exact Stage.onlyAdds_of_start hm hstart

end Pipeline

theorem grown_runCommand (hm : m.OnlyAdds) (args : List String) :
    Tree.Grown c.world.tree (runCommand m setting h c args).console.world.tree := by
  cases args with
  | nil => exact .refl _
  | cons name arguments =>
      rw [runCommand]
      split
      · exact .refl _
      · exact Work.grown_run setting h c (.builtin _ arguments) trivial
      split
      · exact c.grown_emit _
      split
      · exact c.grown_emit _
      · rename_i p hp
        exact hm _ _ _ _ p hp c

theorem grown_execute (hm : m.OnlyAdds) (segs : List (List String)) :
    Tree.Grown c.world.tree (execute m setting h c segs).console.world.tree := by
  unfold execute
  split
  · exact .refl _
  · exact grown_runCommand setting h c hm _
  · exact Pipeline.grown_run setting h c hm segs

namespace Session

variable {c}

theorem grown_runJob (hm : m.OnlyAdds) (s : Session) (job : Line.Job) :
    Tree.Grown c.world.tree (s.runJob m c job).console.world.tree := by
  have hout := c.grown_redirect job.out
  cases hfirst : c.redirect job.out with
  | mk out c₁ =>
      cases hsecond : c₁.redirect job.err with
      | mk err c₂ =>
          have herr := c₁.grown_redirect job.err
          rw [hfirst] at hout
          rw [hsecond] at herr
          simp only [runJob, hfirst, hsecond]
          have hrun := grown_execute s.setting s.history
            { c₂ with out := out.getD c₂.out, err := err.getD c₂.err } hm job.stages
          exact (hout.trans herr).trans hrun

theorem grown_eval (hm : m.OnlyAdds) (s : Session) (line : String) :
    Tree.Grown c.world.tree (s.eval m c line).2.2.world.tree := by
  unfold eval
  dsimp only
  split
  · exact .refl _
  · split
    · exact .refl _
    · exact .refl _
    · exact grown_runJob hm _ _

theorem Course.grown (hm : m.OnlyAdds) {r : LineReader} {s : Session} {st : r.State}
    {last : Console} {reads : List Read} {steps : List (Console × String)} {stop : Stop}
    (h : s.Course m r st c reads steps stop last) : Tree.Grown c.world.tree last.world.tree := by
  have of_ask {st st' : r.State} {c c' : Console} {read : Read}
      (hread : r.ask prompt st c = (read, st', c')) : Tree.Grown c.world.tree c'.world.tree := by
    have hask := c.grown_ask r st
    rwa [hread] at hask
  have of_eval {s s' : Session} {c c' : Console} {line : String} {flow : Flow}
      (heval : s.eval m c line = (flow, s', c')) : Tree.Grown c.world.tree c'.world.tree := by
    have hgrown := grown_eval (c := c) hm s line
    rwa [heval] at hgrown
  induction h with
  | exhausted hread | unread hread => exact of_ask hread
  | left hread heval => exact (of_ask hread).trans (of_eval heval)
  | interrupted hread _ ih => exact (of_ask hread).trans ih
  | proceed hread heval _ ih => exact ((of_ask hread).trans (of_eval heval)).trans ih

end Session

theorem grown_dialogue (hm : m.OnlyAdds) {r : LineReader} {env : Environment} {ending : Ending}
    {s : Session} {last : Console} (h : dialogue m r env c = some (ending, s, last)) :
    Tree.Grown c.world.tree last.world.tree := by
  obtain ⟨reads, steps, stop, last, hcourse, hended⟩ := Session.exists_course_of_dialogue h
  cases hended
  exact (c.grown_report _).trans (hcourse.grown hm)

end LineShell
