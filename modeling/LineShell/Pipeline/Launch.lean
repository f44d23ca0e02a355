import LineShell.Machine
import LineShell.Pipeline.Stage

/-!
Starting the stages of a pipeline. Pipe `i` joins stage `i` to the next one. Each end of a
stream is handed to one stage or released by the shell, and after the last start the shell
holds none.
-/

namespace LineShell

/-- An end of a stream: of the session's own input and output, or of a pipe. -/
inductive StreamEnd
  | input
  | output
  | reader (pipe : Nat)
  | writer (pipe : Nat)
  deriving DecidableEq, Repr

/-- What a started stage does. -/
inductive Work
  | builtin (b : Builtin) (arguments : List String)
  | program (p : Program)

/-- A started stage and the two ends it was handed. -/
structure Task where
  work : Work
  inlet : StreamEnd
  outlet : StreamEnd

/-- How the starts went: the stages started, in order, the ends that the shell released
itself, and why the next stage did not start. -/
structure Launch where
  started : List Task
  released : List StreamEnd
  failure : Option ShellError

/-- The ends that stages read from, the first stage's first. -/
def inlets (pipes : Nat) : List StreamEnd :=
  .input :: (List.range pipes).map .reader

/-- The ends that stages write to, the last stage's last. -/
def outlets (pipes : Nat) : List StreamEnd :=
  (List.range pipes).map .writer ++ [.output]

/-- Starts a stage under its number, on the console of that moment. -/
def Stage.start (m : Machine) (i : Nat) (c : Console) : Stage → Except ShellError Work
  | .builtin b arguments => .ok (.builtin b arguments)
  | .program path name arguments =>
      match m.start i c path (name :: arguments) with
      | .ok p => .ok (.program p)
      | .error fault => .error (.start name fault)

theorem Stage.exists_of_start {m : Machine} {i : Nat} {c : Console} {path name : String}
    {arguments : List String} {work : Work}
    (h : (Stage.program path name arguments).start m i c = .ok work) :
    ∃ p, m.start i c path (name :: arguments) = .ok p ∧ work = .program p := by
  rw [start] at h
  split at h
  · rename_i p hp
    exact ⟨p, hp, (Except.ok.inj h).symm⟩
  · cases h

namespace Launch

/-- Starts stages from number `i` on, each with the next end to read from and the next to
write to, on the console that is found at its start. A stage that cannot be started is the last
one tried; its ends are released. -/
def ofStages (m : Machine) (found : Nat → Console) :
    Nat → List Stage → List StreamEnd → List StreamEnd → Launch
  | i, stage :: rest, inlet :: inlets, outlet :: outlets =>
      match m.shareFault i with
      | some fault => ⟨[], inlet :: inlets ++ outlet :: outlets, some (.pipe fault)⟩
      | none =>
          match stage.start m i (found i) with
          | .error e => ⟨[], inlet :: inlets ++ outlet :: outlets, some e⟩
          | .ok work =>
              let l := ofStages m found (i + 1) rest inlets outlets
              { l with started := ⟨work, inlet, outlet⟩ :: l.started }
  | _, _, inlets, outlets => ⟨[], inlets ++ outlets, none⟩

/-- The first of some pipes that cannot be made. -/
def missingPipe? (m : Machine) (pipes : Nat) : Option (Nat × Fault) :=
  (List.range pipes).findSome? fun i => (m.pipeFault i).map fun fault => (i, fault)

/-- Makes the pipes between the stages, then starts the stages. -/
def ofPipeline (m : Machine) (found : Nat → Console) (stages : List Stage) : Launch :=
  let pipes := stages.length - 1
  match missingPipe? m pipes with
  | some (made, fault) => ⟨[], inlets made ++ outlets made, some (.pipe fault)⟩
  | none => ofStages m found 0 stages (inlets pipes) (outlets pipes)

/-- The ends handed to stages. -/
def handed (l : Launch) : List StreamEnd :=
  l.started.map Task.inlet ++ l.started.map Task.outlet

/-- No end is lost, and none goes to two places. -/
theorem handed_released_perm (m : Machine) (found : Nat → Console) (i : Nat)
    (stages : List Stage) (ins outs : List StreamEnd) :
    ((ofStages m found i stages ins outs).handed ++
      (ofStages m found i stages ins outs).released).Perm (ins ++ outs) := by
  fun_induction ofStages m found i stages ins outs with
  | case1 | case2 | case4 => exact List.Perm.refl _
  | case3 i stage rest inlet ins outlet outs _ work _ l ih =>
      have ih : ((l.started.map Task.inlet ++ l.started.map Task.outlet) ++ l.released).Perm
          (ins ++ outs) := ih
      simp only [handed, List.map_cons, List.cons_append]
      refine List.Perm.cons inlet ?_
      refine (List.Perm.append_right _ List.perm_middle).trans ?_
      refine (List.Perm.cons outlet ih).trans ?_
      exact List.perm_middle.symm

end Launch

end LineShell
