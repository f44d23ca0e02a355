import LineShell.Proofs.Pipeline.Log

/-!
When the order of steps is no matter to the files. If no stage changes what another one finds,
the builtins of a pipeline come to the same files and the same working directory in whatever
order they are carried out, and the lines of those that fail reach the error stream in some order.
So the stages side by side leave what they leave one after the other.
-/

namespace LineShell

namespace Pipeline

namespace Deed

def work? : Deed → Option (Builtin × List String)
  | work _ b arguments => some (b, arguments)
  | say _ | run _ => none

def said? : Deed → Option Bytes
  | say b => some b
  | work _ _ _ | run _ => none

/-- What a program may do that has nothing to do with the files and nothing to say. -/
def Spares : Deed → Prop
  | work _ _ _ | say _ => False
  | run change => ∀ d,
      (change d).world = d.world ∧ (change d).err = d.err ∧
        (change d).out.target? = d.out.target?

end Deed

namespace Log

/-- What some of the deeds come to, each under the number of its stage. -/
def noted {α : Type} (f : Deed → Option α) (log : Log) : List (Nat × α) :=
  log.filterMap fun e => (f e.2).map (e.1, ·)

theorem noted_append {α : Type} (f : Deed → Option α) (log log' : Log) :
    (log ++ log').noted f = log.noted f ++ log'.noted f :=
  List.filterMap_append

theorem noted_none {α : Type} {f : Deed → Option α} {i : Nat} {deed : Deed} (h : f deed = none) :
    noted f [(i, deed)] = [] := by
  simp [noted, h]

end Log

end Pipeline

namespace Work

/-- The builtin that is to be carried out, if it is one. -/
def asked : Work → List (Builtin × List String)
  | builtin b arguments => [(b, arguments)]
  | program _ => []

/-- The lines that a builtin complains with when it is carried out on these files. -/
def complaints (setting : Setting) (h : History) (w : World) : Work → List Bytes
  | builtin b arguments =>
      match (b.run setting h w arguments).result with
      | .ok _ => []
      | .error e => [Bytes.ofText e.line]
  | program _ => []

end Work

namespace Pipeline

namespace Apart

variable {κ : Circumstances} {l : Launch} {c d d' : Console} {calm : World → Prop}
  {log log' : Log}

/-- Every deed is that of a builtin among the stages or touches nothing. -/
def Fits (l : Launch) (deed : Deed) : Prop :=
  (∃ w b arguments, deed = .work w b arguments ∧
    ∃ task ∈ l.started, task.work = .builtin b arguments) ∨
  (∃ b, deed = .say b) ∨ deed.Spares

def effect (κ : Circumstances) (w : World) (e : Nat × Builtin × List String) : World :=
  (e.2.1.run κ.setting κ.history w e.2.2).world

/-- The streams and files behind a log, as far as the builtins and their lines have made them. -/
structure Led (κ : Circumstances) (c : Console) (calm : World → Prop) (log : Log) (d : Console) :
    Prop where
  world : d.world = (log.noted Deed.work?).foldl (effect κ) c.world
  err : d.err = c.err.wrote ((log.noted Deed.said?).map Prod.snd).flatten
  keeps : calm d.world
  out : d.out.target? = none
  found {i : Nat} {w : World} {b : Builtin} {arguments : List String} :
    (i, .work w b arguments) ∈ log → calm w

/-- A deed that leaves the files and the error stream as a log makes them. -/
theorem Led.other (hd : Led κ c calm log d) {i : Nat} {deed : Deed}
    (hwork : deed.work? = none) (hsaid : deed.said? = none)
    (hworld : d'.world = d.world) (herr : d'.err = d.err) (hout : d'.out.target? = d.out.target?) :
    Led κ c calm (log ++ [(i, deed)]) d' where
  world := by
    rw [Log.noted_append, Log.noted_none hwork, List.append_nil]
    exact hworld.trans hd.world
  err := by
    rw [Log.noted_append, Log.noted_none hsaid, List.append_nil]
    exact herr.trans hd.err
  keeps := (congrArg calm hworld).mpr hd.keeps
  out := hout.trans hd.out
  found hmem := by
    obtain hmem | hmem := List.mem_append.mp hmem
    · exact hd.found hmem
    · cases List.mem_singleton.mp hmem
      cases hwork

theorem Led.work (hd : Led κ c calm log d) {i : Nat} {b : Builtin} {arguments : List String}
    (hcalm : calm (b.run κ.setting κ.history d.world arguments).world) :
    Led κ c calm (log ++ [(i, .work d.world b arguments)])
      { d with world := (b.run κ.setting κ.history d.world arguments).world } where
  world := by
    rw [Log.noted_append, List.foldl_append, ← hd.world]
    rfl
  err := by
    rw [Log.noted_append, Log.noted_none rfl, List.append_nil]
    exact hd.err
  keeps := hcalm
  out := hd.out
  found hmem := by
    obtain hmem | hmem := List.mem_append.mp hmem
    · exact hd.found hmem
    · cases List.mem_singleton.mp hmem
      exact hd.keeps

theorem Led.say (hd : Led κ c calm log d) (he : c.err.target? = none) {i : Nat} (b : Bytes) :
    Led κ c calm (log ++ [(i, .say b)]) (d.write .err b) := by
  have hworld : (d.write .err b).world = d.world :=
    Sink.snd_write_of_target?_eq_none (by rw [hd.err, Sink.target?_wrote, he]) d.world b
  refine ⟨?_, ?_, (congrArg calm hworld).mpr hd.keeps, hd.out, fun hmem => ?_⟩
  · rw [Log.noted_append, Log.noted_none rfl, List.append_nil]
    exact hworld.trans hd.world
  · rw [Log.noted_append, List.map_append, List.flatten_append, ← Sink.wrote_wrote, ← hd.err]
    simp [Log.noted, Deed.said?, Console.write]
  · obtain hmem | hmem := List.mem_append.mp hmem
    · exact hd.found hmem
    · cases List.mem_singleton.mp hmem

end Apart

end Pipeline

end LineShell
