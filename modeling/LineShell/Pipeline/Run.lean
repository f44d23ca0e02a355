import LineShell.Pipeline.Launch

/-!
Running the started stages of a pipeline. What a stage writes into a pipe is what the next
stage finds there; all stages share the error stream.
-/

namespace LineShell

/-- Puts a builtin's result on the streams: its text on the output, or its error as a line
on the error stream. -/
def Console.emit (c : Console) : Except ShellError String → Console
  | .ok s => c.print .out s
  | .error e => c.print .err e.line

/-- Carries a stage out. A builtin works on a history of its own. -/
def Work.run (setting : Setting) (h : History) (c : Console) : Work → Console
  | .builtin b arguments =>
      let e := b.run setting h c.world arguments
      ({ c with world := e.world }).emit e.result
  | .program p => c.run p

namespace Pipeline

/-- What there is to read at each end. -/
abbrev Feeds := StreamEnd → Feed

def Feeds.start (input : Feed) : Feeds
  | .input => input
  | _ => {}

def Feeds.fill (feeds : Feeds) (inlet : StreamEnd) (f : Feed) : Feeds :=
  fun e => if e = inlet then f else feeds e

/-- The sink at an outlet: the session's output, or a pipe, whose reader may be gone. -/
def sinkAt (released : List StreamEnd) (out : Sink) : StreamEnd → Sink
  | .writer pipe => if .reader pipe ∈ released then .broken else .keep {}
  | _ => out

/-- No file changes by what is written into a pipe. -/
theorem snd_write_sinkAt_writer (released : List StreamEnd) (out : Sink) (pipe : Nat) (w : World)
    (b : Bytes) : ((sinkAt released out (.writer pipe)).write w b).2 = w := by
  simp only [sinkAt]
  split <;> rfl

/-- Carries one stage out between its two ends. -/
def step (setting : Setting) (h : History) (released : List StreamEnd)
    (state : Console × Feeds) (task : Task) : Console × Feeds :=
  let (c, feeds) := state
  let own := { c with input := feeds task.inlet, out := sinkAt released c.out task.outlet }
  let own := task.work.run setting h own
  let feeds := feeds.fill task.inlet own.input
  match task.outlet with
  | .writer pipe => ({ own with out := c.out }, feeds.fill (.reader pipe) own.out.feed)
  | _ => (own, feeds)

/-- Carries the started stages out, first to last, then reports why the next stage did not
start. What the first stage leaves of the session's input is there for the next command. -/
def finish (setting : Setting) (h : History) (c : Console) (l : Launch) : Console :=
  let (c, feeds) := l.started.foldl (step setting h l.released) (c, Feeds.start c.input)
  let c := { c with input := feeds .input }
  match l.failure with
  | none => c
  | some e => c.print .err e.line

/-- Runs a pipeline. If a stage cannot be found nothing starts. All stages are started before
the first is carried out, so that each start finds the console as it was. -/
def run (m : Machine) (setting : Setting) (h : History) (c : Console)
    (segs : List (List String)) : Console :=
  match Stage.ofSegments setting.search c.world segs with
  | .error e => c.print .err e.line
  | .ok stages => finish setting h c (Launch.ofPipeline m (fun _ => c) stages)

end Pipeline

end LineShell
