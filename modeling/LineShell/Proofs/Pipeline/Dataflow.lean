import LineShell.Proofs.Pipeline.Refusal
import LineShell.Proofs.Stream.Writing

/-!
What flows through a pipeline. A program turns what it finds on its input into its output; a
builtin writes its own text, whatever it finds. Taken one after the other from the session's
input on, the stages say what the session's output receives, and the error stream receives
what each of them complains of.
-/

namespace LineShell

/-- A program as a function: from its path, its arguments, the name it is called by first,
and the bytes on its input to the bytes on its output. -/
abbrev Tool := String → List String → Bytes → Bytes

namespace Stage

variable (setting : Setting) (h : History) (w : World) (tool : Tool)

/-- What a stage writes on its output, given what there is on its input. -/
def output (input : Bytes) : Stage → Bytes
  | .builtin b arguments =>
      match (b.run setting h w arguments).result with
      | .ok s => Bytes.ofText s
      | .error _ => []
  | .program path name arguments => tool path (name :: arguments) input

def flow (stages : List Stage) (input : Bytes) : Bytes :=
  stages.foldl (output setting h w tool) input

/-- Nothing that comes before a builtin gets past it. -/
theorem flow_builtin (before after : List Stage) (b : Builtin) (arguments : List String)
    (input : Bytes) :
    flow setting h w tool (before ++ .builtin b arguments :: after) input =
      flow setting h w tool after (output setting h w tool [] (.builtin b arguments)) := by
  rw [flow, List.foldl_append, List.foldl_cons]
  rfl

theorem ofSegments_ne_nil {search : SearchPath} {w : World}
    {segs : List (List String)} {stages : List Stage} (hn : segs ≠ [])
    (hs : ∀ s ∈ segs, s ≠ []) (hfound : ofSegments search w segs = .ok stages) : stages ≠ [] := by
  obtain ⟨seg, rest, rfl⟩ := List.exists_cons_of_ne_nil hn
  obtain ⟨name, arguments, rfl⟩ := List.exists_cons_of_ne_nil (hs seg List.mem_cons_self)
  obtain ⟨stage, others, -, -, rfl⟩ := ofSegments_cons_eq_ok_iff.mp hfound
  exact List.cons_ne_nil stage others

end Stage

def Writes.ofResult : Except ShellError String → Writes
  | .ok s => [(.out, Bytes.ofText s)]
  | .error e => [(.err, Bytes.ofText e.line)]

theorem Console.emit_eq_writes (d : Console) (result : Except ShellError String) :
    d.emit result = d.writes (.ofResult result) := by
  cases result with
  | ok _ | error _ => rfl

/-- A console as a stage of a pipeline may find it: the output goes into a pipe or to the
session's own, and on the error stream other stages may have written. -/
structure Console.Within (c d : Console) : Prop where
  out : d.out = .keep {} ∨ d.out = c.out
  err : ∃ b, d.err = c.err.wrote b

namespace Pipeline

/-- What is relied on about the stages of a pipeline. -/
structure Contract where
  tool : Tool
  /-- A stage finds the working directory and the files that it reads as they were before the
  pipeline. -/
  finds : Stage → World → Prop
  /-- The files of which a stage changes nothing but by writing on its streams. -/
  watched : List NodeId

namespace Contract

variable (κ : Contract) (m : Machine) (setting : Setting) (h : History) (c : Console)

/-- The programs are functions of their arguments and their input, and no stage changes what
a later one reads. -/
structure Kept (stages : List Stage) : Prop where
  start : ∀ s ∈ stages, κ.finds s c.world
  program : ∀ path name arguments, .program path name arguments ∈ stages →
    ∀ i p, m.start i c path (name :: arguments) = .ok p →
    ∀ d, c.Within d → d.input.cycle = [] → κ.finds (.program path name arguments) d.world →
      ∃ ws, (p d).SameStreams κ.watched (d.writes ws) ∧
        ws.on .out = κ.tool path (name :: arguments) d.input.head
  builtin : ∀ b arguments, .builtin b arguments ∈ stages →
    ∀ w, κ.finds (.builtin b arguments) w →
      (b.run setting h w arguments).result = (b.run setting h c.world arguments).result ∧
      ∀ id ∈ κ.watched,
        (b.run setting h w arguments).world.tree.node? id = w.tree.node? id
  spares : stages.Pairwise fun s t =>
    ∀ i work, s.start m i c = .ok work →
    ∀ d, c.Within d → κ.finds s d.world → κ.finds t d.world →
      κ.finds t (work.run setting h d).world

/-- What a stage writes on the error stream, given what there is on its input: a builtin the
line of its error, a program what it has to say itself. -/
def Complains (input : Bytes) : Stage → Bytes → Prop
  | .builtin b arguments, line =>
      line =
        match (b.run setting h c.world arguments).result with
        | .ok _ => []
        | .error e => Bytes.ofText e.line
  | .program path name arguments, said =>
      ∃ i p d ws,
        m.start i c path (name :: arguments) = .ok p ∧ c.Within d ∧
        κ.finds (.program path name arguments) d.world ∧
        d.input.head = input ∧ d.input.cycle = [] ∧
        (p d).SameStreams κ.watched (d.writes ws) ∧
        ws.on .out = κ.tool path (name :: arguments) input ∧ ws.on .err = said

inductive Complaints : Bytes → List Stage → List Bytes → Prop
  | nil (input : Bytes) : Complaints input [] []
  | cons {input : Bytes} {stage : Stage} {rest : List Stage} {said : Bytes} {later : List Bytes} :
      κ.Complains m setting h c input stage said →
      Complaints (stage.output setting h c.world κ.tool input) rest later →
      Complaints input (stage :: rest) (said :: later)

variable {κ m setting h c}

theorem Kept.tail {stage : Stage} {rest : List Stage}
    (hk : κ.Kept m setting h c (stage :: rest)) : κ.Kept m setting h c rest where
  start s hs := hk.start s (List.mem_cons_of_mem _ hs)
  program path name arguments hs := hk.program path name arguments (List.mem_cons_of_mem _ hs)
  builtin b arguments hs := hk.builtin b arguments (List.mem_cons_of_mem _ hs)
  spares := hk.spares.of_cons

end Contract

variable {κ : Contract} {m : Machine} {setting : Setting} {h : History} {c : Console}

/-- What a stage does where it stands in the pipeline comes to some writes. -/
theorem Contract.Kept.run {stages : List Stage} (hk : κ.Kept m setting h c stages) {s : Stage}
    (hs : s ∈ stages) {i : Nat} {work : Work} (hw : s.start m i c = .ok work) {d : Console}
    (hd : c.Within d) (hf : κ.finds s d.world)
    (hi : ∀ path name arguments, s = .program path name arguments → d.input.cycle = []) :
    ∃ ws, (work.run setting h d).SameStreams κ.watched (d.writes ws) ∧
      ws.on .out = s.output setting h c.world κ.tool d.input.head ∧
      κ.Complains m setting h c d.input.head s (ws.on .err) := by
  cases s with
  | builtin b arguments =>
      cases hw
      obtain ⟨hresult, hfiles⟩ := hk.builtin b arguments hs d.world hf
      have hown : ({ d with world := (b.run setting h d.world arguments).world } :
          Console).SameStreams κ.watched d := ⟨rfl, rfl, hfiles⟩
      refine ⟨Writes.ofResult (b.run setting h d.world arguments).result, ?_, ?_⟩
      · simp only [Work.run, Console.emit_eq_writes]
        exact hown.writes _
      · simp only [hresult, Stage.output, Complains]
        cases (b.run setting h c.world arguments).result with
        | ok s => simp [Writes.ofResult, Writes.on]
        | error e => simp [Writes.ofResult, Writes.on]
  | program path name arguments =>
      obtain ⟨p, hp, rfl⟩ := Stage.exists_of_start hw
      have hend := hi path name arguments rfl
      obtain ⟨ws, hsame, hout⟩ := hk.program path name arguments hs i p hp d hd hend hf
      refine ⟨ws, ?_, hout, i, p, d, ws, hp, hd, hf, rfl, hend, hsame, hout, rfl⟩
      exact ⟨hsame.out, hsame.err, hsame.files⟩

/-- Started stages of which each reads from the pipe that the one before it writes into, the
last on the session's own output. -/
inductive Chained (m : Machine) (c : Console) : StreamEnd → List Stage → List Task → Prop
  | last {inlet : StreamEnd} {stage : Stage} {i : Nat} {work : Work} :
      stage.start m i c = .ok work → Chained m c inlet [stage] [⟨work, inlet, .output⟩]
  | link {inlet : StreamEnd} {stage : Stage} {i : Nat} {work : Work} {pipe : Nat}
      {rest : List Stage} {tasks : List Task} :
      stage.start m i c = .ok work → Chained m c (.reader pipe) rest tasks →
      Chained m c inlet (stage :: rest) (⟨work, inlet, .writer pipe⟩ :: tasks)

theorem chained_ofStages (i first : Nat) (inlet : StreamEnd) (stage : Stage) (rest : List Stage) :
    let l := Launch.ofStages m (fun _ => c) i (stage :: rest)
      (inlet :: (List.range' first rest.length).map .reader)
      ((List.range' first rest.length).map .writer ++ [.output])
    l.failure = none → l.released = [] ∧ Chained m c inlet (stage :: rest) l.started := by
  induction rest generalizing i first inlet stage with
  | nil =>
      intro l hl
      simp only [l, List.length_nil, List.range'_zero, List.map_nil, List.nil_append,
        Launch.ofStages] at hl ⊢
      cases hs : m.shareFault i with
      | some fault => simp [hs] at hl
      | none =>
          cases hw : stage.start m i c with
          | error e => simp [hs, hw] at hl
          | ok work => exact ⟨rfl, .last hw⟩
  | cons next rest ih =>
      intro l hl
      simp only [l, List.length_cons, List.range'_succ, List.map_cons, List.cons_append] at hl ⊢
      rw [Launch.ofStages] at hl ⊢
      cases hs : m.shareFault i with
      | some fault => simp [hs] at hl
      | none =>
          cases hw : stage.start m i c with
          | error e => simp [hs, hw] at hl
          | ok work =>
              simp only [hs, hw] at hl
              obtain ⟨hreleased, hchain⟩ := ih (i + 1) (first + 1) (.reader first) next hl
              exact ⟨hreleased, .link hw hchain⟩

theorem chained_ofPipeline {stages : List Stage} (hn : stages ≠ [])
    (hl : (Launch.ofPipeline m (fun _ => c) stages).failure = none) :
    (Launch.ofPipeline m (fun _ => c) stages).released = [] ∧
      Chained m c .input stages (Launch.ofPipeline m (fun _ => c) stages).started := by
  obtain ⟨stage, rest, rfl⟩ := List.exists_cons_of_ne_nil hn
  simp only [Launch.ofPipeline] at hl ⊢
  split at hl
  · cases hl
  · rw [inlets, outlets, List.range_eq_range'] at hl ⊢
    exact chained_ofStages 0 0 .input stage rest hl

/-- What a console shows after a stage whose output went into a pipe. -/
theorem sameStreams_behind_pipe {watched : List NodeId} {d own done : Console} {ws : Writes}
    (h : done.SameStreams watched (own.writes ws)) (ho : own.out = .keep {})
    (he : own.err = d.err) (hw : own.world = d.world) :
    ({ done with out := d.out } : Console).SameStreams watched (d.writes ws.complaints) := by
  obtain ⟨herr, hworld⟩ := Console.writes_keep ho he hw ws
  refine ⟨?_, h.err.trans herr, fun id hid => ?_⟩
  · simp [Console.out_writes]
  · rw [h.files id hid, hworld]

theorem feed_behind_pipe {watched : List NodeId} {own done : Console} {ws : Writes}
    (h : done.SameStreams watched (own.writes ws)) (ho : own.out = .keep {}) :
    done.out.feed = { head := ws.on .out } := by
  rw [h.out, Console.out_writes, ho, Sink.wrote_keep rfl]
  rfl

/-- The streams and the files when some stages are still to be carried out. Input without end
is no matter to a builtin. -/
structure Contract.Ready (κ : Contract) (c : Console) (inlet : StreamEnd) (stages : List Stage)
    (d : Console) (feeds : Feeds) : Prop where
  out : d.out = c.out
  err : ∃ b, d.err = c.err.wrote b
  finds : ∀ s ∈ stages, κ.finds s d.world
  finite : ∀ path name arguments rest, stages = .program path name arguments :: rest →
    (feeds inlet).cycle = []

variable {stage : Stage} {rest : List Stage} {i : Nat} {work : Work} {inlet : StreamEnd}
  {d : Console} {feeds : Feeds}

theorem Contract.Kept.step_output (hk : κ.Kept m setting h c (stage :: rest))
    (hw : stage.start m i c = .ok work) (hr : κ.Ready c inlet (stage :: rest) d feeds) :
    ∃ ws, (step setting h [] (d, feeds) ⟨work, inlet, .output⟩).1.SameStreams κ.watched
        (d.writes ws) ∧
      ws.on .out = stage.output setting h c.world κ.tool (feeds inlet).head ∧
      κ.Complains m setting h c (feeds inlet).head stage (ws.on .err) := by
  have hown : ({ d with input := feeds inlet } : Console).SameStreams κ.watched d :=
    ⟨rfl, rfl, fun _ _ => rfl⟩
  obtain ⟨ws, hsame, hout, hsaid⟩ := hk.run (d := { d with input := feeds inlet })
    List.mem_cons_self hw ⟨.inr hr.out, hr.err⟩ (hr.finds stage List.mem_cons_self)
    fun path name arguments hs => hr.finite path name arguments rest (by rw [hs])
  exact ⟨ws, hsame.trans (hown.writes ws), hout, hsaid⟩

/-- A stage before the last leaves nothing on the session's output, and for the next stage
what it has written. -/
theorem Contract.Kept.step_writer (hk : κ.Kept m setting h c (stage :: rest))
    (hw : stage.start m i c = .ok work) (hr : κ.Ready c inlet (stage :: rest) d feeds)
    (pipe : Nat) :
    ∃ d' feeds' ws, step setting h [] (d, feeds) ⟨work, inlet, .writer pipe⟩ = (d', feeds') ∧
      d'.SameStreams κ.watched (d.writes ws) ∧ ws.on .out = [] ∧
      (feeds' (.reader pipe)).head = stage.output setting h c.world κ.tool (feeds inlet).head ∧
      κ.Complains m setting h c (feeds inlet).head stage (ws.on .err) ∧
      κ.Ready c (.reader pipe) rest d' feeds' := by
  have hin : c.Within { d with input := feeds inlet, out := .keep {} } := ⟨.inl rfl, hr.err⟩
  have hfinds := hr.finds stage List.mem_cons_self
  -- The writes are those to the pipe and to the error stream; the session's output only
  -- comes back when the stage is over.
  obtain ⟨ws, hsame, hout, hsaid⟩ := hk.run List.mem_cons_self hw hin hfinds
    fun path name arguments hs => hr.finite path name arguments rest (by rw [hs])
  have hspared : ∀ t ∈ rest, κ.finds t
      (work.run setting h { d with input := feeds inlet, out := .keep {} }).world := by
    intro t ht
    exact (List.pairwise_cons.mp hk.spares).1 t ht i work hw _ hin hfinds
      (hr.finds t (List.mem_cons_of_mem _ ht))
  have hstep : step setting h [] (d, feeds) ⟨work, inlet, .writer pipe⟩ =
      let done := work.run setting h { d with input := feeds inlet, out := .keep {} }
      ({ done with out := d.out },
        (feeds.fill inlet done.input).fill (.reader pipe) done.out.feed) := by
    simp [step, sinkAt]
  rw [hstep]
  generalize work.run setting h { d with input := feeds inlet, out := .keep {} } = done at *
  have hbehind := sameStreams_behind_pipe (d := d) hsame rfl rfl rfl
  have hfeed : (feeds.fill inlet done.input).fill (.reader pipe) done.out.feed (.reader pipe) =
      { head := ws.on .out } := by
    rw [Feeds.fill, if_pos rfl, feed_behind_pipe hsame rfl]
  refine ⟨_, _, ws.complaints, rfl, hbehind, ws.on_out_complaints, ?_, ?_, ?_⟩
  · rw [hfeed, hout]
  · rw [ws.on_err_complaints]
    exact hsaid
  · obtain ⟨written, he⟩ := hr.err
    refine ⟨hr.out, ⟨written ++ ws.on .err, ?_⟩, hspared, fun _ _ _ _ _ => ?_⟩
    · rw [hbehind.err, Console.err_writes, ws.on_err_complaints, he, Sink.wrote_wrote]
    · rw [hfeed]

/-- The session's streams after stages that were carried out one after the other, from the
console that the first of them finds. -/
theorem Chained.foldl_step {stages : List Stage} {tasks : List Task}
    (hchain : Chained m c inlet stages tasks) (hk : κ.Kept m setting h c stages)
    (hr : κ.Ready c inlet stages d feeds) :
    ∃ ws said,
      (tasks.foldl (step setting h []) (d, feeds)).1.SameStreams κ.watched (d.writes ws) ∧
      ws.on .out = Stage.flow setting h c.world κ.tool stages (feeds inlet).head ∧
      ws.on .err = said.flatten ∧
      κ.Complaints m setting h c (feeds inlet).head stages said := by
  -- The stages are taken from the left, so the writes of the first come before all others.
  induction hchain generalizing d feeds with
  | last hw =>
      obtain ⟨ws, hsame, hout, hsaid⟩ := hk.step_output hw hr
      exact ⟨ws, [ws.on .err], hsame, hout, by simp, .cons hsaid (.nil _)⟩
  | @link inlet stage i work pipe rest tasks hw _ ih =>
      obtain ⟨d', feeds', ws, hstep, hsame, hnone, hhead, hsaid, hr'⟩ := hk.step_writer hw hr pipe
      obtain ⟨ws', said, hsame', hout', herr', hsaid'⟩ := ih hk.tail hr'
      rw [hhead] at hout' hsaid'
      refine ⟨ws ++ ws', ws.on .err :: said, ?_, ?_, ?_, .cons hsaid hsaid'⟩
      · rw [List.foldl_cons, hstep, Console.writes_append]
        exact hsame'.trans (hsame.writes ws')
      · rw [Writes.on_append, hnone, List.nil_append, hout']
        rfl
      · rw [Writes.on_append, herr', List.flatten_cons]

theorem Contract.Kept.finish {stages : List Stage} (hk : κ.Kept m setting h c stages)
    (hn : stages ≠ []) (hstarted : (Launch.ofPipeline m (fun _ => c) stages).failure = none)
    (hi : ∀ path name arguments rest, stages = .program path name arguments :: rest →
      c.input.cycle = []) :
    ∃ ws said,
      (finish setting h c (Launch.ofPipeline m (fun _ => c) stages)).SameStreams κ.watched
        (c.writes ws) ∧
      ws.on .out = Stage.flow setting h c.world κ.tool stages c.input.head ∧
      ws.on .err = said.flatten ∧ κ.Complaints m setting h c c.input.head stages said := by
  obtain ⟨hreleased, hchain⟩ := chained_ofPipeline hn hstarted
  have hready : κ.Ready c .input stages c (Feeds.start c.input) :=
    ⟨rfl, ⟨[], by simp⟩, hk.start, hi⟩
  obtain ⟨ws, said, hsame, hout, herr, hsaid⟩ := hchain.foldl_step hk hready
  refine ⟨ws, said, ?_, hout, herr, hsaid⟩
  simp only [Pipeline.finish, hstarted, hreleased]
  exact ⟨hsame.out, hsame.err, hsame.files⟩

end Pipeline

/-- A pipeline whose stages all start writes on the session's output what comes out of its
stages, each reading what the one before it writes, and nothing else. On the error stream are
the lines of the failing builtins and what the programs write there. Nothing from before a
builtin has a part in it. -/
theorem execute_writes_flow (κ : Pipeline.Contract) {m : Machine} {setting : Setting}
    {h : History} {c : Console} {segs : List (List String)} {stages : List Stage}
    (hn : 2 ≤ segs.length) (hs : ∀ s ∈ segs, s ≠ [])
    (hfound : Stage.ofSegments setting.search c.world segs = .ok stages)
    (hstarted : (Launch.ofPipeline m (fun _ => c) stages).failure = none)
    (hk : κ.Kept m setting h c stages)
    (hi : ∀ path name arguments rest, stages = .program path name arguments :: rest →
      c.input.cycle = []) :
    ∃ ws said,
      (execute m setting h c segs).console.SameStreams κ.watched (c.writes ws) ∧
      ws.on .out = Stage.flow setting h c.world κ.tool stages c.input.head ∧
      ws.on .err = said.flatten ∧
      κ.Complaints m setting h c c.input.head stages said ∧
      (execute m setting h c segs).console.out =
        c.out.wrote (Stage.flow setting h c.world κ.tool stages c.input.head) ∧
      (execute m setting h c segs).console.err = c.err.wrote said.flatten ∧
      ∀ before b arguments after, stages = before ++ .builtin b arguments :: after →
        ws.on .out = Stage.flow setting h c.world κ.tool after
          (Stage.output setting h c.world κ.tool [] (.builtin b arguments)) := by
  have hsegs : segs ≠ [] := by
    rintro rfl
    simp at hn
  obtain ⟨ws, said, hsame, hout, herr, hsaid⟩ :=
    hk.finish (Stage.ofSegments_ne_nil hsegs hs hfound) hstarted hi
  have hfinal : (execute m setting h c segs).console.SameStreams κ.watched (c.writes ws) := by
    rw [execute_of_two_le m setting h c hn]
    simpa only [Pipeline.run, hfound] using hsame
  refine ⟨ws, said, hfinal, hout, herr, hsaid, ?_, ?_, ?_⟩
  · rw [hfinal.out, Console.out_writes, hout]
  · rw [hfinal.err, Console.err_writes, herr]
  · rintro before b arguments after rfl
    rw [hout, Stage.flow_builtin]

def capital (b : UInt8) : UInt8 :=
  if 97 ≤ b ∧ b ≤ 122 then b - 32 else b

def capitals : Machine where
  start _ _ _ _ := .ok fun d => d.write .out (d.input.head.map capital)
  pipeFault _ := none
  shareFault _ := none

def translating : Console :=
  ⟨⟨⟨#[.directory [("tr", 1)] 0, .file [] 0o755]⟩, Tree.root⟩, Feed.ofText "abc", .keep {},
    .keep {}⟩

/-- Where both streams are kept for a reader, writing changes no file. -/
theorem world_write_within_translating {d : Console} (hd : translating.Within d) (w : World)
    (channel : Channel) (b : Bytes) : (({ d with world := w }).write channel b).world = w := by
  obtain ⟨said, he⟩ := hd.err
  have he : d.err = .keep { head := said } := by
    rw [he]
    exact Sink.wrote_keep rfl said
  have ho : d.out = .keep {} := hd.out.elim id id
  cases channel with
  | out => simp [Console.write, ho, Sink.snd_write_keep]
  | err => simp [Console.write, he, Sink.snd_write_keep]

theorem world_run_within_translating {setting : Setting} {h : History} {s : Stage} {i : Nat}
    {work : Work} (hw : s.start capitals i translating = .ok work)
    (hs : ∀ b arguments, s = .builtin b arguments →
      (b.run setting h translating.world arguments).world = translating.world)
    {d : Console} (hd : translating.Within d) (hworld : d.world = translating.world) :
    (work.run setting h d).world = translating.world := by
  cases s with
  | builtin b arguments =>
      cases hw
      simp only [Work.run, hworld, hs b arguments rfl]
      cases (b.run setting h translating.world arguments).result with
      | ok _ | error _ => exact world_write_within_translating hd _ _ _
  | program path name arguments =>
      cases hw
      have hdone := world_write_within_translating hd d.world .out (d.input.head.map capital)
      simp only [Work.run, Console.run, hdone, hworld]

/-- Capitals all the way to a failing builtin, from there to another one that writes, and
capitals again. -/
theorem execute_writes_flow_behind_echo :
    let setting : Setting := ⟨none, SearchPath.empty⟩
    let h : History := ⟨["ls"], 0⟩
    let c := translating
    let κ : Pipeline.Contract := ⟨fun _ _ input => input.map capital, fun _ w => w = c.world, []⟩
    let segs := [["/tr", "a-z", "A-Z"], ["cd"], ["echo", "hi"], ["/tr", "a-z", "A-Z"]]
    let stages : List Stage := [.program "/tr" "/tr" ["a-z", "A-Z"], .builtin .cd [],
      .builtin .echo ["hi"], .program "/tr" "/tr" ["a-z", "A-Z"]]
    2 ≤ segs.length ∧ (∀ s ∈ segs, s ≠ []) ∧
    Stage.ofSegments setting.search c.world segs = .ok stages ∧
    (Launch.ofPipeline capitals (fun _ => c) stages).failure = none ∧
    κ.Kept capitals setting h c stages ∧ c.input.cycle = [] ∧
    ∃ ws said,
      (execute capitals setting h c segs).console.SameStreams κ.watched (c.writes ws) ∧
      ws.on .out = Bytes.ofText "HI\n" ∧ ws.on .err = said.flatten ∧
      κ.Complaints capitals setting h c c.input.head stages said ∧
      (execute capitals setting h c segs).console.out = .keep (Feed.ofText "HI\n") := by
  intro setting h c κ segs stages
  have hn : 2 ≤ segs.length := by decide
  have hs : ∀ s ∈ segs, s ≠ [] := by decide
  have hfound : Stage.ofSegments setting.search c.world segs = .ok stages := rfl
  have hstarted : (Launch.ofPipeline capitals (fun _ => c) stages).failure = none := rfl
  have hworld : ∀ s ∈ stages, ∀ b arguments, s = .builtin b arguments →
      (b.run setting h c.world arguments).world = c.world := by
    rintro s hs b arguments rfl
    simp only [stages, List.mem_cons, List.not_mem_nil, or_false, Stage.builtin.injEq, reduceCtorEq,
      false_or] at hs
    obtain ⟨rfl, rfl⟩ | ⟨rfl, rfl⟩ := hs
    · rfl
    · rfl
  have hk : κ.Kept capitals setting h c stages :=
    { start := fun _ _ => rfl
      program := by
        intro path name arguments _ i p hp d _ _ _
        cases hp
        exact ⟨[(.out, d.input.head.map capital)], ⟨rfl, rfl, fun _ _ => rfl⟩,
          by simp [Writes.on, κ]⟩
      builtin := by
        rintro b arguments _ w rfl
        exact ⟨rfl, by simp [κ]⟩
      spares := List.pairwise_of_forall_mem_list fun s hs t _ i work hw d hd hd' _ =>
        world_run_within_translating hw (hworld s hs) hd hd' }
  have hflow : Stage.flow setting h c.world κ.tool stages c.input.head = Bytes.ofText "HI\n" := by
    decide +kernel
  obtain ⟨ws, said, hfinal, hout, herr, hsaid, hsink, -, -⟩ :=
    execute_writes_flow κ hn hs hfound hstarted hk fun _ _ _ _ _ => rfl
  refine ⟨hn, hs, hfound, hstarted, hk, rfl, ws, said, hfinal, ?_, herr, hsaid, ?_⟩
  · rw [hout, hflow]
  · rw [hsink, hflow]
    rfl

end LineShell
