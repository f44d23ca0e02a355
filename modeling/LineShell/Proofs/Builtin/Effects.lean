import LineShell.Execution
import LineShell.Proofs.Files.Rewriting
import LineShell.Proofs.Stream.Writing

/-!
What the builtins leave behind. One that fails leaves the history, the files and the working
directory alone; one that succeeds changes the one thing it is for. Its result goes to one of the
streams and shows on no other.
-/

namespace LineShell

namespace World

theorem exists_of_moveTo {w w' : World} {path : String} (hm : w.moveTo path = .ok w') :
    ∃ id entries parent, w.locate path = .ok id ∧
      w.tree.node? id = some (.directory entries parent) ∧ w' = { w with cwd := id } := by
  unfold moveTo at hm
  split at hm
  · cases hm
  · rename_i id hid
    split at hm
    · rename_i entries parent hnode
      exact ⟨id, entries, parent, hid, hnode, (Except.ok.inj hm).symm⟩
    · cases hm

end World

namespace Builtin

/-- What a builtin that succeeds may make of the history and the world. -/
inductive Changes (setting : Setting) (h : History) (w : World) :
    Builtin → List String → History → World → Prop
  | keeps {b arguments} (hb : b = .echo ∨ b = .type ∨ b = .pwd) :
      Changes setting h w b arguments h w
  | moves {arguments path id entries parent}
      (hdest : destination setting.home arguments.head? = .ok path)
      (hid : w.locate path = .ok id)
      (hnode : w.tree.node? id = some (.directory entries parent)) :
      Changes setting h w .cd arguments h { w with cwd := id }
  | lists {arguments}
      (hlist : ∀ option ∈ ["-r", "-w", "-a"], ∀ file rest, arguments ≠ option :: file :: rest) :
      Changes setting h w .history arguments h w
  | loads {file rest text} (htext : w.readText file = .ok text) :
      Changes setting h w .history ("-r" :: file :: rest) (h.absorb text) w
  | writes {file rest w'}
      (hw : w.Rewrites file (fun _ => Bytes.ofText (History.fileText h.entries)) w') :
      Changes setting h w .history ("-w" :: file :: rest) h w'
  | appends {file rest w'}
      (hw : w.Rewrites file (· ++ Bytes.ofText (History.fileText h.pending)) w') :
      Changes setting h w .history ("-a" :: file :: rest)
        { h with saved := h.entries.length } w'

variable (setting : Setting) (h : History) (w : World)

/-- An effect is a failure that changes nothing, or a change that is allowed. -/
structure Sound (b : Builtin) (arguments : List String) (e : Effect) : Prop where
  failure : ∀ error, e.result = .error error → e.history = h ∧ e.world = w
  success : ∀ text, e.result = .ok text → Changes setting h w b arguments e.history e.world

variable {setting h w}

theorem Sound.of_error (b : Builtin) (arguments : List String) (error : ShellError) :
    Sound setting h w b arguments ⟨.error error, h, w⟩ :=
  ⟨fun _ _ => ⟨rfl, rfl⟩, nofun⟩

theorem Sound.of_ok {b : Builtin} {arguments : List String} {text : String} {h' : History}
    {w' : World} (hc : Changes setting h w b arguments h' w') :
    Sound setting h w b arguments ⟨.ok text, h', w'⟩ :=
  ⟨nofun, fun _ _ => hc⟩

theorem Sound.of_unchanged {b : Builtin} {arguments : List String}
    (hc : Changes setting h w b arguments h w) (result : Except ShellError String) :
    Sound setting h w b arguments ⟨result, h, w⟩ :=
  ⟨fun _ _ => ⟨rfl, rfl⟩, fun _ _ => hc⟩

theorem changes_of_enter {arguments : List String} {w' : World}
    (hm : enter setting.home w arguments.head? = .ok w') :
    Changes setting h w .cd arguments h w' := by
  unfold enter at hm
  split at hm
  · cases hm
  · rename_i path hdest
    cases hmove : w.moveTo path with
    | error _ => simp [hmove] at hm
    | ok moved =>
        simp only [hmove] at hm
        obtain ⟨id, entries, parent, hid, hnode, rfl⟩ := World.exists_of_moveTo hmove
        cases hm
        exact .moves hdest hid hnode

theorem sound_transfer {option file : String} {t : Transfer} (ht : transfer? option = some t)
    (rest : List String) :
    Sound setting h w .history (option :: file :: rest) (runHistory h w (.transfer t file)) := by
  unfold transfer? at ht
  split at ht
  · cases ht
    simp only [runHistory, History.readFrom]
    cases htext : w.readText file with
    | error fault => exact .of_error ..
    | ok text => exact .of_ok (.loads htext)
  · cases ht
    simp only [runHistory, History.writeTo]
    cases hw : w.writeFile file (Bytes.ofText (History.fileText h.entries)) with
    | error fault => exact .of_error ..
    | ok w' => exact .of_ok (.writes (World.rewrites_of_writeFile hw))
  · cases ht
    simp only [runHistory, History.appendTo]
    cases hw : w.appendFile file (Bytes.ofText (History.fileText h.pending)) with
    | error fault => exact .of_error ..
    | ok w' => exact .of_ok (.appends (World.rewrites_of_appendFile hw))
  · cases ht

theorem sound_runHistory (arguments : List String) :
    Sound setting h w .history arguments
      (runHistory h w (HistoryRequest.ofArguments arguments)) := by
  match arguments with
  | [] | [_] => exact .of_unchanged (.lists (by simp)) _
  | option :: file :: rest =>
      rw [HistoryRequest.ofArguments]
      cases ht : transfer? option with
      | some t => exact sound_transfer ht rest
      | none =>
          refine .of_unchanged (.lists fun other hmem file' rest' heq => ?_) _
          cases heq
          simp only [List.mem_cons, List.not_mem_nil, or_false] at hmem
          obtain rfl | rfl | rfl := hmem <;> cases ht

theorem sound_run (b : Builtin) (arguments : List String) :
    Sound setting h w b arguments (b.run setting h w arguments) := by
  cases b with
  | echo => exact .of_unchanged (.keeps (.inl rfl)) _
  | type => exact .of_unchanged (.keeps (.inr (.inl rfl))) _
  | pwd => exact .of_unchanged (.keeps (.inr (.inr rfl))) _
  | cd =>
      rw [run]
      cases hm : enter setting.home w arguments.head? with
      | error e => exact .of_error ..
      | ok w' => exact .of_ok (changes_of_enter hm)
  | history => exact sound_runHistory arguments

end Builtin

namespace Console

/-- These bytes have been written to one stream, and nothing to the other. -/
structure Gains (channel : Channel) (b : Bytes) (c c' : Console) : Prop where
  here : c'.sink channel = (c.sink channel).wrote b
  elsewhere : ∀ other, other ≠ channel → c'.sink other = c.sink other
  world : c'.world = ((c.sink channel).write c.world b).2
  input : c'.input = c.input

theorem gains_write (c : Console) (channel : Channel) (b : Bytes) :
    Gains channel b c (c.write channel b) where
  here := by cases channel <;> simp [write, sink]
  elsewhere other hne := by
    cases channel <;> cases other <;> first | exact absurd rfl hne | rfl
  world := by cases channel <;> rfl
  input := by cases channel <;> rfl

end Console

namespace Builtin

theorem runCommand_eq_run {name : String} {b : Builtin} (hb : Dispatch.ofName name = .builtin b)
    (m : Machine) (setting : Setting) (h : History) (c : Console) (arguments : List String) :
    runCommand m setting h c (name :: arguments) =
      ⟨.proceed, (b.run setting h c.world arguments).history,
        Work.run setting h c (.builtin b arguments)⟩ := by
  simp only [runCommand, hb, Work.run]

theorem work_gains (setting : Setting) (h : History) (c : Console) (b : Builtin)
    (arguments : List String) :
    let e := b.run setting h c.world arguments
    let c' := Work.run setting h c (.builtin b arguments)
    (∀ text, e.result = .ok text →
      Console.Gains .out (Bytes.ofText text) { c with world := e.world } c') ∧
    ∀ error, e.result = .error error →
      Console.Gains .err (Bytes.ofText (error.message ++ "\n")) c c' := by
  intro e c'
  have hc' : c' = ({ c with world := e.world } : Console).emit e.result := rfl
  refine ⟨fun text htext => ?_, fun error herror => ?_⟩
  · rw [hc', htext]
    exact Console.gains_write _ .out _
  · rw [hc', herror, ((sound_run b arguments).failure error herror).2]
    exact Console.gains_write c .err _

/-- A pipe takes what is written into it, unless nobody reads it, and no file changes. -/
theorem feed_wrote_sinkAt (released : List StreamEnd) (out : Sink) (pipe : Nat) (b : Bytes) :
    ((Pipeline.sinkAt released out (.writer pipe)).wrote b).feed =
      if .reader pipe ∈ released then {} else { head := b } := by
  unfold Pipeline.sinkAt
  dsimp only
  split
  · rfl
  · rw [Sink.wrote_keep rfl]
    rfl

theorem step_writer_gives (setting : Setting) (h : History) (c : Console)
    (feeds : Pipeline.Feeds) (released : List StreamEnd) (b : Builtin) (arguments : List String)
    (inlet : StreamEnd) (pipe : Nat) :
    let e := b.run setting h c.world arguments
    let (c', feeds') := Pipeline.step setting h released (c, feeds)
      ⟨.builtin b arguments, inlet, .writer pipe⟩
    c'.out = c.out ∧
    (∀ text, e.result = .ok text →
      feeds' (.reader pipe) =
          (if .reader pipe ∈ released then {} else { head := Bytes.ofText text }) ∧
        c'.err = c.err ∧ c'.world = e.world) ∧
    ∀ error, e.result = .error error →
      let line := Bytes.ofText (error.message ++ "\n")
      feeds' (.reader pipe) = {} ∧ c'.err = c.err.wrote line ∧
        c'.world = (c.err.write c.world line).2 := by
  let sink := Pipeline.sinkAt released c.out (.writer pipe)
  let own : Console := { c with input := feeds inlet, out := sink }
  obtain ⟨htold, hcomplained⟩ := work_gains setting h own b arguments
  simp only [Pipeline.step, true_and]
  refine ⟨fun text htext => ?_, fun error herror => ?_⟩
  · have hgains := htold text htext
    refine ⟨?_, hgains.elsewhere .err nofun, hgains.world.trans ?_⟩
    · rw [Pipeline.Feeds.fill, if_pos rfl, ← feed_wrote_sinkAt released c.out]
      exact congrArg Sink.feed hgains.here
    · exact Pipeline.snd_write_sinkAt_writer released c.out pipe _ _
  · have hgains := hcomplained error herror
    refine ⟨?_, hgains.here, hgains.world⟩
    have hnothing := feed_wrote_sinkAt released c.out pipe []
    rw [Sink.wrote_nil, ite_self] at hnothing
    rw [Pipeline.Feeds.fill, if_pos rfl, ← hnothing]
    exact congrArg Sink.feed (hgains.elsewhere .out nofun)

/-- A builtin that fails changes neither the history nor the files nor the working directory.
One that succeeds changes nothing, or the working directory alone, or the history alone, or one
file, and with an append to it the checkpoint. On its own or as a stage of a pipeline it writes
the text that it returns to the output, or the line of its error to the error stream, and nothing
else; behind a stage before the last the text is what the next one finds to read, if there is one
to read it. -/
theorem run_changes_one_thing :
    (∀ setting h w b arguments,
      let e := run setting h w b arguments
      (∀ error, e.result = .error error → e.history = h ∧ e.world = w) ∧
      ∀ text, e.result = .ok text → Changes setting h w b arguments e.history e.world) ∧
    (∀ (w : World) (path : String) (change : Bytes → Bytes) (w' : World),
      w.Rewrites path change w' → ∃ id old, w'.locate path = .ok id ∧ World.SameBut [id] w w' ∧
        (w.readFile path = .ok old ∨ w.readFile path = .error .notFound ∧ old = []) ∧
        (w'.readFile path = .ok (change old) ∨ w.tree.node? id = some .null ∧ w' = w)) ∧
    (∀ (m : Machine) (setting : Setting) (h : History) (c : Console) (name : String) (b : Builtin)
      (arguments : List String), Dispatch.ofName name = .builtin b →
      let e := run setting h c.world b arguments
      let c' := Work.run setting h c (.builtin b arguments)
      runCommand m setting h c (name :: arguments) = ⟨.proceed, e.history, c'⟩ ∧
      (∀ text, e.result = .ok text →
        Console.Gains .out (Bytes.ofText text) { c with world := e.world } c') ∧
      ∀ error, e.result = .error error →
        Console.Gains .err (Bytes.ofText (error.message ++ "\n")) c c') ∧
    ∀ (setting : Setting) (h : History) (c : Console) (feeds : Pipeline.Feeds)
      (released : List StreamEnd) (b : Builtin) (arguments : List String) (inlet : StreamEnd),
      let e := run setting h c.world b arguments
      (∀ pipe,
        let (c', feeds') := Pipeline.step setting h released (c, feeds)
          ⟨.builtin b arguments, inlet, .writer pipe⟩
        c'.out = c.out ∧
        (∀ text, e.result = .ok text →
          feeds' (.reader pipe) =
              (if .reader pipe ∈ released then {} else { head := Bytes.ofText text }) ∧
            c'.err = c.err ∧ c'.world = e.world) ∧
        ∀ error, e.result = .error error →
          let line := Bytes.ofText (error.message ++ "\n")
          feeds' (.reader pipe) = {} ∧ c'.err = c.err.wrote line ∧
            c'.world = (c.err.write c.world line).2) ∧
      let own : Console := { c with input := feeds inlet }
      let c' := (Pipeline.step setting h released (c, feeds)
        ⟨.builtin b arguments, inlet, .output⟩).1
      (∀ text, e.result = .ok text →
        Console.Gains .out (Bytes.ofText text) { own with world := e.world } c') ∧
      ∀ error, e.result = .error error →
        Console.Gains .err (Bytes.ofText (error.message ++ "\n")) own c' := by
  refine ⟨fun setting h w b arguments => ?_, fun w path change w' hw => hw.frame,
    fun m setting h c name b arguments hb => ?_,
    fun setting h c feeds released b arguments inlet =>
      ⟨step_writer_gives setting h c feeds released b arguments inlet,
        work_gains setting h { c with input := feeds inlet } b arguments⟩⟩
  · exact ⟨(sound_run b arguments).failure, (sound_run b arguments).success⟩
  · exact ⟨runCommand_eq_run hb m setting h c arguments, work_gains setting h c b arguments⟩

/-- The second of two entries is pending: it goes behind what the file holds. A directory is not
written to, and the attempt leaves all as it was. -/
theorem run_history_appends_and_fails :
    let setting : Setting := ⟨none, SearchPath.empty⟩
    let w : World := ⟨⟨#[.directory [("old", 1), ("d", 2)] 0, .file (Bytes.ofText "a\n") 0o600,
      .directory [] 0]⟩, Tree.root⟩
    let h : History := ⟨["x", "y"], 1⟩
    let e := run setting h w .history ["-a", "old"]
    let e' := run setting h w .history ["-w", "d"]
    e.history = ⟨["x", "y"], 2⟩ ∧ e.world.readFile "old" = .ok (Bytes.ofText "a\ny\n") ∧
      e'.history = h ∧ e'.world = w := by
  intro setting w h e e'
  have happend : Changes setting h w .history ["-a", "old"] e.history e.world :=
    (run_changes_one_thing.1 setting h w .history ["-a", "old"]).2 "" rfl
  have hfails := (run_changes_one_thing.1 setting h w .history ["-w", "d"]).1
    (.history "d" .isDirectory) rfl
  suffices happended : e.history = ⟨["x", "y"], 2⟩ ∧
      e.world.readFile "old" = .ok (Bytes.ofText "a\ny\n") from
    ⟨happended.1, happended.2, hfails⟩
  generalize e.history = h', e.world = w', harguments : ["-a", "old"] = arguments at happend
  cases happend with
  | keeps hb => simp at hb
  | lists hlist => exact absurd harguments.symm (hlist "-a" (by decide) "old" [])
  | loads _ | writes _ => simp at harguments
  | appends hw =>
      obtain ⟨-, rfl, -⟩ : "-a" = "-a" ∧ "old" = _ ∧ _ := by simpa using harguments
      obtain ⟨id, old, hid, -, hold, hnew⟩ := run_changes_one_thing.2.1 _ _ _ _ hw
      have hread : w.readFile "old" = .ok (Bytes.ofText "a\n") := rfl
      rw [hread] at hold
      obtain hold | ⟨hold, -⟩ := hold
      · cases hold
        obtain hnew | ⟨hnull, rfl⟩ := hnew
        · exact ⟨rfl, hnew⟩
        · cases (show w.locate "old" = .ok 1 from rfl).symm.trans hid
          cases hnull
      · cases hold

end Builtin

end LineShell
