import LineShell.Proofs.Completion.Candidates
import LineShell.Proofs.Files.Listing
import LineShell.Proofs.Pipeline.Refusal

/-!
What a command name stands for, in whatever way it is asked. `type`, a command on its own, a stage
of a pipeline and completion use different tables and look at the files in different ways. All of
them go by one meaning.
-/

namespace LineShell

inductive Meaning
  /-- The shell carries it out itself or ends the session. -/
  | own
  | program (path : String)
  | unknown
  deriving DecidableEq, Repr

def Meaning.ofName (search : SearchPath) (w : World) (name : String) : Meaning :=
  if name ∈ Builtin.names then .own
  else
    match search.find w name with
    | some path => .program path
    | none => .unknown

/-- A program run as a command on its own. -/
def Console.launch (m : Machine) (c : Console) (path name : String) (arguments : List String) :
    Console :=
  match m.start 0 c path (name :: arguments) with
  | .error fault => c.emit (.error (.start name fault))
  | .ok p => c.run p

/-- Alone and with whatever arguments, the name starts the program at the path. -/
def StartsAlone (setting : Setting) (w : World) (name path : String) : Prop :=
  ∀ (m : Machine) (h : History) (c : Console) (arguments : List String), c.world = w →
    runCommand m setting h c (name :: arguments) =
      ⟨.proceed, h, c.launch m path name arguments⟩

/-- Wherever the name stands in a pipeline of known commands, its stage is the program at the
path. -/
def StartsAsStage (setting : Setting) (w : World) (name path : String) : Prop :=
  ∀ (m : Machine) (h : History) (c : Console) (arguments : List String)
    (before later : List (List String)) (first last : List Stage),
    c.world = w → before ++ later ≠ [] →
    Stage.ofSegments setting.search w before = .ok first →
    Stage.ofSegments setting.search w later = .ok last →
    execute m setting h c (before ++ (name :: arguments) :: later) =
      ⟨.proceed, h, Pipeline.finish setting h c
        (Launch.ofPipeline m (fun _ => c) (first ++ .program path name arguments :: last))⟩

/-- Alone, the name does nothing but report that it is not known. -/
def IsUnknownAlone (setting : Setting) (w : World) (name : String) : Prop :=
  ∀ (m : Machine) (h : History) (c : Console) (arguments : List String), c.world = w →
    runCommand m setting h c (name :: arguments) =
      ⟨.proceed, h, c.print .err (name ++ ": command not found" ++ "\n")⟩

/-- A pipeline with the name behind known commands does nothing but report that it is not
known. -/
def IsUnknownAsStage (setting : Setting) (w : World) (name : String) : Prop :=
  ∀ (m : Machine) (h : History) (c : Console) (arguments : List String)
    (before later : List (List String)) (first : List Stage),
    c.world = w → before ++ later ≠ [] →
    Stage.ofSegments setting.search w before = .ok first →
    execute m setting h c (before ++ (name :: arguments) :: later) =
      ⟨.proceed, h, c.print .err (name ++ ": command not found" ++ "\n")⟩

variable {search : SearchPath} {setting : Setting} {w : World} {name path : String}

/-! The meaning -/

theorem Dispatch.ofName_of_not_mem (h : name ∉ Builtin.names) : ofName name = .program name := by
  simp only [Builtin.names, List.mem_append, List.mem_map, List.mem_singleton, not_or] at h
  obtain ⟨hb, hexit⟩ := h
  have hnone : Builtin.ofName? name = none := by
    rw [Builtin.ofName?, List.find?_eq_none]
    exact fun b hb' he => hb ⟨b, hb', by simpa using he⟩
  simp only [ofName, if_neg hexit, hnone]

theorem Dispatch.ofName_of_mem (h : name ∈ Builtin.names) :
    name = Line.exitWord ∧ ofName name = .leave ∨
      ∃ b, b.name = name ∧ ofName name = .builtin b := by
  simp only [Builtin.names, List.mem_append, List.mem_map, List.mem_singleton] at h
  rcases h with ⟨b, -, rfl⟩ | rfl
  · refine .inr ⟨b, rfl, ?_⟩
    cases b <;> decide
  · exact .inl ⟨rfl, by decide⟩

theorem Dispatch.ofName_eq_program_iff : ofName name = .program name ↔ name ∉ Builtin.names := by
  refine ⟨fun h hmem => ?_, ofName_of_not_mem⟩
  rcases ofName_of_mem hmem with ⟨-, hd⟩ | ⟨b, -, hd⟩
  · cases hd.symm.trans h
  · cases hd.symm.trans h

namespace Meaning

theorem ofName_eq_own_iff : ofName search w name = .own ↔ name ∈ Builtin.names := by
  unfold ofName
  split
  · simpa
  · split <;> simpa

theorem ofName_eq_program_iff :
    ofName search w name = .program path ↔
      name ∉ Builtin.names ∧ search.find w name = some path := by
  unfold ofName
  split
  · simp_all
  · split <;> simp_all

theorem ofName_eq_unknown_iff :
    ofName search w name = .unknown ↔ name ∉ Builtin.names ∧ search.find w name = none := by
  unfold ofName
  split
  · simp_all
  · split <;> simp_all

end Meaning

/-! What `type` says -/

theorem SearchPath.find_of_not_slash (search : SearchPath) (w : World) (hname : name ≠ "")
    (hslash : Path.slash ∉ name.toList) :
    search.find w name = (search.dirs.map (Path.join · name)).find? w.isExecutable := by
  rw [find, if_neg hname, if_neg (by simpa using hslash)]

theorem SearchPath.find_of_slash (search : SearchPath) (w : World)
    (hslash : Path.slash ∈ name.toList) :
    search.find w name = if w.isExecutable name then some name else none := by
  have hname : name ≠ "" := by
    rintro rfl
    cases hslash
  rw [find, if_neg hname, if_pos (by simpa using hslash)]

/-- What is found may be executed, and is the name itself or an entry of one of the directories. -/
theorem SearchPath.exists_of_find (h : search.find w name = some path) :
    w.isExecutable path = true ∧
      (path = name ∧ Path.slash ∈ name.toList ∨ ∃ dir ∈ search.dirs, path = Path.join dir name) := by
  have hname : name ≠ "" := by
    rintro rfl
    cases h
  by_cases hslash : Path.slash ∈ name.toList
  · rw [find_of_slash search w hslash, Option.ite_none_right_eq_some] at h
    obtain ⟨hexec, ⟨⟩⟩ := h
    exact ⟨hexec, .inl ⟨rfl, hslash⟩⟩
  · rw [find_of_not_slash search w hname hslash] at h
    obtain ⟨dir, hdir, rfl⟩ := List.mem_map.mp (List.mem_of_find?_eq_some h)
    exact ⟨List.find?_some h, .inr ⟨dir, hdir, rfl⟩⟩

theorem SearchPath.slash_mem_of_find (h : search.find w name = some path) :
    Path.slash ∈ path.toList := by
  obtain ⟨-, ⟨rfl, hslash⟩ | ⟨dir, hdir, rfl⟩⟩ := exists_of_find h
  · exact hslash
  · have hne : dir ≠ "" := fun he => search.named (he ▸ hdir)
    obtain ⟨before, hjoin, -⟩ := Path.toList_join hne name
    simp [hjoin]

theorem Builtin.describe_eq (search : SearchPath) (w : World) (name : String) :
    describe search w (some name) =
      match Meaning.ofName search w name with
      | .own => .ok (name ++ " is a shell builtin\n")
      | .program path => .ok (name ++ " is " ++ path ++ "\n")
      | .unknown => .error (.notFound name) := by
  unfold describe Meaning.ofName isName
  by_cases hn : name ∈ names
  · simp [hn]
  · simp only [List.contains_eq_mem, hn, decide_false, Bool.false_eq_true, if_false]
    cases search.find w name <;> rfl

/-- No path of a program reads like what is said of a builtin. -/
theorem Builtin.describe_eq_builtin_iff :
    describe search w (some name) = .ok (name ++ " is a shell builtin\n") ↔
      Meaning.ofName search w name = .own := by
  rw [describe_eq]
  cases hm : Meaning.ofName search w name with
  | own => simp
  | unknown => simp
  | program path =>
      have hslash := SearchPath.slash_mem_of_find (Meaning.ofName_eq_program_iff.mp hm).2
      simp only [Except.ok.injEq, reduceCtorEq, iff_false]
      intro he
      have hpath : " is " ++ path ++ "\n" = " is " ++ "a shell builtin" ++ "\n" := by
        rw [String.append_assoc, String.append_assoc, String.append_right_inj] at he
        rw [String.append_assoc, he]
        rfl
      rw [String.append_left_inj, String.append_right_inj] at hpath
      rw [hpath] at hslash
      exact absurd hslash (by decide)

theorem Builtin.describe_eq_path_iff (hown : name ∉ names) :
    describe search w (some name) = .ok (name ++ " is " ++ path ++ "\n") ↔
      Meaning.ofName search w name = .program path := by
  rw [describe_eq]
  cases hm : Meaning.ofName search w name with
  | own => exact absurd (Meaning.ofName_eq_own_iff.mp hm) hown
  | unknown => simp
  | program path' => simp

theorem Builtin.describe_eq_notFound_iff :
    describe search w (some name) = .error (.notFound name) ↔
      Meaning.ofName search w name = .unknown := by
  rw [describe_eq]
  cases Meaning.ofName search w name <;> simp

/-! What is run -/

theorem startsAlone_of_program (hm : Meaning.ofName setting.search w name = .program path) :
    StartsAlone setting w name path := by
  obtain ⟨hown, hfind⟩ := Meaning.ofName_eq_program_iff.mp hm
  intro m h c arguments hw
  simp only [runCommand, Dispatch.ofName_of_not_mem hown, hw, hfind, Console.launch]
  cases m.start 0 c path (name :: arguments) <;> rfl

theorem isUnknownAlone_of_unknown (hm : Meaning.ofName setting.search w name = .unknown) :
    IsUnknownAlone setting w name := by
  obtain ⟨hown, hfind⟩ := Meaning.ofName_eq_unknown_iff.mp hm
  intro m h c arguments hw
  simp only [runCommand, Dispatch.ofName_of_not_mem hown, hw, hfind]
  rfl

theorem Stage.ofSegments_append_of_ok {before : List (List String)} {first : List Stage}
    (h : ofSegments search w before = .ok first) (rest : List (List String)) :
    ofSegments search w (before ++ rest) = (ofSegments search w rest).map (first ++ ·) := by
  induction before generalizing first with
  | nil =>
      cases h
      cases hr : ofSegments search w rest <;> simp [hr, Except.map]
  | cons seg before ih =>
      cases seg with
      | nil => exact ih h
      | cons name arguments =>
          obtain ⟨stage, stages, hstage, hstages, rfl⟩ := ofSegments_cons_eq_ok_iff.mp h
          rw [List.cons_append, ofSegments, hstage, ih hstages]
          cases ofSegments search w rest <;> rfl

theorem two_le_length_behind {before later : List (List String)} (hne : before ++ later ≠ [])
    (seg : List String) : 2 ≤ (before ++ seg :: later).length := by
  have hpos := List.length_pos_iff.mpr hne
  rw [List.length_append] at hpos
  rw [List.length_append, List.length_cons]
  omega

theorem startsAsStage_of_program (hm : Meaning.ofName setting.search w name = .program path) :
    StartsAsStage setting w name path := by
  obtain ⟨hown, hfind⟩ := Meaning.ofName_eq_program_iff.mp hm
  intro m h c arguments before later first last hw hne hfirst hlast
  have hseg : Stage.ofSegments setting.search w ((name :: arguments) :: later) =
      .ok (.program path name arguments :: last) := by
    simp only [Stage.ofSegments, Stage.ofCommand, Dispatch.ofName_of_not_mem hown, hfind, hlast]
  rw [execute_of_two_le _ _ _ _ (two_le_length_behind hne _), Pipeline.run, hw,
    Stage.ofSegments_append_of_ok hfirst, hseg]
  rfl

theorem isUnknownAsStage_of_unknown (hm : Meaning.ofName setting.search w name = .unknown) :
    IsUnknownAsStage setting w name := by
  obtain ⟨hown, hfind⟩ := Meaning.ofName_eq_unknown_iff.mp hm
  intro m h c arguments before later first hw hne hfirst
  have hseg : Stage.ofSegments setting.search w ((name :: arguments) :: later) =
      .error (.commandNotFound name) := by
    simp only [Stage.ofSegments, Stage.ofCommand, Dispatch.ofName_of_not_mem hown, hfind]
  rw [execute_of_two_le _ _ _ _ (two_le_length_behind hne _), Pipeline.run, hw,
    Stage.ofSegments_append_of_ok hfirst, hseg]
  rfl

/-! Telling runs apart -/

/-- A machine with one program, at the path, which closes its output. -/
def Machine.onlyAt (path : String) : Machine where
  start _ _ other _ := if other = path then .ok fun c => { c with out := .discard }
    else .error .notFound
  pipeFault _ := none
  shareFault _ := none

def Console.fresh (w : World) : Console :=
  ⟨w, {}, .keep {}, .keep {}⟩

theorem Console.out_launch_onlyAt (other : String) (arguments : List String) :
    ((fresh w).launch (Machine.onlyAt path) other name arguments).out =
      if other = path then .discard else .keep {} := by
  by_cases hp : other = path
  · simp [launch, Machine.onlyAt, hp, Console.run]
  · simp [launch, Machine.onlyAt, hp, emit, print, write, fresh]

theorem Pipeline.out_finish_onlyAt (h : History) (other : String) (arguments : List String) :
    (finish setting h (.fresh w) (Launch.ofPipeline (Machine.onlyAt path) (fun _ => .fresh w)
      [.builtin .echo [], .program other name arguments])).out =
      if other = path then .discard else .keep {} := by
  by_cases hp : other = path
  · subst hp
    simp [finish, Launch.ofPipeline, Launch.ofStages, Launch.missingPipe?, inlets, outlets,
      Machine.onlyAt, Stage.start, step, sinkAt, Work.run, Console.run]
  · simp [finish, Launch.ofPipeline, Launch.ofStages, Launch.missingPipe?, inlets, outlets,
      Machine.onlyAt, Stage.start, step, sinkAt, Work.run, hp, Console.print, Console.write,
      Console.fresh]

theorem Console.err_emit {c : Console} (hc : c.err = .keep {}) (result : Except ShellError String) :
    (c.emit result).err =
      match result with
      | .ok _ => .keep {}
      | .error e => .keep (Feed.ofText e.line) := by
  cases result with
  | ok s => simp [emit, print, write, hc]
  | error e => simp [emit, print, write, hc, Sink.write, Sink.flooded, Feed.ofText]

theorem Pipeline.err_finish_builtin (h : History) (b : Builtin) (arguments : List String) :
    (finish setting h (.fresh w) (Launch.ofPipeline (Machine.onlyAt path) (fun _ => .fresh w)
      [.builtin .echo [], .builtin b arguments])).err =
    ((Console.fresh w).emit (b.run setting h w arguments).result).err := by
  have hl : Launch.ofPipeline (Machine.onlyAt path) (fun _ => .fresh w)
      [.builtin .echo [], .builtin b arguments] =
      ⟨[⟨.builtin .echo [], .input, .writer 0⟩, ⟨.builtin b arguments, .reader 0, .output⟩], [],
        none⟩ := rfl
  rw [Console.err_emit rfl, hl]
  exact Console.err_emit rfl _

theorem Builtin.exists_other_report (b : Builtin) (setting : Setting) (h : History) (w : World) :
    ∃ arguments, ((Console.fresh w).emit (b.run setting h w arguments).result).err ≠
      .keep (Feed.ofText (b.name ++ ": command not found" ++ "\n")) := by
  have hquiet : Sink.keep {} ≠ .keep (Feed.ofText (b.name ++ ": command not found" ++ "\n")) := by
    cases b <;> decide +kernel
  cases b with
  | echo | history =>
      refine ⟨[], ?_⟩
      rw [Console.err_emit rfl]
      exact hquiet
  | type =>
      refine ⟨["type"], ?_⟩
      rw [Console.err_emit rfl]
      exact hquiet
  | pwd =>
      refine ⟨[], ?_⟩
      rw [Console.err_emit rfl]
      simp only [run, place, World.workingPath]
      cases w.tree.pathTo? w.cwd with
      | some path => exact hquiet
      | none => decide +kernel
  | cd =>
      refine ⟨["."], ?_⟩
      rw [Console.err_emit rfl]
      have hd : destination setting.home (some ".") = .ok "." := rfl
      simp only [run, enter, List.head?_cons, hd]
      cases w.moveTo "." with
      | ok w' => exact hquiet
      | error fault =>
          have hfail : Sink.keep (Feed.ofText (ShellError.noSuchDirectory ".").line) ≠
              .keep (Feed.ofText (Builtin.cd.name ++ ": command not found" ++ "\n")) := by
            decide +kernel
          exact hfail

/-! A pipeline of two stages is enough to tell what the second one is. -/

theorem StartsAsStage.behind_echo (hs : StartsAsStage setting w name path) (m : Machine)
    (arguments : List String) :
    execute m setting {} (.fresh w) [["echo"], name :: arguments] =
      ⟨.proceed, {}, Pipeline.finish setting {} (.fresh w) (Launch.ofPipeline m (fun _ => .fresh w)
        [.builtin .echo [], .program path name arguments])⟩ :=
  hs m {} (.fresh w) arguments [["echo"]] [] [.builtin .echo []] [] rfl (by simp) rfl rfl

theorem IsUnknownAsStage.behind_echo (hs : IsUnknownAsStage setting w name) (m : Machine)
    (arguments : List String) :
    execute m setting {} (.fresh w) [["echo"], name :: arguments] =
      ⟨.proceed, {}, (Console.fresh w).emit (.error (.commandNotFound name))⟩ :=
  hs m {} (.fresh w) arguments [["echo"]] [] [.builtin .echo []] rfl (by simp) rfl

/-- Runs of a name, with whatever machine and arguments, by which the meanings can be told
apart. -/
structure Reveals (setting : Setting) (w : World) (name : String)
    (run : Machine → List String → Outcome) : Prop where
  out : ∀ path, name ∉ Builtin.names →
    (run (.onlyAt path) []).console.out =
      if Meaning.ofName setting.search w name = .program path then .discard else .keep {}
  own : name ∈ Builtin.names → ∃ m arguments,
    run m arguments ≠ ⟨.proceed, {}, (Console.fresh w).emit (.error (.commandNotFound name))⟩

theorem Reveals.ofName_of_out {run : Machine → List String → Outcome}
    (hr : Reveals setting w name run) (hown : name ∉ Builtin.names)
    (h : (run (.onlyAt path) []).console.out = .discard) :
    Meaning.ofName setting.search w name = .program path := by
  rw [hr.out path hown] at h
  split at h
  · assumption
  · cases h

theorem Reveals.ofName_of_unknown {run : Machine → List String → Outcome}
    (hr : Reveals setting w name run)
    (h : ∀ m arguments, run m arguments =
      ⟨.proceed, {}, (Console.fresh w).emit (.error (.commandNotFound name))⟩) :
    Meaning.ofName setting.search w name = .unknown := by
  cases hm : Meaning.ofName setting.search w name with
  | own =>
      obtain ⟨m, arguments, hne⟩ := hr.own (Meaning.ofName_eq_own_iff.mp hm)
      exact absurd (h m arguments) hne
  | program path =>
      have hout := hr.out path (Meaning.ofName_eq_program_iff.mp hm).1
      rw [h, if_pos hm] at hout
      cases hout
  | unknown => rfl

theorem reveals_alone (setting : Setting) (w : World) (name : String) :
    Reveals setting w name fun m arguments =>
      runCommand m setting {} (.fresh w) (name :: arguments) where
  out path hown := by
    cases hm : Meaning.ofName setting.search w name with
    | own => exact absurd (Meaning.ofName_eq_own_iff.mp hm) hown
    | program other =>
        rw [startsAlone_of_program hm _ _ _ _ rfl, Console.out_launch_onlyAt]
        simp only [Meaning.program.injEq]
    | unknown =>
        rw [isUnknownAlone_of_unknown hm _ _ _ _ rfl]
        rfl
  own hown := by
    rcases Dispatch.ofName_of_mem hown with ⟨-, hd⟩ | ⟨b, rfl, hd⟩
    · refine ⟨.onlyAt "", [], fun he => ?_⟩
      simp [runCommand, hd] at he
    · obtain ⟨arguments, hne⟩ := b.exists_other_report setting {} w
      refine ⟨.onlyAt "", arguments, fun he => hne ?_⟩
      have herr := congrArg (·.console.err) he
      simp only [runCommand, hd] at herr
      rw [Console.err_emit rfl] at herr ⊢
      exact herr

theorem reveals_behind_echo (setting : Setting) (w : World) (name : String) :
    Reveals setting w name fun m arguments =>
      execute m setting {} (.fresh w) [["echo"], name :: arguments] where
  out path hown := by
    cases hm : Meaning.ofName setting.search w name with
    | own => exact absurd (Meaning.ofName_eq_own_iff.mp hm) hown
    | program other =>
        rw [(startsAsStage_of_program hm).behind_echo, Pipeline.out_finish_onlyAt]
        simp only [Meaning.program.injEq]
    | unknown =>
        rw [(isUnknownAsStage_of_unknown hm).behind_echo]
        rfl
  own hown := by
    have hecho : Dispatch.ofName "echo" = .builtin .echo := by decide
    rcases Dispatch.ofName_of_mem hown with ⟨rfl, hd⟩ | ⟨b, rfl, hd⟩
    · refine ⟨.onlyAt "", [], fun he => ?_⟩
      have herr := congrArg (·.console.err) he
      simp only [execute, Pipeline.run, Stage.ofSegments, Stage.ofCommand, hecho, hd] at herr
      change ((Console.fresh w).emit (.error .exitInPipeline)).err = _ at herr
      rw [Console.err_emit rfl, Console.err_emit rfl] at herr
      exact absurd herr (by decide +kernel)
    · obtain ⟨arguments, hne⟩ := b.exists_other_report setting {} w
      refine ⟨.onlyAt "", arguments, fun he => hne ?_⟩
      have herr := congrArg (·.console.err) he
      simp only [execute, Pipeline.run, Stage.ofSegments, Stage.ofCommand, hecho, hd,
        Pipeline.err_finish_builtin] at herr
      exact herr

/-! All views -/

theorem startsAlone_iff (hown : name ∉ Builtin.names) :
    StartsAlone setting w name path ↔ Meaning.ofName setting.search w name = .program path := by
  refine ⟨fun hs => ?_, startsAlone_of_program⟩
  apply (reveals_alone setting w name).ofName_of_out hown
  rw [hs _ _ _ _ rfl, Console.out_launch_onlyAt, if_pos rfl]

theorem startsAsStage_iff (hown : name ∉ Builtin.names) :
    StartsAsStage setting w name path ↔ Meaning.ofName setting.search w name = .program path := by
  refine ⟨fun hs => ?_, startsAsStage_of_program⟩
  apply (reveals_behind_echo setting w name).ofName_of_out hown
  rw [hs.behind_echo, Pipeline.out_finish_onlyAt, if_pos rfl]

theorem isUnknownAlone_iff :
    IsUnknownAlone setting w name ↔ Meaning.ofName setting.search w name = .unknown := by
  refine ⟨fun hs => ?_, isUnknownAlone_of_unknown⟩
  exact (reveals_alone setting w name).ofName_of_unknown fun m arguments =>
    hs m {} (.fresh w) arguments rfl

theorem isUnknownAsStage_iff :
    IsUnknownAsStage setting w name ↔ Meaning.ofName setting.search w name = .unknown := by
  refine ⟨fun hs => ?_, isUnknownAsStage_of_unknown⟩
  exact (reveals_behind_echo setting w name).ofName_of_unknown hs.behind_echo

theorem SearchPath.offers_iff_find (hdirs : ∀ dir ∈ search.dirs, w.Lists dir) (hname : name ≠ "")
    (hslash : Path.slash ∉ name.toList) :
    search.Offers w name ↔ ∃ path, search.find w name = some path := by
  rw [← Option.isSome_iff_exists, find_of_not_slash search w hname hslash, List.find?_isSome]
  constructor
  · rintro ⟨dir, hdir, -, hexec⟩
    exact ⟨Path.join dir name, List.mem_map_of_mem hdir, hexec⟩
  · rintro ⟨_, hmem, hexec⟩
    obtain ⟨dir, hdir, rfl⟩ := List.mem_map.mp hmem
    exact ⟨dir, hdir, World.mem_namesIn_of_isExecutable (hdirs dir hdir) hname hslash hexec, hexec⟩

theorem Completion.mem_candidates_iff_ofName (hdirs : ∀ dir ∈ search.dirs, w.Lists dir)
    (hname : name ≠ "") (hslash : Path.slash ∉ name.toList) {start : String}
    (hstart : Text.begins start name = true) :
    name ∈ candidates search w start ↔ Meaning.ofName search w name ≠ .unknown := by
  rw [mem_candidates_iff, SearchPath.offers_iff_find hdirs hname hslash, Ne,
    Meaning.ofName_eq_unknown_iff, hstart]
  cases search.find w name <;> simp [Classical.or_iff_not_imp_left]

/-- `type` says what a name stands for, and everything else goes by the same: a command on its
own, a stage wherever it stands, and completion, which lists the directories. -/
theorem name_means_what_type_says (setting : Setting) (w : World) {name : String}
    (hname : name ≠ "") (hdirs : ∀ dir ∈ setting.search.dirs, w.Lists dir) :
    let said := Builtin.describe setting.search w (some name)
    (∀ (m : Machine) (h : History) (c : Console) (more : List String), c.world = w →
      runCommand m setting h c ("type" :: name :: more) = ⟨.proceed, h, c.emit said⟩) ∧
    (said = .ok (name ++ " is a shell builtin\n") ↔ Dispatch.ofName name ≠ .program name) ∧
    (Dispatch.ofName name = .program name → ∀ path,
      (said = .ok (name ++ " is " ++ path ++ "\n") ↔ StartsAlone setting w name path) ∧
      (said = .ok (name ++ " is " ++ path ++ "\n") ↔ StartsAsStage setting w name path)) ∧
    (said = .error (.notFound name) ↔ IsUnknownAlone setting w name) ∧
    (said = .error (.notFound name) ↔ IsUnknownAsStage setting w name) ∧
    (Path.slash ∉ name.toList → ∀ start, Text.begins start name = true →
      (name ∈ Completion.candidates setting.search w start ↔ ∃ text, said = .ok text)) := by
  intro said
  refine ⟨?_, ?_, fun hd path => ?_, ?_, ?_, fun hslash start hstart => ?_⟩
  · rintro m h c more rfl
    rfl
  · rw [Builtin.describe_eq_builtin_iff, Meaning.ofName_eq_own_iff, Ne,
      Dispatch.ofName_eq_program_iff, Classical.not_not]
  · have hown := Dispatch.ofName_eq_program_iff.mp hd
    rw [Builtin.describe_eq_path_iff hown, startsAlone_iff hown, startsAsStage_iff hown]
    exact ⟨Iff.rfl, Iff.rfl⟩
  · rw [Builtin.describe_eq_notFound_iff, isUnknownAlone_iff]
  · rw [Builtin.describe_eq_notFound_iff, isUnknownAsStage_iff]
  · rw [Completion.mem_candidates_iff_ofName hdirs hname hslash hstart]
    have hsaid : said = _ := Builtin.describe_eq setting.search w name
    rw [hsaid]
    cases Meaning.ofName setting.search w name <;> simp

/-- The first directory has a file of the name that may not be executed, the second a link to one
that may. -/
theorem name_means_linked_program :
    let w : World := ⟨⟨#[.directory [("a", 1), ("b", 2), ("p", 3)] 0, .directory [("tool", 4)] 0,
      .directory [("tool", 5)] 0, .file [] 0o755, .file [] 0o644, .link "../p"]⟩, Tree.root⟩
    let setting : Setting := ⟨none, ⟨["/a", "b/"], by decide⟩⟩
    "tool" ≠ "" ∧ (∀ dir ∈ setting.search.dirs, w.Lists dir) ∧
    StartsAlone setting w "tool" "b/tool" ∧ StartsAsStage setting w "tool" "b/tool" ∧
    "tool" ∈ Completion.candidates setting.search w "to" := by
  intro w setting
  have hdirs : ∀ dir ∈ setting.search.dirs, w.Lists dir := by
    intro dir hdir
    simp only [setting, List.mem_cons, List.not_mem_nil, or_false] at hdir
    rcases hdir with rfl | rfl
    · exact ⟨1, _, _, _, _, rfl, rfl, rfl⟩
    · exact ⟨2, _, _, _, _, rfl, rfl, rfl⟩
  have hname : "tool" ≠ "" := by decide
  have hsaid : Builtin.describe setting.search w (some "tool") = .ok "tool is b/tool\n" := by
    rfl
  obtain ⟨-, -, hprogram, -, -, hcomplete⟩ := name_means_what_type_says setting w hname hdirs
  obtain ⟨halone, hstage⟩ := hprogram (by decide) "b/tool"
  exact ⟨hname, hdirs, halone.mp hsaid, hstage.mp hsaid,
    (hcomplete (by decide) "to" (by decide)).mpr ⟨_, hsaid⟩⟩

end LineShell
