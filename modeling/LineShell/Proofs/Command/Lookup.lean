import LineShell.Proofs.Command.Meaning
import LineShell.Proofs.Text.Lines

/-!
Where the search path leads for a name. What counts is the leftmost field under which the name is
a program. A field that does not have the name as a program changes nothing wherever it is put,
and neither does anything behind the field that has it. What is found has a slash in it, so the
machine is never asked to start anything by its bare name.
-/

namespace LineShell

/-- A regular file with an execute bit. -/
def Node.Runs : Node → Prop
  | .file _ mode => mode &&& 0o111 ≠ 0
  | _ => False

namespace World

/-- The path leads to a regular file with an execute bit, links followed. -/
def IsProgram (w : World) (path : String) : Prop :=
  ∃ id n, w.locate path = .ok id ∧ w.tree.node? id = some n ∧ n.Runs

/-- The field of a search path has the name as a program. -/
def Has (w : World) (name dir : String) : Prop :=
  dir ≠ "" ∧ w.IsProgram (Path.join dir name)

/-- Why a field of a search path is of no use for the name. -/
inductive Lacks (w : World) (name : String) : String → Prop
  | empty : Lacks w name ""
  | missing {dir} (hdir : ∀ id, w.locate dir ≠ .ok id) : Lacks w name dir
  | unnamed {dir id} (hdir : w.locate dir = .ok id) (hentry : w.tree.named? id name = none) :
      Lacks w name dir
  /-- A directory of that name, a device or a file without an execute bit. -/
  | unfit {dir id entry n} (hdir : w.locate dir = .ok id)
      (hentry : w.tree.named? id name = some entry) (hnode : w.tree.node? entry = some n)
      (hlink : ∀ target, n ≠ .link target) (hn : ¬n.Runs) : Lacks w name dir
  /-- A link of that name that dangles, or leads to something that does not run. -/
  | astray {dir id entry target} (hdir : w.locate dir = .ok id)
      (hentry : w.tree.named? id name = some entry)
      (hlink : w.tree.node? entry = some (.link target))
      (htarget : ∀ links other n,
        w.tree.walk false links ((Path.ofText target).base id) (Path.ofText target).steps =
          .ok (.node other) → w.tree.node? other = some n → ¬n.Runs) : Lacks w name dir

variable {w : World} {name dir path : String}

theorem isExecutable_iff : w.isExecutable path = true ↔ w.IsProgram path := by
  unfold isExecutable IsProgram
  cases w.locate path with
  | error fault => simp
  | ok id =>
      cases hnode : w.tree.node? id with
      | none => simp [hnode]
      | some n => cases n <;> simp [hnode, Node.Runs, executableMode]

instance (w : World) (name : String) : DecidablePred (w.Has name) := fun dir =>
  decidable_of_iff (dir ≠ "" ∧ w.isExecutable (Path.join dir name) = true)
    (and_congr_right fun _ => isExecutable_iff)

/-- A program behind the field would be what its directory has under the name, or where a link
there leads. -/
theorem Lacks.not_has (hname : name ≠ "") (hslash : Path.slash ∉ name.toList)
    (h : w.Lacks name dir) : ¬w.Has name dir := by
  rintro ⟨hne, found, n, hfound, hn, hruns⟩
  obtain ⟨mid, links, hmid, hwalk⟩ := exists_of_locate_join hne hname hslash hfound
  obtain ⟨entry, hentry, hleads⟩ := Tree.named?_of_walk hname hwalk
  cases h with
  | empty => exact hne rfl
  | missing hdir => exact hdir mid hmid
  | unnamed hdir hnone =>
      obtain rfl := Except.ok.inj (hmid.symm.trans hdir)
      cases hentry.symm.trans hnone
  | unfit hdir hentry' hnode hlink hunfit =>
      obtain rfl := Except.ok.inj (hmid.symm.trans hdir)
      obtain rfl := Option.some.inj (hentry.symm.trans hentry')
      rcases hleads with rfl | ⟨target, -, hnode', -⟩
      · obtain rfl := Option.some.inj (hn.symm.trans hnode)
        exact hunfit hruns
      · exact hlink target (Option.some.inj (hnode.symm.trans hnode'))
  | astray hdir hentry' hlink htarget =>
      obtain rfl := Except.ok.inj (hmid.symm.trans hdir)
      obtain rfl := Option.some.inj (hentry.symm.trans hentry')
      rcases hleads with rfl | ⟨target, links', hnode, hwalk'⟩
      · obtain rfl := Option.some.inj (hn.symm.trans hlink)
        exact hruns
      · obtain rfl := Node.link.inj (Option.some.inj (hnode.symm.trans hlink))
        exact htarget links' found n hwalk' hn hruns

end World

namespace SearchPath

variable {w : World} {name path text : String} {fields : List String}

/-! The fields -/

/-- The text is the fields with a colon between each two. -/
structure AreFields (text : String) (fields : List String) : Prop where
  ne_nil : fields ≠ []
  not_colon : ∀ field ∈ fields, ':' ∉ field.toList
  eq_intercalate : text = ":".intercalate fields

/-- Every text has fields, and no others. -/
theorem areFields_iff :
    AreFields text fields ↔ fields = (text.toList.splitOn ':').map String.ofList := by
  constructor
  · rintro ⟨hne, hcolon, rfl⟩
    have hcolons : ∀ cs ∈ fields.map String.toList, ':' ∉ cs := by simpa using hcolon
    rw [String.toList_intercalate]
    change _ = (([':'].intercalate (fields.map String.toList)).splitOn ':').map _
    rw [List.splitOn_intercalate ':' hcolons (by simpa using hne)]
    simp
  · rintro rfl
    refine ⟨by simp, fun field hfield => ?_, ?_⟩
    · obtain ⟨cs, hcs, rfl⟩ := List.mem_map.mp hfield
      simpa using History.not_mem_of_mem_splitOn hcs
    · apply String.toList_injective
      rw [String.toList_intercalate]
      change _ = [':'].intercalate _
      simp [Function.comp_def]

theorem dirs_ofText (hf : AreFields text fields) :
    (ofText text).dirs = fields.filter (· ≠ "") := by
  rw [areFields_iff.mp hf, List.filter_map, ofText]
  have hempty : ((fun field : String => decide (field ≠ "")) ∘ String.ofList) =
      fun cs => decide (cs ≠ []) := by
    funext cs
    simp
  rw [hempty]

/-- The search, field by field. -/
theorem find_ofText (hf : AreFields text fields) (hname : name ≠ "")
    (hslash : Path.slash ∉ name.toList) :
    (ofText text).find w name = (fields.find? (w.Has name ·)).map (Path.join · name) := by
  rw [find_of_not_slash _ w hname hslash, dirs_ofText hf, List.find?_map, List.find?_filter]
  congr 2
  funext dir
  rw [decide_eq_decide]
  simp [World.Has, World.isExecutable_iff]

theorem find_eq_some_iff_of_slash (search : SearchPath) (hslash : Path.slash ∈ name.toList) :
    search.find w name = some path ↔ path = name ∧ w.IsProgram name := by
  rw [find_of_slash search w hslash, Option.ite_none_right_eq_some, Option.some.injEq,
    World.isExecutable_iff, eq_comm, and_comm]

/-- What has been found is found again under its own path, by whatever search path. -/
theorem find_of_find {search : SearchPath} (h : search.find w name = some path)
    (other : SearchPath) : other.find w path = some path :=
  (find_eq_some_iff_of_slash other (slash_mem_of_find h)).mpr
    ⟨rfl, World.isExecutable_iff.mp (exists_of_find h).1⟩

/-! Fields that make no difference -/

/-- Some fields with useless ones put in anywhere, and anything at all behind the field that has
the name as a program. -/
inductive Padded (w : World) (name : String) : List String → List String → Prop
  | nil : Padded w name [] []
  | keep (dir : String) {fields fields'} (h : Padded w name fields fields') :
      Padded w name (dir :: fields) (dir :: fields')
  | insert {dir : String} {fields fields'} (hdir : w.Lacks name dir)
      (h : Padded w name fields fields') : Padded w name fields (dir :: fields')
  | behind {dir : String} (hdir : w.Has name dir) (fields fields' : List String) :
      Padded w name (dir :: fields) (dir :: fields')

theorem Padded.find?_eq {fields' : List String} (hname : name ≠ "")
    (hslash : Path.slash ∉ name.toList) (h : Padded w name fields fields') :
    fields'.find? (w.Has name ·) = fields.find? (w.Has name ·) := by
  induction h with
  | nil => rfl
  | keep dir _ ih => rw [List.find?_cons, List.find?_cons, ih]
  | insert hdir _ ih =>
      rw [List.find?_cons_of_neg (by simpa using hdir.not_has hname hslash), ih]
  | behind hdir =>
      rw [List.find?_cons_of_pos (by simpa using hdir),
        List.find?_cons_of_pos (by simpa using hdir)]

end SearchPath

/-! What the machine is asked to start -/

/-- The machine with a search of its own for what it is to start by a bare name. -/
def Machine.searching (m : Machine)
    (search : Nat → Console → String → List String → Except Fault Program) : Machine :=
  { m with
    start := fun i c path arguments =>
      if Path.slash ∈ path.toList then m.start i c path arguments
      else search i c path arguments }

section Searching

variable (m : Machine) (search : Nat → Console → String → List String → Except Fault Program)

theorem Machine.start_searching (i : Nat) (c : Console) {path : String}
    (hslash : Path.slash ∈ path.toList) (arguments : List String) :
    (m.searching search).start i c path arguments = m.start i c path arguments :=
  if_pos hslash

theorem Stage.start_searching (i : Nat) (c : Console) {dirs : SearchPath} {w : World}
    {name : String} {arguments : List String} {stage : Stage}
    (h : ofCommand dirs w name arguments = .ok stage) :
    stage.start (m.searching search) i c = stage.start m i c := by
  unfold ofCommand at h
  split at h
  · cases h
    rfl
  · cases h
  · split at h
    · rename_i path hpath
      cases h
      rw [start, start, m.start_searching search i c (SearchPath.slash_mem_of_find hpath)]
    · cases h

theorem Stage.start_searching_of_mem {dirs : SearchPath} {w : World}
    {segs : List (List String)} {stages : List Stage} (h : ofSegments dirs w segs = .ok stages) :
    ∀ stage ∈ stages, ∀ i c, stage.start (m.searching search) i c = stage.start m i c := by
  induction segs generalizing stages with
  | nil =>
      cases h
      simp
  | cons seg segs ih =>
      cases seg with
      | nil => exact ih h
      | cons name arguments =>
          obtain ⟨stage, others, hstage, hothers, rfl⟩ := ofSegments_cons_eq_ok_iff.mp h
          exact List.forall_mem_cons.mpr
            ⟨fun i c => stage.start_searching m search i c hstage, ih hothers⟩

theorem Launch.ofStages_searching (found : Nat → Console) {stages : List Stage}
    (h : ∀ stage ∈ stages, ∀ i c, stage.start (m.searching search) i c = stage.start m i c)
    (i : Nat) (inlets outlets : List StreamEnd) :
    ofStages (m.searching search) found i stages inlets outlets =
      ofStages m found i stages inlets outlets := by
  induction stages generalizing i inlets outlets with
  | nil => rfl
  | cons stage stages ih =>
      obtain ⟨hstage, hstages⟩ := List.forall_mem_cons.mp h
      cases inlets with
      | nil => rfl
      | cons inlet inlets =>
          cases outlets with
          | nil => rfl
          | cons outlet outlets =>
              rw [ofStages, ofStages, hstage]
              simp only [ih hstages]
              rfl

theorem Launch.ofPipeline_searching (found : Nat → Console) {stages : List Stage}
    (h : ∀ stage ∈ stages, ∀ i c, stage.start (m.searching search) i c = stage.start m i c) :
    ofPipeline (m.searching search) found stages = ofPipeline m found stages := by
  simp only [ofPipeline, ofStages_searching m search found h]
  rfl

theorem Pipeline.run_searching (setting : Setting) (h : History) (c : Console)
    (segs : List (List String)) :
    run (m.searching search) setting h c segs = run m setting h c segs := by
  unfold run
  split
  · rfl
  · rename_i stages hstages
    rw [Launch.ofPipeline_searching m search _ (Stage.start_searching_of_mem m search hstages)]

theorem runCommand_searching (setting : Setting) (h : History) (c : Console)
    (words : List String) :
    runCommand (m.searching search) setting h c words = runCommand m setting h c words := by
  unfold runCommand
  split
  · rfl
  · split
    · rfl
    · rfl
    · split
      · rfl
      · rename_i path hpath
        rw [m.start_searching search 0 c (SearchPath.slash_mem_of_find hpath)]

/-- No search of the machine's own is ever made. -/
theorem execute_searching (setting : Setting) (h : History) (c : Console)
    (segs : List (List String)) :
    execute (m.searching search) setting h c segs = execute m setting h c segs := by
  match segs with
  | [] => rfl
  | [single] => exact runCommand_searching m search setting h c single
  | first :: second :: rest =>
      rw [execute_of_two_le _ _ _ _ (by simp), execute_of_two_le _ _ _ _ (by simp),
        Pipeline.run_searching]

end Searching

/-- A name with a slash in it is a path and the search path has no say. Any other name is looked
for under the fields from left to right. Either way the path that is found has a slash, stands for
itself from then on, and is started without another search. -/
theorem SearchPath.find_takes_leftmost_field (text : String) (w : World) {name : String}
    (hname : name ≠ "") :
    (Path.slash ∈ name.toList → ∀ (search : SearchPath) (path : String),
      search.find w name = some path ↔ path = name ∧ w.IsProgram name) ∧
    (∃ fields, AreFields text fields) ∧
    (Path.slash ∉ name.toList → ∀ fields, AreFields text fields →
      (∀ path, (ofText text).find w name = some path ↔
        ∃ before dir after, fields = before ++ dir :: after ∧ (∀ d ∈ before, ¬w.Has name d) ∧
          w.Has name dir ∧ path = Path.join dir name) ∧
      ((ofText text).find w name = none ↔ ∀ dir ∈ fields, ¬w.Has name dir) ∧
      ∀ text' fields', AreFields text' fields' → Padded w name fields fields' →
        (ofText text').find w name = (ofText text).find w name) ∧
    (∀ (search : SearchPath) (path : String), search.find w name = some path →
      Path.slash ∈ path.toList ∧ ∀ other : SearchPath, other.find w path = some path) ∧
    ∀ (m : Machine) (search : Nat → Console → String → List String → Except Fault Program)
      (setting : Setting) (h : History) (c : Console) (segs : List (List String)),
      execute (m.searching search) setting h c segs = execute m setting h c segs := by
  refine ⟨fun hslash search path => find_eq_some_iff_of_slash search hslash,
    ⟨_, areFields_iff.mpr rfl⟩,
    fun hslash fields hf => ⟨fun path => ?_, ?_, fun text' fields' hf' hpadded => ?_⟩,
    fun search path h => ⟨slash_mem_of_find h, find_of_find h⟩, execute_searching⟩
  · rw [find_ofText hf hname hslash, Option.map_eq_some_iff]
    constructor
    · rintro ⟨dir, hfind, rfl⟩
      obtain ⟨hdir, before, after, hfields, hbefore⟩ := List.find?_eq_some_iff_append.mp hfind
      exact ⟨before, dir, after, hfields, by simpa using hbefore, by simpa using hdir, rfl⟩
    · rintro ⟨before, dir, after, hfields, hbefore, hdir, rfl⟩
      refine ⟨dir, List.find?_eq_some_iff_append.mpr ⟨by simpa using hdir, before, after,
        hfields, by simpa using hbefore⟩, rfl⟩
  · rw [find_ofText hf hname hslash, Option.map_eq_none_iff, List.find?_eq_none]
    simp
  · rw [find_ofText hf' hname hslash, find_ofText hf hname hslash, hpadded.find?_eq hname hslash]

/-- Three directories have the name as a directory, as a dangling link and without an execute bit.
The fourth has it as a link to a program. -/
theorem SearchPath.find_behind_useless_fields :
    let w : World := ⟨⟨#[.directory [("a", 1), ("b", 2), ("c", 3), ("d", 4), ("p", 9)] 0,
      .directory [("tool", 5)] 0, .directory [("tool", 6)] 0, .directory [("tool", 7)] 0,
      .directory [("tool", 8)] 0, .directory [] 1, .link "gone", .file [] 0o644, .link "../p",
      .file [] 0o755]⟩, Tree.root⟩
    "tool" ≠ "" ∧ Padded w "tool" ["", "/d"] ["none", "a", "", "b", "", "c/", "/d", "p"] ∧
    (ofText ":/d").find w "tool" = some "/d/tool" ∧
    (ofText "none:a::b::c/:/d:p").find w "tool" = some "/d/tool" := by
  intro w
  have hname : "tool" ≠ "" := by decide
  have hhas : w.Has "tool" "/d" := by decide
  have hnone : w.Lacks "tool" "none" := by
    have hmissing : w.locate "none" = .error .notFound := rfl
    exact .missing fun id => by simp [hmissing]
  have hdirectory : w.tree.node? 5 = some (.directory [] 1) := rfl
  have ha : w.Lacks "tool" "a" := .unfit rfl rfl hdirectory (by simp) id
  have hb : w.Lacks "tool" "b" := by
    have hgone (links : Nat) : w.tree.walk false links 2 ["gone"] = .ok (.vacant 2 "gone") := by
      cases links <;> rfl
    refine .astray rfl rfl rfl fun links other n hwalk => ?_
    cases (hgone links).symm.trans hwalk
  have hdenied : w.tree.node? 7 = some (.file [] 0o644) := rfl
  have hc : w.Lacks "tool" "c/" := .unfit rfl rfl hdenied (by simp) (by simp [Node.Runs])
  have hpadded : Padded w "tool" ["", "/d"] ["none", "a", "", "b", "", "c/", "/d", "p"] :=
    .insert hnone <| .insert ha <| .keep "" <| .insert hb <| .insert .empty <| .insert hc <|
      .behind hhas [] ["p"]
  obtain ⟨-, -, hbare, -, -⟩ := find_takes_leftmost_field ":/d" w hname
  obtain ⟨hfound, -, hsame⟩ := hbare (by decide) ["", "/d"] (areFields_iff.mpr (by decide))
  have hfirst : (ofText ":/d").find w "tool" = some "/d/tool" :=
    (hfound "/d/tool").mpr ⟨[""], "/d", [], rfl, by simp [World.Has], hhas, by decide⟩
  refine ⟨hname, hpadded, hfirst, ?_⟩
  rw [hsame _ _ (areFields_iff.mpr (by decide)) hpadded, hfirst]

end LineShell
