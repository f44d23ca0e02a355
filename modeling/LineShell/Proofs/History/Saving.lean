import LineShell.Proofs.History.Preservation
import LineShell.Proofs.Session.Growing

/-!
Which file a session saves its history in. The path is followed anew when the session ends, from
the directory that it ends in. So a session that ends where it started, or whose path is absolute,
overwrites the file that it loaded and no other; one that has gone elsewhere may not.
-/

namespace LineShell

namespace World

variable {w w' : World} {path : String} {dir : NodeId}

/-- The same files, with relative paths starting from this directory. -/
def seenFrom (w : World) (dir : NodeId) : World :=
  { w with cwd := dir }

/-- The file at the path, made if it was missing, has been given this content, and no other file
has changed or come. -/
structure Saves (w : World) (path : String) (b : Bytes) (id : NodeId) (w' : World) : Prop where
  place : w'.locate path = .ok id
  content : w'.tree.content? id = some b
  others : SameBut [id] w w'

theorem resolve_seenFrom (hdir : path.toList.head? = some Path.slash ∨ w.cwd = dir)
    (making : Bool) : (w.seenFrom dir).resolve making path = w.resolve making path := by
  rcases hdir with habs | rfl
  · exact w.resolve_of_absolute making habs dir
  · rfl

theorem writeFile_seenFrom (hdir : path.toList.head? = some Path.slash ∨ w.cwd = dir)
    (b : Bytes) :
    (w.seenFrom dir).writeFile path b = (w.writeFile path b).map (·.seenFrom dir) := by
  unfold writeFile openNew openFile
  rw [resolve_seenFrom hdir]
  cases w.resolve true path with
  | error fault => rfl
  | ok place =>
      cases place with
      | vacant dir' name => rfl
      | node id =>
          simp only [seenFrom]
          cases w.tree.content? id <;> rfl

theorem locate_of_locate_grown {id : NodeId} (h : w.locate path = .ok id) {tree : Tree}
    (g : Tree.Grown w.tree tree) : (w.withTree tree).locate path = .ok id := by
  have hplace : w.resolve false path = .ok (.node id) := by
    unfold locate at h
    split at h
    · rename_i hplace
      cases h
      exact hplace
    · cases h
    · cases h
  exact locate_of_grown hplace g

theorem exists_saves (ho : w.Opens path) (b : Bytes) :
    ∃ w' id, w.writeFile path b = .ok w' ∧ w.Saves path b id w' ∧
      Tree.Grown w.tree w'.tree := by
  obtain ⟨w', hw, -, hread⟩ := readFile_writeFile ho b
  have hrewrites := rewrites_of_writeFile hw
  obtain ⟨id, -, hplace, hothers, -, -⟩ := hrewrites.frame
  refine ⟨w', id, hw, ⟨hplace, ?_, hothers⟩, hrewrites.grown⟩
  simp only [readFile, hplace] at hread
  split at hread
  · rename_i content hcontent
    cases hread
    exact hcontent
  · cases hread

/-- Only the null device takes what is written to it and is no file. -/
theorem eq_of_rewrites_of_not_opens {change : Bytes → Bytes} (hw : w.Rewrites path change w')
    (ho : ¬w.Opens path) : w' = w := by
  cases hw with
  | @file id content mode hplace hnode =>
      refine absurd ⟨id, w, content, mode, ?_, hnode⟩ ho
      simp only [openFile, hplace, Tree.content?, hnode]
  | null => rfl
  | @made dir name hplace =>
      obtain ⟨entries, parent, hd, hl⟩ := misses_of_resolve hplace
      have hopen : w.openFile path = .ok (w.tree.nodes.size,
          w.withTree (w.tree.create dir name (.file [] newFileMode)).2) := by
        simp only [openFile, hplace]
        rfl
      exact absurd ⟨_, _, [], newFileMode, hopen, Tree.node?_create_size hd hl _⟩ ho

end World

namespace Session

variable {s : Session} {w : World} {path : String} {dir : NodeId}

theorem save_of_writeFile (hfile : s.historyFile = some path) {w' : World}
    (hw : w.writeFile path (Bytes.ofText (History.fileText s.history.entries)) = .ok w') :
    s.save w = (w', none) := by
  simp only [save, hfile, History.writeTo, hw]

theorem save_of_writeFile_error (hfile : s.historyFile = some path) {fault : Fault}
    (hw : w.writeFile path (Bytes.ofText (History.fileText s.history.entries)) = .error fault) :
    s.save w = (w, some (.history path fault)) := by
  simp only [save, hfile, History.writeTo, hw]

theorem save_of_opens (hfile : s.historyFile = some path)
    (hdir : path.toList.head? = some Path.slash ∨ w.cwd = dir)
    (hopens : (w.seenFrom dir).Opens path) :
    ∃ after id, s.save w = (after, none) ∧ Tree.Grown w.tree after.tree ∧
      (w.seenFrom dir).Saves path (Bytes.ofText (History.fileText s.history.entries)) id
        (after.seenFrom dir) := by
  obtain ⟨w', id, hw, hsaves, hgrown⟩ := World.exists_saves hopens
    (Bytes.ofText (History.fileText s.history.entries))
  rw [World.writeFile_seenFrom hdir] at hw
  cases hafter : w.writeFile path (Bytes.ofText (History.fileText s.history.entries)) with
  | error fault =>
      rw [hafter] at hw
      cases hw
  | ok after =>
      rw [hafter] at hw
      cases hw
      exact ⟨after, id, save_of_writeFile hfile hafter, hgrown, hsaves⟩

theorem tree_save_of_not_opens (hfile : s.historyFile = some path)
    (hdir : path.toList.head? = some Path.slash ∨ w.cwd = dir)
    (hopens : ¬(w.seenFrom dir).Opens path) : (s.save w).1.tree = w.tree := by
  cases hafter : w.writeFile path (Bytes.ofText (History.fileText s.history.entries)) with
  | error fault => rw [save_of_writeFile_error hfile hafter]
  | ok after =>
      have hw := World.writeFile_seenFrom hdir
        (Bytes.ofText (History.fileText s.history.entries))
      rw [hafter] at hw
      have hsame : after.seenFrom dir = w.seenFrom dir :=
        World.eq_of_rewrites_of_not_opens (World.rewrites_of_writeFile hw) hopens
      rw [save_of_writeFile hfile hafter]
      exact (World.mk.inj hsame).1

end Session

/-- In the end of a dialogue that comes to this session and this console, the whole history is in
the file that the path leads to from this directory. It is the file that the path led to when the
session started, if that is there still, as it is if nothing is ever taken away. What cannot be
written leaves all files as they are. -/
def SavesFrom (m : Machine) (r : LineReader) (env : Environment) (c : Console) (path : String)
    (dir : NodeId) (ending : Ending) (s : Session) (last : Console) : Prop :=
  let before := last.world.seenFrom dir
  let after := (s.save last.world).1
  (before.Opens path →
    converse m r env c = some (ending, s, { last with world := after }) ∧
    ∃ id, before.Saves path (Bytes.ofText (History.fileText s.history.entries)) id
        (after.seenFrom dir) ∧
      ∀ first, (c.world.seenFrom dir).locate path = .ok first →
        m.OnlyAdds ∨ before.locate path = .ok first → id = first) ∧
  (¬before.Opens path → after.tree = last.world.tree)

theorem savesFrom {m : Machine} {r : LineReader} {env : Environment} {c last : Console}
    {path : String} {dir : NodeId} {ending : Ending} {s : Session}
    (hpath : env.historyPath = some path)
    (hended : dialogue m r env c = some (ending, s, last))
    (hdir : path.toList.head? = some Path.slash ∨ last.world.cwd = dir) :
    SavesFrom m r env c path dir ending s last := by
  have hfile : s.historyFile = some path := by
    rw [(extends_dialogue hended).historyFile, historyFile_start, hpath]
  refine ⟨fun hopens => ?_, Session.tree_save_of_not_opens hfile hdir⟩
  obtain ⟨after, id, hsave, hgrown, hsaves⟩ := Session.save_of_opens hfile hdir hopens
  have hconverse := converse_of_dialogue hended
  simp only [hsave] at hconverse ⊢
  refine ⟨hconverse, id, hsaves, fun first hfirst hthere => ?_⟩
  have hbefore : (last.world.seenFrom dir).locate path = .ok first := by
    rcases hthere with hm | hthere
    · exact World.locate_of_locate_grown hfirst (grown_dialogue c hm hended)
    · exact hthere
  have hafter : (after.seenFrom dir).locate path = .ok first :=
    World.locate_of_locate_grown hbefore hgrown
  exact Except.ok.inj (hsaves.place.symm.trans hafter)

/-- A session saves its history where the path leads to from the directory that it ends in. That
is the very file that it has loaded if the path is absolute or the session ends in the directory
that it started in. -/
theorem converse_saves_from_last_directory {m : Machine} {r : LineReader} {env : Environment}
    {c last : Console} {path : String} {ending : Ending} {s : Session}
    (hpath : env.historyPath = some path)
    (hended : dialogue m r env c = some (ending, s, last)) :
    (Session.start env.setting env.historyPath c.world).1.Extends s ∧
    SavesFrom m r env c path last.world.cwd ending s last ∧
    (path.toList.head? = some Path.slash ∨ last.world.cwd = c.world.cwd →
      SavesFrom m r env c path c.world.cwd ending s last) :=
  ⟨extends_dialogue hended, savesFrom hpath hended (.inr rfl), savesFrom hpath hended⟩

/-- The session goes into a directory that has a file of the same name, and comes back. -/
theorem converse_saves_behind_two_moves :
    let m := Machine.bare
    let r := LineReader.scripted [.line "cd d", .line "cd .."]
    let env : Environment := { historyFile := some "h" }
    let w : World := ⟨⟨#[.directory [("h", 1), ("d", 2)] 0, .file (Bytes.ofText "old\n") 0o644,
      .directory [("h", 3)] 0, .file (Bytes.ofText "other\n") 0o644]⟩, Tree.root⟩
    let c : Console := ⟨w, {}, .keep {}, .keep {}⟩
    let s : Session := ⟨env.setting, some "h", ⟨["old", "cd d", "cd .."], 1⟩⟩
    env.historyPath = some "h" ∧ dialogue m r env c = some (.done, s, c) ∧ w.Opens "h" ∧
    SavesFrom m r env c "h" w.cwd .done s c ∧
    ∃ after, converse m r env c = some (.done, s, { c with world := after }) ∧
      after.readFile "h" = .ok (Bytes.ofText "old\ncd d\ncd ..\n") ∧
      after.readFile "d/h" = .ok (Bytes.ofText "other\n") := by
  intro m r env w c s
  let begun : Session := ⟨env.setting, some "h", ⟨["old"], 1⟩⟩
  let gone : Session := ⟨env.setting, some "h", ⟨["old", "cd d"], 1⟩⟩
  let moved : Console := { c with world := { w with cwd := 2 } }
  have hstart : Session.start env.setting env.historyPath w = (begun, none) := by decide +kernel
  have hfirst : begun.eval m c "cd d" = (.proceed, gone, moved) := by decide +kernel
  have hsecond : gone.eval m moved "cd .." = (.proceed, s, c) := by decide +kernel
  have hcourse : begun.Course m r [.line "cd d", .line "cd .."] c
      [.line "cd d", .line "cd ..", .ended] [(c, "cd d"), (moved, "cd ..")] .exhausted c :=
    .proceed (LineReader.ask_scripted ..) hfirst
      (.proceed (LineReader.ask_scripted ..) hsecond (.exhausted (LineReader.ask_scripted ..)))
  have hend : begun.evalEach m [(c, "cd d"), (moved, "cd ..")] = s := by decide +kernel
  have hended : dialogue m r env c = some (.done, s, c) :=
    hcourse.dialogue_eq (c := c) hstart rfl hend
  have hopens : w.Opens "h" := ⟨1, w, _, 0o644, rfl, rfl⟩
  have hsaves := (converse_saves_from_last_directory (show env.historyPath = some "h" from rfl)
    hended).2.2 (.inr rfl)
  exact ⟨rfl, hended, hopens, hsaves, _, (hsaves.1 hopens).1, by decide +kernel,
    by decide +kernel⟩

/-- The session goes into that directory and ends there. -/
theorem converse_saves_elsewhere_behind_move :
    ¬∀ (m : Machine) (r : LineReader) (env : Environment) (c : Console) (path : String)
      (ending : Ending) (s : Session) (last : Console),
      env.historyPath = some path → dialogue m r env c = some (ending, s, last) →
      SavesFrom m r env c path c.world.cwd ending s last := by
  intro h
  let m := Machine.bare
  let r := LineReader.scripted [.line "cd d"]
  let env : Environment := { historyFile := some "h" }
  let w : World := ⟨⟨#[.directory [("h", 1), ("d", 2)] 0, .file (Bytes.ofText "old\n") 0o644,
    .directory [("h", 3)] 0, .file (Bytes.ofText "other\n") 0o644]⟩, Tree.root⟩
  let c : Console := ⟨w, {}, .keep {}, .keep {}⟩
  let begun : Session := ⟨env.setting, some "h", ⟨["old"], 1⟩⟩
  let s : Session := ⟨env.setting, some "h", ⟨["old", "cd d"], 1⟩⟩
  let last : Console := { c with world := { w with cwd := 2 } }
  let after := (s.save last.world).1
  have hstart : Session.start env.setting env.historyPath w = (begun, none) := by decide +kernel
  have heval : begun.eval m c "cd d" = (.proceed, s, last) := by decide +kernel
  have hcourse : begun.Course m r [.line "cd d"] c [.line "cd d", .ended] [(c, "cd d")]
      .exhausted last :=
    .proceed (LineReader.ask_scripted ..) heval (.exhausted (LineReader.ask_scripted ..))
  have hend : begun.evalEach m [(c, "cd d")] = s := by decide +kernel
  have hended : dialogue m r env c = some (.done, s, last) :=
    hcourse.dialogue_eq (c := c) hstart rfl hend
  have hopens : (last.world.seenFrom Tree.root).Opens "h" := ⟨1, w, _, 0o644, rfl, rfl⟩
  obtain ⟨-, id, hsaves, -⟩ := (h m r env c "h" .done s last rfl hended).1 hopens
  have hplace : (after.seenFrom Tree.root).locate "h" = .ok 1 := by decide +kernel
  have hold : (after.seenFrom Tree.root).tree.content? 1 ≠
      some (Bytes.ofText (History.fileText s.history.entries)) := by decide +kernel
  obtain rfl : 1 = id := Except.ok.inj (hplace.symm.trans hsaves.place)
  exact hold hsaves.content

end LineShell
