import LineShell.Proofs.Files.ReadBack
import LineShell.Proofs.Files.Shape

/-!
Opening the file of a redirection: what there is to find at its path and what becomes of it. No
file is touched but the one that is opened, and if it has to be made, its directory gains its
name.
-/

namespace LineShell

namespace Line.Redirection

/-- The file is opened if it is there or if its name is free in a directory. -/
inductive Opens (r : Redirection) (w : World) : Except Fault (Sink × World) → Prop
  | there {id content} (hplace : w.resolve true r.file = .ok (.node id))
      (hcontent : w.tree.content? id = some content) :
      Opens r w (.ok (.file id r.append 0,
        if r.append then w else w.withTree (w.tree.setContent id [])))
  | made {dir name} (hplace : w.resolve true r.file = .ok (.vacant dir name)) :
      Opens r w (.ok (.file w.tree.nodes.size r.append 0,
        w.withTree (w.tree.create dir name (.file [] World.newFileMode)).2))
  | directory {id} (hplace : w.resolve true r.file = .ok (.node id))
      (hcontent : w.tree.content? id = none) : Opens r w (.error .isDirectory)
  | astray {fault} (hplace : w.resolve true r.file = .error fault) : Opens r w (.error fault)

end Line.Redirection

namespace Tree

/-- A file that has just been made, given some content, is as if made with it. -/
theorem setContent_create {t : Tree} {dir : NodeId} {name : String}
    (h : t.Misses (.vacant dir name)) (a b : Bytes) (mode : Nat) :
    (t.create dir name (.file a mode)).2.setContent t.nodes.size b =
      (t.create dir name (.file b mode)).2 := by
  obtain ⟨entries, parent, hd, hl⟩ := h
  have hlt : dir < t.nodes.size := (Array.getElem?_eq_some_iff.mp hd).1
  apply ext_node?
  intro other
  by_cases ho : t.nodes.size = other
  · subst ho
    rw [node?_setContent_self (node?_create_size hd hl _), node?_create_size hd hl]
  · rw [node?_setContent_of_ne _ ho]
    by_cases hdir : dir = other
    · subst hdir
      rw [node?_create_dir hd hl, node?_create_dir hd hl]
    · rw [node?_create_of_ne hd hl _ hdir, node?_create_of_ne hd hl _ hdir]
      simp [node?, Array.getElem?_push, Ne.symm ho]

end Tree

namespace World

/-- Only these files differ, and directories have gained no other entries. -/
structure SameBut (touched : List NodeId) (w w' : World) : Prop where
  cwd : w'.cwd = w.cwd
  node : ∀ id, id ∉ touched → w'.tree.node? id = w.tree.node? id ∨
    ∃ entries added parent, w.tree.node? id = some (.directory entries parent) ∧
      w'.tree.node? id = some (.directory (entries ++ added) parent) ∧
      ∀ entry ∈ added, entry.2 ∈ touched

namespace SameBut

variable {touched touched' : List NodeId} {w w' w'' : World}

theorem refl (touched : List NodeId) (w : World) : SameBut touched w w :=
  ⟨rfl, fun _ _ => .inl rfl⟩

theorem mono (h : SameBut touched w w') (hsub : touched ⊆ touched') :
    SameBut touched' w w' := by
  refine ⟨h.cwd, fun id hid => (h.node id fun hmem => hid (hsub hmem)).imp_right ?_⟩
  rintro ⟨entries, added, parent, hd, hd', hadded⟩
  exact ⟨entries, added, parent, hd, hd', fun entry he => hsub (hadded entry he)⟩

theorem trans (h : SameBut touched w w') (h' : SameBut touched w' w'') :
    SameBut touched w w'' := by
  refine ⟨h'.cwd.trans h.cwd, fun id hid => ?_⟩
  obtain heq | ⟨entries, added, parent, hd, hd', hadded⟩ := h.node id hid
  · rw [← heq]
    exact h'.node id hid
  obtain heq' | ⟨entries', added', parent', he, he', hadded'⟩ := h'.node id hid
  · exact .inr ⟨entries, added, parent, hd, heq'.trans hd', hadded⟩
  · cases hd'.symm.trans he
    rw [List.append_assoc] at he'
    exact .inr ⟨entries, added ++ added', parent, hd, he',
      List.forall_mem_append.mpr ⟨hadded, hadded'⟩⟩

end SameBut

theorem sameBut_setContent (w : World) (id : NodeId) (b : Bytes) :
    SameBut [id] w (w.withTree (w.tree.setContent id b)) := by
  refine ⟨rfl, fun other ho => .inl ?_⟩
  exact w.tree.node?_setContent_of_ne (fun he => ho (List.mem_singleton.mpr he.symm)) b

theorem sameBut_create {w : World} {dir : NodeId} {name : String}
    (h : w.tree.Misses (.vacant dir name)) (n : Node) :
    SameBut [w.tree.nodes.size] w (w.withTree (w.tree.create dir name n).2) := by
  obtain ⟨entries, parent, hd, hl⟩ := h
  refine ⟨rfl, fun id hid => ?_⟩
  by_cases he : dir = id
  · subst he
    refine .inr ⟨entries, _, parent, hd, Tree.node?_create_dir hd hl n, ?_⟩
    exact List.forall_mem_singleton.mpr (List.mem_singleton_self _)
  · have hnew : id ≠ w.tree.nodes.size := fun hs => hid (List.mem_singleton.mpr hs)
    refine .inl ((Tree.node?_create_of_ne hd hl n he).trans ?_)
    simp [Tree.node?, Array.getElem?_push, hnew]

end World

theorem Sink.sameBut_write (s : Sink) (w : World) (b : Bytes) :
    World.SameBut s.target?.toList w (s.write w b).2 := by
  refine ⟨s.cwd_write w b, fun id hid => .inl (s.node?_write w b fun ht => hid ?_)⟩
  rw [ht]
  exact List.mem_singleton_self id

namespace Line.Redirection

variable {r : Redirection} {w w' : World} {sink : Sink}

theorem Opens.opened_eq {result : Except Fault (Sink × World)} (h : r.Opens w result) :
    r.opened w = result := by
  cases h with
  | there hplace hcontent =>
      cases ha : r.append <;>
        simp [opened, World.openNew, World.openFile, hplace, hcontent, ha]
  | made hplace =>
      cases ha : r.append with
      | true => simp [opened, World.openFile, hplace, ha, Tree.create]
      | false =>
          -- A file that has just been made is empty, so making it anew changes nothing.
          have hempty := Tree.setContent_create (World.misses_of_resolve hplace) [] []
            World.newFileMode
          simp only [opened, World.openNew, World.openFile, hplace, ha]
          exact congrArg (fun tree => Except.ok (Sink.file _ _ _, w.withTree tree)) hempty
  | directory hplace hcontent =>
      simp [opened, World.openNew, World.openFile, hplace, hcontent]
  | astray hplace => simp [opened, World.openNew, World.openFile, hplace]

theorem exists_opens (r : Redirection) (w : World) : ∃ result, r.Opens w result := by
  cases hplace : w.resolve true r.file with
  | error fault => exact ⟨_, .astray hplace⟩
  | ok p =>
      cases p with
      | vacant dir name => exact ⟨_, .made hplace⟩
      | node id =>
          cases hcontent : w.tree.content? id with
          | none => exact ⟨_, .directory hplace hcontent⟩
          | some content => exact ⟨_, .there hplace hcontent⟩

theorem opens_opened (r : Redirection) (w : World) : r.Opens w (r.opened w) := by
  obtain ⟨result, h⟩ := exists_opens r w
  rwa [h.opened_eq]

theorem Opens.sameBut (h : r.Opens w (.ok (sink, w'))) :
    World.SameBut sink.target?.toList w w' := by
  cases h with
  | there hplace hcontent =>
      split
      · exact .refl _ w
      · exact w.sameBut_setContent _ []
  | made hplace => exact World.sameBut_create (World.misses_of_resolve hplace) _

theorem map_fst_opened (r : Redirection) (w : World) :
    (r.opened w).map Prod.fst =
      ((w.openFile r.file).map Prod.fst).map fun id => .file id r.append 0 := by
  unfold opened World.openNew
  cases r.append <;> cases w.openFile r.file <;> rfl

/-- What is written to files that are there does not change what can be opened. -/
theorem map_fst_opened_of_shape_eq (r : Redirection) (h : w'.shape = w.shape) :
    (r.opened w').map Prod.fst = (r.opened w).map Prod.fst := by
  rw [map_fst_opened, map_fst_opened, ← w'.openFile_shape, ← w.openFile_shape, h]

end Line.Redirection

end LineShell
