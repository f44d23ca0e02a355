import LineShell.Proofs.Files.Opening

/-!
Writing a whole file, anew or at its end. The file is made if it is missing, its content is
replaced, and nothing else changes.
-/

namespace LineShell

namespace Tree

theorem setContent_setContent (t : Tree) (id : NodeId) (a b : Bytes) :
    (t.setContent id a).setContent id b = t.setContent id b := by
  apply ext_node?
  intro other
  by_cases ho : id = other
  · subst ho
    cases hf : t.node? id with
    | none => simp only [setContent, hf]
    | some n =>
        cases n with
        | file content mode =>
            rw [node?_setContent_self (node?_setContent_self hf a), node?_setContent_self hf]
        | directory _ _ | link _ | null => simp only [setContent, hf]
  · simp only [node?_setContent_of_ne _ ho]

theorem put_eq_setContent {t : Tree} {id : NodeId} {content : Bytes} {mode : Nat}
    (h : t.node? id = some (.file content mode)) (b : Bytes) :
    t.put id (.file b mode) = t.setContent id b := by
  rw [setContent, h]

end Tree

namespace World

variable {w w' : World} {path : String}

theorem readFile_of_vacant {dir : NodeId} {name : String}
    (h : w.resolve true path = .ok (.vacant dir name)) : w.readFile path = .error .notFound := by
  have hplace := resolve_of_grown h (.refl w.tree)
  rw [Tree.settle_of_misses (misses_of_resolve h)] at hplace
  simp only [readFile, locate, show w.resolve false path = _ from hplace]

/-- The file at a path is given the content that is made from its old one. A missing file is
made, out of nothing, and the null device stays as it is. -/
inductive Rewrites (w : World) (path : String) (change : Bytes → Bytes) : World → Prop
  | file {id content mode} (hplace : w.resolve true path = .ok (.node id))
      (hnode : w.tree.node? id = some (.file content mode)) :
      Rewrites w path change (w.withTree (w.tree.put id (.file (change content) mode)))
  | null {id} (hplace : w.resolve true path = .ok (.node id))
      (hnode : w.tree.node? id = some .null) : Rewrites w path change w
  | made {dir name} (hplace : w.resolve true path = .ok (.vacant dir name)) :
      Rewrites w path change
        (w.withTree (w.tree.create dir name (.file (change []) newFileMode)).2)

variable {opened : World} {id : NodeId} {change : Bytes → Bytes}

theorem rewrites_of_openFile (ho : w.openFile path = .ok (id, opened)) (change : Bytes → Bytes) :
    ∃ content, opened.tree.content? id = some content ∧
      w.Rewrites path change (opened.withTree (opened.tree.setContent id (change content))) := by
  unfold openFile at ho
  split at ho
  · cases ho
  · rename_i dir name hplace
    cases ho
    have hmisses := misses_of_resolve hplace
    have ⟨entries, parent, hd, hl⟩ := hmisses
    have hnode := Tree.node?_create_size hd hl (.file [] newFileMode)
    refine ⟨[], ?_, ?_⟩
    · change (w.tree.create dir name (.file [] newFileMode)).2.content? w.tree.nodes.size = _
      rw [Tree.content?, hnode]
    · have hmade : w.Rewrites path change _ := .made hplace
      rwa [← Tree.setContent_create hmisses [] (change [])] at hmade
  · rename_i place hplace
    split at ho
    · rename_i content hcontent
      cases ho
      refine ⟨content, hcontent, ?_⟩
      cases hnode : w.tree.node? id with
      | none => simp [Tree.content?, hnode] at hcontent
      | some n =>
          cases n with
          | file old mode =>
              obtain rfl : old = content := by simpa [Tree.content?, hnode] using hcontent
              simp only [Tree.setContent, hnode]
              exact .file hplace hnode
          | null =>
              simp only [Tree.setContent, hnode]
              exact .null hplace hnode
          | directory _ _ | link _ => simp [Tree.content?, hnode] at hcontent
    · cases ho

theorem rewrites_of_writeFile {b : Bytes} (h : w.writeFile path b = .ok w') :
    w.Rewrites path (fun _ => b) w' := by
  unfold writeFile openNew at h
  cases ho : w.openFile path with
  | error _ => simp [ho] at h
  | ok opened =>
      obtain ⟨id, opened⟩ := opened
      simp only [ho] at h
      obtain ⟨content, -, hrewrites⟩ := rewrites_of_openFile ho fun _ => b
      cases h
      simpa only [withTree, Tree.setContent_setContent] using hrewrites

theorem rewrites_of_appendFile {b : Bytes} (h : w.appendFile path b = .ok w') :
    w.Rewrites path (· ++ b) w' := by
  unfold appendFile at h
  cases ho : w.openFile path with
  | error _ => simp [ho] at h
  | ok opened =>
      obtain ⟨id, opened⟩ := opened
      simp only [ho] at h
      obtain ⟨content, hcontent, hrewrites⟩ := rewrites_of_openFile ho (· ++ b)
      cases h
      simpa only [appendTo, hcontent] using hrewrites

/-- The path leads to the file afterwards, and what it held is what is read before. -/
theorem Rewrites.frame (h : w.Rewrites path change w') :
    ∃ id old, w'.locate path = .ok id ∧ SameBut [id] w w' ∧
      (w.readFile path = .ok old ∨ w.readFile path = .error .notFound ∧ old = []) ∧
      (w'.readFile path = .ok (change old) ∨ w.tree.node? id = some .null ∧ w' = w) := by
  cases h with
  | @file id content mode hplace hnode =>
      have hput := Tree.put_eq_setContent hnode (change content)
      have hbefore : w.locate path = .ok id := locate_of_grown hplace (.refl w.tree)
      have hafter := locate_of_grown hplace (hput ▸ w.tree.grown_setContent id _)
      refine ⟨id, content, hafter, ?_, .inl ?_, .inl ?_⟩
      · rw [hput]
        exact w.sameBut_setContent id _
      · simp only [readFile, hbefore, Tree.content?, hnode]
      · rw [readFile, hafter]
        simp only [withTree, Tree.content?, w.tree.node?_put_self hnode]
  | @null id hplace hnode =>
      have hbefore : w.locate path = .ok id := locate_of_grown hplace (.refl w.tree)
      refine ⟨id, [], hbefore, .refl _ w, .inl ?_, .inr ⟨hnode, rfl⟩⟩
      simp only [readFile, hbefore, Tree.content?, hnode]
  | @made dir name hplace =>
      obtain ⟨entries, parent, hd, hl⟩ := misses_of_resolve hplace
      have hafter := locate_of_created hplace (.refl
        (w.tree.create dir name (.file (change []) newFileMode)).2)
      refine ⟨_, [], hafter, sameBut_create (misses_of_resolve hplace) _,
        .inr ⟨readFile_of_vacant hplace, rfl⟩, .inl ?_⟩
      rw [readFile, hafter]
      simp only [withTree, Tree.content?, Tree.node?_create_size hd hl]

end World

end LineShell
