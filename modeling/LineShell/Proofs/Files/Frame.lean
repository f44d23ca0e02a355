import LineShell.Stream

/-!
What writing leaves alone: every file but the one written to, and the working directory. What
it makes of the one written to depends on nothing else.
-/

namespace LineShell

theorem Tree.node?_setContent_of_ne (t : Tree) {id other : NodeId} (h : id ≠ other)
    (content : Bytes) : (t.setContent id content).node? other = t.node? other := by
  unfold setContent
  split
  · exact t.node?_put_of_ne h _
  · rfl

theorem Tree.node?_setContent_congr {t t' : Tree} {id : NodeId} (h : t.node? id = t'.node? id)
    (content : Bytes) :
    (t.setContent id content).node? id = (t'.setContent id content).node? id := by
  unfold setContent
  rw [← h]
  split
  · rename_i hnode
    rw [t.node?_put_self hnode, t'.node?_put_self (h ▸ hnode)]
  · exact h

theorem Tree.setContent_self {t : Tree} {id : NodeId} {content : Bytes}
    (h : t.content? id = some content) : t.setContent id content = t := by
  unfold content? at h
  unfold setContent
  cases hn : t.node? id with
  | none => rfl
  | some n =>
      rw [hn] at h
      cases n with
      | directory _ _ | link _ | null => rfl
      | file content' mode =>
          cases h
          obtain ⟨nodes⟩ := t
          simp only [put, node?] at hn ⊢
          obtain ⟨hi, hn⟩ := Array.getElem?_eq_some_iff.mp hn
          rw [← hn, Array.setIfInBounds, dif_pos hi, Array.set_getElem_self]

namespace World

theorem node?_writeAt_of_ne (w : World) {id other : NodeId} (h : id ≠ other) (offset : Nat)
    (b : Bytes) : (w.writeAt id offset b).tree.node? other = w.tree.node? other := by
  unfold writeAt
  split
  · exact w.tree.node?_setContent_of_ne h _
  · rfl

theorem node?_appendTo_of_ne (w : World) {id other : NodeId} (h : id ≠ other) (b : Bytes) :
    (w.appendTo id b).tree.node? other = w.tree.node? other := by
  unfold appendTo
  split
  · exact w.tree.node?_setContent_of_ne h _
  · rfl

theorem node?_writeAt_congr {w w' : World} {id : NodeId}
    (h : w.tree.node? id = w'.tree.node? id) (offset : Nat) (b : Bytes) :
    (w.writeAt id offset b).tree.node? id = (w'.writeAt id offset b).tree.node? id := by
  have hc : w.tree.content? id = w'.tree.content? id := by simp only [Tree.content?, h]
  unfold writeAt
  rw [hc]
  split
  · exact Tree.node?_setContent_congr h _
  · exact h

theorem node?_appendTo_congr {w w' : World} {id : NodeId}
    (h : w.tree.node? id = w'.tree.node? id) (b : Bytes) :
    (w.appendTo id b).tree.node? id = (w'.appendTo id b).tree.node? id := by
  have hc : w.tree.content? id = w'.tree.content? id := by simp only [Tree.content?, h]
  unfold appendTo
  rw [hc]
  split
  · exact Tree.node?_setContent_congr h _
  · exact h

@[simp] theorem cwd_writeAt (w : World) (id : NodeId) (offset : Nat) (b : Bytes) :
    (w.writeAt id offset b).cwd = w.cwd := by
  unfold writeAt
  split <;> rfl

@[simp] theorem cwd_appendTo (w : World) (id : NodeId) (b : Bytes) :
    (w.appendTo id b).cwd = w.cwd := by
  unfold appendTo
  split <;> rfl

end World

namespace Sink

/-- Writing changes no file but the one that the sink goes to. -/
theorem node?_write (s : Sink) (w : World) (b : Bytes) {id : NodeId} (h : s.target? ≠ some id) :
    (s.write w b).2.tree.node? id = w.tree.node? id := by
  cases s with
  | keep _ | discard | broken | refuse => rfl
  | file target append offset =>
      have hne : target ≠ id := fun he => h (congrArg some he)
      cases append with
      | true => exact w.node?_appendTo_of_ne hne b
      | false => exact w.node?_writeAt_of_ne hne offset b

/-- A write of nothing changes nothing. -/
theorem write_nil (s : Sink) (w : World) : s.write w [] = (s, w) := by
  have hfile : ∀ id, w.appendTo id [] = w ∧ ∀ offset, w.writeAt id offset [] = w := by
    intro id
    unfold World.appendTo World.writeAt
    cases hc : w.tree.content? id with
    | none => exact ⟨rfl, fun _ => rfl⟩
    | some content =>
        simp only [List.append_nil, overwriteAt, if_pos, Tree.setContent_self hc]
        exact ⟨rfl, fun _ => rfl⟩
  cases s with
  | keep kept => simp [write]
  | discard | broken | refuse => rfl
  | file id append offset => cases append <;> simp [write, hfile id]
theorem cwd_write (s : Sink) (w : World) (b : Bytes) : (s.write w b).2.cwd = w.cwd := by
  cases s with
  | keep _ | discard | broken | refuse => rfl
  | file target append offset =>
      cases append with
      | true => exact w.cwd_appendTo target b
      | false => exact w.cwd_writeAt target offset b

end Sink

end LineShell
