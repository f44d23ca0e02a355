import LineShell.Proofs.Files.Frame
import LineShell.Session

/-!
The shape of a tree: all that is left of it when the files in it are emptied. Where a path leads
and what can be opened there is a matter of the shape alone, and writing does not change it.
-/

namespace LineShell

def Node.shape : Node → Node
  | .file _ mode => .file [] mode
  | n => n

namespace Tree

def shape (t : Tree) : Tree :=
  ⟨t.nodes.map Node.shape⟩

@[simp] theorem node?_shape (t : Tree) (id : NodeId) :
    t.shape.node? id = (t.node? id).map Node.shape :=
  Array.getElem?_map

@[simp] theorem size_shape (t : Tree) : t.shape.nodes.size = t.nodes.size :=
  Array.size_map

@[simp] theorem entries_shape (t : Tree) (dir : NodeId) : t.shape.entries dir = t.entries dir := by
  rw [entries, entries, node?_shape]
  cases t.node? dir with
  | none => rfl
  | some n => cases n <;> rfl

@[simp] theorem attached_shape (t : Tree) (dir : NodeId) :
    t.shape.attached dir = t.attached dir := by
  rw [attached, attached, node?_shape]
  cases t.node? dir with
  | none => rfl
  | some n => cases n <;> simp [Node.shape]

theorem content?_shape (t : Tree) (id : NodeId) :
    t.shape.content? id = (t.content? id).map fun _ => [] := by
  rw [content?, content?, node?_shape]
  cases t.node? id with
  | none => rfl
  | some n => cases n <;> rfl

theorem walkNames_shape (t : Tree) (making : Bool)
    (jump : NodeId → List String → Except Fault Place) (dir : NodeId) (names : List String) :
    t.shape.walkNames making jump dir names = t.walkNames making jump dir names := by
  induction names generalizing dir with
  | nil => rfl
  | cons name rest ih =>
      rw [walkNames, walkNames, node?_shape]
      cases t.node? dir with
      | none => rfl
      | some n =>
          cases n with
          | file _ _ | link _ | null => rfl
          | directory entries parent =>
              simp only [Option.map_some, Node.shape, ih, attached_shape]
              cases entries.lookup name with
              | none => rfl
              | some id =>
                  simp only [node?_shape]
                  cases t.node? id with
                  | none => rfl
                  | some n => cases n <;> rfl

theorem walk_shape (t : Tree) (making : Bool) (links : Nat) (dir : NodeId)
    (names : List String) :
    t.shape.walk making links dir names = t.walk making links dir names := by
  induction links generalizing dir names with
  | zero => exact t.walkNames_shape making _ dir names
  | succ links ih =>
      have hjump : t.shape.walk making links = t.walk making links :=
        funext fun dir => funext fun names => ih dir names
      rw [walk, walk, hjump, walkNames_shape]

theorem ext_node? {t t' : Tree} (h : ∀ id, t.node? id = t'.node? id) : t = t' :=
  congrArg Tree.mk (Array.ext_getElem? h)

theorem shape_setContent (t : Tree) (id : NodeId) (content : Bytes) :
    (t.setContent id content).shape = t.shape := by
  apply ext_node?
  intro other
  rw [node?_shape, node?_shape]
  by_cases ho : id = other
  · subst ho
    unfold setContent
    split
    · rename_i hf
      rw [t.node?_put_self hf, hf]
      rfl
    · rfl
  · rw [t.node?_setContent_of_ne ho]

end Tree

namespace World

def shape (w : World) : World :=
  w.withTree w.tree.shape

theorem resolve_shape (w : World) (making : Bool) (path : String) :
    w.shape.resolve making path = w.resolve making path := by
  unfold resolve
  cases pathOf path with
  | error _ => rfl
  | ok p => exact w.tree.walk_shape making _ _ _

theorem shape_writeAt (w : World) (id : NodeId) (offset : Nat) (b : Bytes) :
    (w.writeAt id offset b).shape = w.shape := by
  unfold writeAt
  split
  · rw [shape, withTree, withTree, Tree.shape_setContent, shape, withTree]
  · rfl

theorem shape_appendTo (w : World) (id : NodeId) (b : Bytes) :
    (w.appendTo id b).shape = w.shape := by
  unfold appendTo
  split
  · rw [shape, withTree, withTree, Tree.shape_setContent, shape, withTree]
  · rfl

/-- Which file is opened at a path depends on the shape, and so does why none is. -/
theorem openFile_shape (w : World) (path : String) :
    (w.shape.openFile path).map Prod.fst = (w.openFile path).map Prod.fst := by
  unfold openFile
  rw [resolve_shape]
  cases w.resolve true path with
  | error fault => rfl
  | ok p =>
      cases p with
      | vacant dir name => exact congrArg Except.ok w.tree.size_shape
      | node id =>
          simp only [shape, withTree, Tree.content?_shape]
          cases w.tree.content? id <;> rfl

end World

end LineShell
