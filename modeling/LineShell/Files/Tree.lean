import LineShell.Text.Bytes

/-!
A tree of files as a store of numbered nodes. A directory names its entries and knows its
parent; a node that no directory names any more stays in the store, which is how a
working directory can outlive its removal.
-/

namespace LineShell

abbrev NodeId := Nat

inductive Node
  | file (content : Bytes) (mode : Nat)
  | directory (entries : List (String × NodeId)) (parent : NodeId)
  | link (target : String)
  /-- The device that is empty to a reader and keeps nothing of what is written. -/
  | null
  deriving DecidableEq, Repr, Inhabited

structure Tree where
  nodes : Array Node
  deriving DecidableEq, Repr

namespace Tree

/-- The node of the root directory. -/
def root : NodeId := 0

def empty : Tree := ⟨#[.directory [] root]⟩

def node? (t : Tree) (id : NodeId) : Option Node :=
  t.nodes[id]?

def put (t : Tree) (id : NodeId) (n : Node) : Tree :=
  ⟨t.nodes.setIfInBounds id n⟩

/-- The entries of a directory, none for a node that is no directory. -/
def entries (t : Tree) (dir : NodeId) : List (String × NodeId) :=
  match t.node? dir with
  | some (.directory entries _) => entries
  | _ => []

/-- Names a node in a directory, in place of the entry of that name if there is one. -/
def enter (t : Tree) (dir : NodeId) (name : String) (id : NodeId) : Tree :=
  match t.node? dir with
  | some (.directory entries parent) =>
      t.put dir (.directory (entries.filter (·.1 ≠ name) ++ [(name, id)]) parent)
  | _ => t

/-- A new node in a directory, and its number. -/
def create (t : Tree) (dir : NodeId) (name : String) (n : Node) : NodeId × Tree :=
  (t.nodes.size, (Tree.mk (t.nodes.push n)).enter dir name t.nodes.size)

/-- The directory is still named by its parent. Only the root needs no name. -/
def attached (t : Tree) (dir : NodeId) : Bool :=
  dir == root ||
    match t.node? dir with
    | some (.directory _ parent) => (t.entries parent).any (·.2 == dir)
    | _ => false

/-- The names from the root down to a directory, none for one that has been removed. The
fuel bounds the depth. -/
def namesTo? (t : Tree) : Nat → NodeId → Option (List String)
  | 0, _ => none
  | fuel + 1, dir =>
      if dir = root then some []
      else
        match t.node? dir with
        | some (.directory _ parent) =>
            match (t.entries parent).find? (·.2 == dir) with
            | some (name, _) => (t.namesTo? fuel parent).map (· ++ [name])
            | none => none
        | _ => none

/-- The absolute path of a directory, without links. -/
def pathTo? (t : Tree) (dir : NodeId) : Option String :=
  (t.namesTo? (t.nodes.size + 1) dir).map fun names =>
    if names = [] then "/" else String.join (names.map ("/" ++ ·))

theorem node?_put_of_ne (t : Tree) {i j : NodeId} (h : i ≠ j) (n : Node) :
    (t.put i n).node? j = t.node? j := by
  simp [node?, put, h]

theorem node?_put_self (t : Tree) {i : NodeId} {m : Node} (h : t.node? i = some m) (n : Node) :
    (t.put i n).node? i = some n := by
  have hi : i < t.nodes.size := (Array.getElem?_eq_some_iff.mp h).1
  simp [node?, put, hi]

end Tree

end LineShell
