import LineShell.Files.Access

/-!
Setting a tree of files up by hand, and taking stock of the files in it.
-/

namespace LineShell

/-- Something to be there, or not to be there, at a path under some directory. -/
inductive Fixture
  | directory (path : String)
  | file (path : String) (content : Bytes) (mode : Nat)
  | link (path target : String)
  | null (path : String)
  | absent (path : String)
  deriving Repr

namespace Tree

/-- Goes down the names from a directory and makes the directories that are missing. A
name that is taken by something else ends the descent. -/
def descend (t : Tree) (dir : NodeId) : List String → NodeId × Tree
  | [] => (dir, t)
  | name :: rest =>
      match t.walk false Path.linkLimit dir [name] with
      | .ok (.node id) => t.descend id rest
      | .ok (.vacant parent name) =>
          let (id, t) := t.create parent name (.directory [] parent)
          t.descend id rest
      | .error _ => (dir, t)

/-- A node made at the end of the names, the directories before it as needed. -/
def plant (t : Tree) (dir : NodeId) (names : List String) (n : Node) : Tree :=
  match names.getLast? with
  | none => t
  | some name =>
      let (parent, t) := t.descend dir names.dropLast
      (t.create parent name n).2

/-- Empties a directory and all directories below it. The fuel bounds the depth. -/
def clear : Nat → Tree → NodeId → Tree
  | 0, t, _ => t
  | fuel + 1, t, id =>
      match t.node? id with
      | some (.directory entries parent) =>
          (entries.foldl (fun t entry => clear fuel t entry.2) t).put id (.directory [] parent)
      | _ => t

def discard (t : Tree) (dir : NodeId) (names : List String) : Tree :=
  match names.getLast?, t.walk false Path.linkLimit dir names.dropLast with
  | some name, .ok (.node parent) =>
      match t.node? parent with
      | some (.directory entries grandparent) =>
          match entries.lookup name with
          | some id =>
              (clear (t.nodes.size + 1) t id).put parent
                (.directory (entries.filter (·.1 ≠ name)) grandparent)
          | none => t
      | _ => t
  | _, _ => t

/-- Sets a fixture up under a directory. A file that is there already is written anew and
takes the mode. -/
def arrange (t : Tree) (dir : NodeId) : Fixture → Tree
  | .directory path => (t.descend dir (Path.parts path.toList)).2
  | .link path target => t.plant dir (Path.parts path.toList) (.link target)
  | .null path => t.plant dir (Path.parts path.toList) .null
  | .absent path => t.discard dir (Path.parts path.toList)
  | .file path content mode =>
      let names := Path.parts path.toList
      match t.walk false Path.linkLimit dir names with
      | .ok (.node id) => t.put id (.file content mode)
      | .ok (.vacant parent name) => (t.create parent name (.file content mode)).2
      | .error _ => t.plant dir names (.file content mode)

/-- The regular files below a directory, each with its path from there. The fuel bounds
the depth. -/
def filesBelow (t : Tree) : Nat → NodeId → List (String × Bytes)
  | 0, _ => []
  | fuel + 1, dir =>
      (t.entries dir).flatMap fun (name, id) =>
        match t.node? id with
        | some (.file content _) => [(name, content)]
        | some (.directory _ _) =>
            (t.filesBelow fuel id).map fun (path, content) => (name ++ "/" ++ path, content)
        | _ => []

def survey (t : Tree) (dir : NodeId) : List (String × Bytes) :=
  t.filesBelow (t.nodes.size + 1) dir

/-- The files of the later survey that are new or hold something else than before. -/
def changed (before later : List (String × Bytes)) : List (String × Bytes) :=
  later.filter fun (path, content) => before.lookup path ≠ some content

end Tree

end LineShell
