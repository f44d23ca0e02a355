import LineShell.Files.Walk

/-!
Reading and writing files, moving the working directory and listing directories.
-/

namespace LineShell

/-- Bytes written over the content from an offset on. A gap is filled with zeros, but not if
there is nothing to write. -/
def overwriteAt (content : Bytes) (offset : Nat) (b : Bytes) : Bytes :=
  if b = [] then content
  else
    content.take offset ++ List.replicate (offset - content.length) 0 ++ b ++
      content.drop (offset + b.length)

/-- Any of the three execute bits is set. -/
def executableMode (mode : Nat) : Bool :=
  mode &&& 0o111 ≠ 0

namespace Tree

/-- What a node holds for a reader, none for a directory. -/
def content? (t : Tree) (id : NodeId) : Option Bytes :=
  match t.node? id with
  | some (.file content _) => some content
  | some .null => some []
  | _ => none

/-- The file's content replaced; any other node stays as it is. -/
def setContent (t : Tree) (id : NodeId) (content : Bytes) : Tree :=
  match t.node? id with
  | some (.file _ mode) => t.put id (.file content mode)
  | _ => t

end Tree

namespace World

/-- The permission bits of a file that is made by opening it. -/
def newFileMode : Nat := 0o644

def withTree (w : World) (t : Tree) : World :=
  { w with tree := t }

def readFile (w : World) (path : String) : Except Fault Bytes :=
  match w.locate path with
  | .error fault => .error fault
  | .ok id =>
      match w.tree.content? id with
      | some content => .ok content
      | none => .error .isDirectory

/-- The text of a file. -/
def readText (w : World) (path : String) : Except Fault String :=
  match w.readFile path with
  | .error fault => .error fault
  | .ok content =>
      match content.text? with
      | some s => .ok s
      | none => .error .notText

/-- The file that a path leads to, made if it is not there. -/
def openFile (w : World) (path : String) : Except Fault (NodeId × World) :=
  match w.resolve true path with
  | .error fault => .error fault
  | .ok (.vacant dir name) =>
      let (id, tree) := w.tree.create dir name (.file [] newFileMode)
      .ok (id, w.withTree tree)
  | .ok (.node id) =>
      match w.tree.content? id with
      | some _ => .ok (id, w)
      | none => .error .isDirectory

def writeAt (w : World) (id : NodeId) (offset : Nat) (b : Bytes) : World :=
  match w.tree.content? id with
  | some content => w.withTree (w.tree.setContent id (overwriteAt content offset b))
  | none => w

def appendTo (w : World) (id : NodeId) (b : Bytes) : World :=
  match w.tree.content? id with
  | some content => w.withTree (w.tree.setContent id (content ++ b))
  | none => w

/-- Opens a file to write it anew: what it held is gone. -/
def openNew (w : World) (path : String) : Except Fault (NodeId × World) :=
  match w.openFile path with
  | .error fault => .error fault
  | .ok (id, w) => .ok (id, w.withTree (w.tree.setContent id []))

def writeFile (w : World) (path : String) (b : Bytes) : Except Fault World :=
  match w.openNew path with
  | .error fault => .error fault
  | .ok (id, w) => .ok (w.withTree (w.tree.setContent id b))

def appendFile (w : World) (path : String) (b : Bytes) : Except Fault World :=
  match w.openFile path with
  | .error fault => .error fault
  | .ok (id, w) => .ok (w.appendTo id b)

/-- Makes another directory the working directory. -/
def moveTo (w : World) (path : String) : Except Fault World :=
  match w.locate path with
  | .error fault => .error fault
  | .ok id =>
      match w.tree.node? id with
      | some (.directory _ _) => .ok { w with cwd := id }
      | _ => .error .notDirectory

/-- The path of the working directory, which may have been removed. -/
def workingPath (w : World) : Except Fault String :=
  match w.tree.pathTo? w.cwd with
  | some path => .ok path
  | none => .error .notFound

/-- A regular file that may be executed, links followed. -/
def isExecutable (w : World) (path : String) : Bool :=
  match w.locate path with
  | .error _ => false
  | .ok id =>
      match w.tree.node? id with
      | some (.file _ mode) => executableMode mode
      | _ => false

/-- The names in a directory, none if the path leads to no directory. -/
def namesIn (w : World) (path : String) : List String :=
  match w.locate path with
  | .error _ => []
  | .ok id => (w.tree.entries id).map (·.1)

end World

end LineShell
