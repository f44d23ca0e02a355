import LineShell.Fault.Basic
import LineShell.Files.Tree

/-!
Where a path leads. A path is followed name by name; a link on the way is replaced by the
names of its target, at most forty times for one path.
-/

namespace LineShell

/-- A path taken apart: where it starts, the names on the way and whether a slash ends it,
which asks for a directory. -/
structure Path where
  absolute : Bool
  names : List String
  slashed : Bool
  deriving DecidableEq, Repr

namespace Path

def slash : Char := '/'

def parts (cs : List Char) : List String :=
  ((cs.splitOn slash).filter (· ≠ [])).map String.ofList

def endsInSlash (s : String) : Bool :=
  s.toList.getLast? == some slash

def ofText (s : String) : Path where
  absolute := s.toList.head? == some slash
  names := parts s.toList
  slashed := endsInSlash s

/-- The names to be followed. For a slash at the end an empty name stands last, which leads
from a directory to itself. -/
def steps (p : Path) : List String :=
  p.names ++ if p.slashed then [""] else []

/-- The directory that a path starts from. -/
def base (p : Path) (dir : NodeId) : NodeId :=
  if p.absolute then Tree.root else dir

/-- A name in a directory, with one slash between them unless one is there already. Without a
directory it stands for itself. -/
def join (dir name : String) : String :=
  if dir = "" ∨ endsInSlash dir then dir ++ name else dir ++ "/" ++ name

/-- The longest name of a directory entry, in bytes. -/
def nameLimit : Nat := 255

/-- The shortest path, in bytes, that is too long to be looked up. -/
def pathLimit : Nat := 4096

/-- The most links that are followed for one path. -/
def linkLimit : Nat := 40

end Path

/-- What a path leads to: a node, or a name that its directory does not have. -/
inductive Place
  | node (id : NodeId)
  | vacant (dir : NodeId) (name : String)
  deriving DecidableEq, Repr

namespace Tree

/-- Follows names from a directory on. A link stands for the names of its target, with which
`jump` goes on. With `making` a file is to be made at the end, which no name with a slash
after it can be. Nothing is found in a directory that has been removed. -/
def walkNames (t : Tree) (making : Bool) (jump : NodeId → List String → Except Fault Place)
    (dir : NodeId) : List String → Except Fault Place
  | [] => .ok (.node dir)
  | name :: rest =>
      match t.node? dir with
      | some (.directory entries parent) =>
          if name = "" ∨ name = "." then t.walkNames making jump dir rest
          else if name = ".." then t.walkNames making jump parent rest
          else if making ∧ rest = [""] then .error .isDirectory
          else if !t.attached dir then .error .notFound
          else if Path.nameLimit < name.utf8ByteSize then .error .nameTooLong
          else
            match entries.lookup name with
            | none => if rest = [] then .ok (.vacant dir name) else .error .notFound
            | some id =>
                match t.node? id with
                | some (.link target) =>
                    let path := Path.ofText target
                    jump (path.base dir) (path.steps ++ rest)
                | _ => t.walkNames making jump id rest
      | _ => .error .notDirectory

/-- Follows names and at most so many links on the way. -/
def walk (t : Tree) (making : Bool) : Nat → NodeId → List String → Except Fault Place
  | 0 => t.walkNames making fun _ _ => .error .tooManyLinks
  | links + 1 => t.walkNames making (t.walk making links)

end Tree

/-- The files there are and the directory that relative paths start from. They are seen with the
rights of the superuser: no permission keeps a file from being read, written, made or listed, and
of the mode only the execute bits of a program count. -/
structure World where
  tree : Tree
  cwd : NodeId
  deriving DecidableEq, Repr

namespace World

/-- A path taken apart, unless it is empty, too long or has a NUL character in it. -/
def pathOf (path : String) : Except Fault Path :=
  if path.toList.contains '\x00' then .error .nulInName
  else if path = "" then .error .notFound
  else if Path.pathLimit ≤ path.utf8ByteSize then .error .nameTooLong
  else .ok (Path.ofText path)

/-- Where a path leads from the working directory, to look at what is there or to make a
file. -/
def resolve (w : World) (making : Bool) (path : String) : Except Fault Place :=
  match pathOf path with
  | .error fault => .error fault
  | .ok p => w.tree.walk making Path.linkLimit (p.base w.cwd) p.steps

/-- The node that a path leads to. -/
def locate (w : World) (path : String) : Except Fault NodeId :=
  match w.resolve false path with
  | .ok (.node id) => .ok id
  | .ok (.vacant _ _) => .error .notFound
  | .error fault => .error fault

end World

end LineShell
