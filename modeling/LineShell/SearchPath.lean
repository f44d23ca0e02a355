import LineShell.Builtin.Name
import LineShell.Files.Access
import LineShell.Text.Shared

/-!
The directories in which a command name is looked for, and the names found there.
-/

namespace LineShell

/-- Directories in the order in which they are searched. None of them is without a path. -/
structure SearchPath where
  dirs : List String
  named : "" ∉ dirs
  deriving DecidableEq, Repr

namespace SearchPath

def empty : SearchPath := ⟨[], List.not_mem_nil⟩

/-- The fields between colons, empty ones left out. -/
def ofText (s : String) : SearchPath where
  dirs := ((s.toList.splitOn ':').filter (· ≠ [])).map String.ofList
  named := by simp

/-- The program that a name stands for: the name itself if it has a slash, else the first
directory's entry of that name that may be executed. -/
def find (p : SearchPath) (w : World) (name : String) : Option String :=
  if name = "" then none
  else if name.toList.contains Path.slash then
    if w.isExecutable name then some name else none
  else (p.dirs.map (Path.join · name)).find? w.isExecutable

/-- The names in one directory that begin with `start` and may be executed. -/
def namesIn (w : World) (start dir : String) : List String :=
  (w.namesIn dir).filter fun name =>
    Text.begins start name && w.isExecutable (Path.join dir name)

end SearchPath

/-- Puts a name at its place in an ascending list, once. -/
def insertName (name : String) : List String → List String
  | [] => [name]
  | n :: ns =>
      if name < n then name :: n :: ns
      else if n < name then n :: insertName name ns
      else n :: ns

/-- The names in ascending order, each once. -/
def sortNames (names : List String) : List String :=
  names.foldr insertName []

/-- The programs that begin with `start`, in ascending order. -/
def SearchPath.programs (p : SearchPath) (w : World) (start : String) : List String :=
  sortNames (p.dirs.flatMap (namesIn w start))

theorem mem_insertName {name x : String} {names : List String} :
    x ∈ insertName name names ↔ x = name ∨ x ∈ names := by
  induction names with
  | nil => simp [insertName]
  | cons n ns ih =>
      unfold insertName
      split
      · simp
      · split
        · simp only [List.mem_cons, ih]
          constructor
          · rintro (h | h | h) <;> simp [h]
          · rintro (h | h | h) <;> simp [h]
        · rename_i h1 h2
          have he : name = n :=
            String.le_antisymm (String.not_lt.mp h2) (String.not_lt.mp h1)
          simp [he]

theorem mem_sortNames {x : String} {names : List String} :
    x ∈ sortNames names ↔ x ∈ names := by
  induction names with
  | nil => rfl
  | cons n ns ih =>
      rw [sortNames, List.foldr_cons, ← sortNames, mem_insertName, ih, List.mem_cons]

end LineShell
