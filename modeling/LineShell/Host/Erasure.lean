import LineShell.Host.Cluster

/-!
Backspaces in an entered line. A backspace takes back the cluster entered before it, and
itself leaves nothing.
-/

namespace LineShell.Line

def backspace : Char := '\x08'

/-- What has been entered and not taken back. -/
structure Entry where
  /-- The characters, the last one first. -/
  chars : List Char := []
  /-- The sizes of the clusters in bytes, the last one first. -/
  sizes : List Nat := []
  deriving DecidableEq, Repr

/-- The size of a text in bytes. -/
def byteSize (cs : List Char) : Nat :=
  cs.foldr (fun c n => c.utf8Size + n) 0

/-- Drops characters of so many bytes. -/
def dropBytes : Nat → List Char → List Char
  | 0, cs => cs
  | _, [] => []
  | n + 1, c :: cs => dropBytes (n + 1 - c.utf8Size) cs

/-- The least size of a cluster that is not known in full: sizes are kept in a byte. -/
def sizeBound : Nat := 256

/-- Enters a cluster. Where nothing is left a backspace does nothing. -/
def Entry.enter (e : Entry) (cluster : List Char) : Entry :=
  if cluster = [backspace] then
    match e.sizes with
    | [] => e
    | size :: sizes => ⟨dropBytes size e.chars, sizes⟩
  else ⟨cluster.reverse ++ e.chars, byteSize cluster % sizeBound :: e.sizes⟩

/-- A line with its backspaces carried out. -/
def erased (line : String) : String :=
  if line.toList.contains backspace then
    String.ofList ((Text.clusters line.toList).foldl Entry.enter {}).chars.reverse
  else line

example : erased "ab\x08\x08\x08c" = "c" := by decide +kernel
example : erased "xe\u0301\x08y" = "xy" := by decide +kernel

end LineShell.Line
