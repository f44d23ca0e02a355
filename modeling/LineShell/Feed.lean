import LineShell.Text.Bytes

/-!
What a reader finds on a stream.
-/

namespace LineShell

/-- Some bytes, and after them others over and over; with none of these the stream ends. -/
structure Feed where
  head : Bytes := []
  cycle : Bytes := []
  /-- How many bytes of the file come before, if the stream is a file. -/
  before : Option Nat := none
  deriving DecidableEq, Repr

namespace Feed

def ofText (s : String) : Feed :=
  { head := Bytes.ofText s }

/-- A file, read from its start. -/
def ofFile (b : Bytes) : Feed :=
  { head := b, before := some 0 }

/-- What is left after so many bytes. -/
def drop (n : Nat) (f : Feed) : Feed :=
  { f with head := f.head.drop n, before := f.before.map (· + min n f.head.length) }

/-- What is left when only so many bytes are. -/
def ending (n : Nat) (f : Feed) : Feed :=
  f.drop (f.head.length - n)

end Feed

end LineShell
