import LineShell.Stream

/-!
What the programs of the host do with streams: endless input and output among it.
-/

namespace LineShell

namespace Feed

/-- Everything up to the end, or to the first repetition. -/
def once (f : Feed) : Bytes :=
  f.head ++ f.cycle

/-- Every byte replaced. -/
def map (g : UInt8 → UInt8) (f : Feed) : Feed :=
  ⟨f.head.map g, f.cycle.map g, none⟩

/-- The same bytes, parted behind a newline. -/
def partedByLine (f : Feed) : Feed :=
  let after := (f.cycle.reverse.takeWhile (· ≠ Bytes.newline)).reverse
  if after.length = f.cycle.length then f
  else
    let upTo := f.cycle.take (f.cycle.length - after.length)
    { f with head := f.head ++ upTo, cycle := after ++ upTo }

example : partedByLine ⟨[1], [2, 10, 3], none⟩ = ⟨[1, 2, 10], [3, 2, 10], none⟩ := by decide

end Feed

namespace Sink

/-- Writes the same bytes over and over, until nobody reads any more. -/
def flood (s : Sink) (b : Bytes) : Sink :=
  match s with
  | .keep kept => if s.flooded then s else .keep { kept with cycle := b }
  | _ => s

/-- A program that writes this to the sink is stopped. -/
def stops (s : Sink) (b : Bytes) : Bool :=
  (s == .broken || s.flooded) && b != []

/-- The bytes kept by a sink that keeps them. -/
def kept? : Sink → Option Bytes
  | .keep kept => some kept.head
  | _ => none

end Sink

end LineShell
