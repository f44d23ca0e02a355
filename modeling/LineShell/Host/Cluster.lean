import LineShell.Host.ClusterClass

/-!
The clusters of a text: runs of characters that a reader takes for one, such as a letter with
its accents. A text is the row of its clusters, with nothing lost or added.
-/

namespace LineShell.Text

/-- What the rules look back at when they decide whether a character goes with those in
front of it. -/
structure Preceding where
  last : ClusterClass
  /-- An odd number of regional indicators stands last. -/
  regionalOdd : Bool
  /-- A pictograph stands last, or nothing after it but extending marks. -/
  pictured : Bool
  /-- A joiner stands last, right after a pictograph with its marks. -/
  joined : Bool
  /-- A consonant stands last, or nothing after it but what may link it to another. -/
  consonant : Bool
  /-- A linker is among what stands after that consonant. -/
  linked : Bool
  deriving DecidableEq, Repr

namespace Preceding

/-- Before the first character of a text. -/
def nothing : Preceding := ⟨.control, false, false, false, false, false⟩

def step (p : Preceding) (c : Char) : Preceding :=
  let k := ClusterClass.ofChar c
  { last := k
    regionalOdd := k == .regional && !p.regionalOdd
    pictured := k == .pictograph || (k == .extend && p.pictured)
    joined := k == .joiner && p.pictured
    consonant := k == .consonant || (p.consonant && ClusterClass.isLinking c)
    linked := p.consonant && (ClusterClass.isLinker c || (p.linked && ClusterClass.isLinking c)) }

/-- A character of this class goes with what is in front of it. -/
def holds (p : Preceding) (k : ClusterClass) : Bool :=
  match p.last, k with
  | .carriageReturn, .lineFeed => true
  | .carriageReturn, _ | .lineFeed, _ | .control, _ => false
  | _, .carriageReturn | _, .lineFeed | _, .control => false
  | .initial, .initial | .initial, .medial => true
  | .initial, .openSyllable | .initial, .closedSyllable => true
  | .openSyllable, .medial | .openSyllable, .final | .medial, .medial | .medial, .final => true
  | .closedSyllable, .final | .final, .final => true
  | _, .extend | _, .joiner | _, .spacing => true
  | .leading, _ => true
  | _, .consonant => p.linked
  | _, .pictograph => p.joined
  | _, .regional => p.regionalOdd
  | _, _ => false

end Preceding

/-- Clusters, the first of which goes on from `open`. -/
def clustersFrom (p : Preceding) (opened : List Char) : List Char → List (List Char)
  | [] => [opened]
  | c :: cs =>
      if p.holds (ClusterClass.ofChar c) then clustersFrom (p.step c) (opened ++ [c]) cs
      else opened :: clustersFrom (p.step c) [c] cs

/-- The clusters of a text, in order. -/
def clusters : List Char → List (List Char)
  | [] => []
  | c :: cs => clustersFrom (Preceding.nothing.step c) [c] cs

example : clusters "e\u0301a".toList = ["e\u0301".toList, ['a']] := by decide +kernel
example : (clusters "🇦🇧🇨🇩".toList).length = 2 := by decide +kernel
example : (clusters "क्ष".toList).length = 1 := by decide +kernel
example : (clusters "👨\u200d👩".toList).length = 1 := by decide +kernel

end LineShell.Text
