import LineShell.SearchPath
import LineShell.Text.Bytes

/-!
Patterns for texts and for the names of files: a question mark stands for any byte, an
asterisk for any row of bytes and brackets for one of the bytes in them.
-/

namespace LineShell.Script

/-- A byte, and whether it stands for itself whatever byte it is. -/
abbrev Mark := UInt8 × Bool

namespace Mark

/-- Bytes that all stand for themselves. -/
def firm (b : Bytes) : List Mark :=
  b.map (·, true)

def bytes (marks : List Mark) : Bytes :=
  marks.map (·.1)

def asterisk : UInt8 := 42

def question : UInt8 := 63

def opening : UInt8 := 91

def closing : UInt8 := 93

def exclamation : UInt8 := 33

def dash : UInt8 := 45

def dot : UInt8 := 46

/-- Something among the marks may stand for other bytes than itself. -/
def wild (marks : List Mark) : Bool :=
  [asterisk, question, opening].any fun n => marks.contains (n, false)

end Mark

inductive PatternPart
  | exactly (n : UInt8)
  | one
  | many
  /-- One of the bytes in some ranges, or one that is in none of them. -/
  | among (negated : Bool) (ranges : List (UInt8 × UInt8))
  deriving DecidableEq, Repr

abbrev Pattern := List PatternPart

namespace Pattern

/-- The ranges up to the closing bracket, which the first byte is not, and what follows. -/
def ranges? (first : Bool) : List Mark → Option (List (UInt8 × UInt8) × List Mark)
  | [] => none
  | (n, firm) :: rest =>
      if n = Mark.closing ∧ !firm ∧ !first then some ([], rest)
      else
        match rest with
        | (d, false) :: (m, firm') :: rest' =>
            if d = Mark.dash ∧ (m ≠ Mark.closing ∨ firm') then
              (ranges? false rest').map fun (ranges, rest) => ((n, m) :: ranges, rest)
            else
              (ranges? false ((d, false) :: (m, firm') :: rest')).map fun (ranges, rest) =>
                ((n, n) :: ranges, rest)
        | rest => (ranges? false rest).map fun (ranges, rest) => ((n, n) :: ranges, rest)
termination_by marks => marks.length
decreasing_by all_goals simp_wf; try omega

/-- What stands between brackets after the opening one, and what follows them. -/
def among? (marks : List Mark) : Option (PatternPart × List Mark) :=
  let negated := marks.head? = some (Mark.exclamation, false)
  (ranges? true (if negated then marks.drop 1 else marks)).map fun (ranges, rest) =>
    (.among negated ranges, rest)

/-- The pattern that some marks spell. The fuel bounds the marks. -/
def read : Nat → List Mark → Pattern
  | 0, _ => []
  | _, [] => []
  | fuel + 1, (n, firm) :: rest =>
      if firm then .exactly n :: read fuel rest
      else if n = Mark.asterisk then .many :: read fuel rest
      else if n = Mark.question then .one :: read fuel rest
      else if n = Mark.opening then
        match among? rest with
        | some (part, rest) => part :: read fuel rest
        | none => .exactly n :: read fuel rest
      else .exactly n :: read fuel rest

def ofMarks (marks : List Mark) : Pattern :=
  read marks.length marks

end Pattern

def PatternPart.holds (n : UInt8) : PatternPart → Bool
  | .exactly m => n == m
  | .one => true
  | .many => false
  | .among negated ranges => ranges.any (fun (first, last) => first ≤ n && n ≤ last) != negated

namespace Pattern

/-- The pattern stands for these bytes. -/
def fits : Pattern → Bytes → Bool
  | [], b => b == []
  | .many :: p, b => (List.range (b.length + 1)).any fun n => fits p (b.drop n)
  | part :: p, n :: b => part.holds n && fits p b
  | _ :: _, [] => false

/-- The bytes without the part at one end that a pattern stands for: the longest such part or
the shortest one, and all of them if there is none. -/
def strip (p : Pattern) (atEnd longest : Bool) (b : Bytes) : Bytes :=
  let cuts := List.range (b.length + 1)
  let fitting := cuts.filter fun n => if atEnd then p.fits (b.drop n) else p.fits (b.take n)
  match if longest = atEnd then fitting.head? else fitting.getLast? with
  | some n => if atEnd then b.take n else b.drop n
  | none => b

/-- A pattern for names stands for one that begins with a dot only if it begins with one. -/
def fitsName (p : Pattern) (name : String) : Bool :=
  let b := Bytes.ofText name
  p.fits b && (b.head? != some Mark.dot || p.head? == some (.exactly Mark.dot))

end Pattern

end LineShell.Script

namespace LineShell.World

open Script

/-- Directory entries, those for the directory itself and the one above it included. -/
def allNamesIn (w : World) (dir : String) : List String :=
  match w.namesIn dir with
  | [] => []
  | names => "." :: ".." :: names

/-- The paths that a row of names and patterns for names leads to, from a path on. -/
def pathsFrom (w : World) (path : String) : List (List Mark) → List String
  | [] => [path]
  | part :: rest =>
      let next (name : String) : List String :=
        if rest = [] then [path ++ name] else w.pathsFrom (path ++ name ++ "/") rest
      if Mark.wild part then
        ((w.allNamesIn (if path = "" then "." else path)).filter
          (Pattern.ofMarks part).fitsName).flatMap next
      else
        let name := (Mark.bytes part).textOrEmpty
        if rest = [] ∧ !(w.locate (path ++ name)).isOk then [] else next name

/-- The paths that a pattern stands for, in ascending order. -/
def paths (w : World) (marks : List Mark) : List String :=
  let parted := marks.map fun (n, firm) => (n, firm || n == Bytes.slash)
  sortNames (w.pathsFrom "" (parted.splitOn (Bytes.slash, true)))

end LineShell.World

namespace LineShell.Script

/-- A pattern in which no byte stands only for itself. -/
def Pattern.ofText (s : String) : Pattern :=
  ofMarks ((Bytes.ofText s).map (·, false))

example : (Pattern.ofText "a*[!x-z]?").fits (Bytes.ofText "abcd") = true := by decide +kernel
example : (Pattern.ofText "[]a]*").fits (Bytes.ofText "]") = true := by decide +kernel
example : (Pattern.ofText "*.").strip false true (Bytes.ofText "a.b.c") = Bytes.ofText "c" := by
  decide +kernel
example : (Pattern.ofText ".*").strip true false (Bytes.ofText "a.b.c") = Bytes.ofText "a.b" := by
  decide +kernel

end LineShell.Script
