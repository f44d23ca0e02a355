import LineShell.Text.Bytes

/-!
The ways in which bytes can be shown when they are copied: with their lines numbered, with
blank lines merged, with line ends, tabs and other hidden bytes made visible.
-/

namespace LineShell.Utility

structure Manner where
  /-- All lines are numbered. -/
  numbered : Bool := false
  /-- Only lines that are not blank are numbered. -/
  numberedFilled : Bool := false
  /-- Blank lines that follow one another become one. -/
  merged : Bool := false
  ends : Bool := false
  tabs : Bool := false
  hidden : Bool := false
  deriving DecidableEq, Repr

namespace Manner

/-- Takes up the option of a letter, if there is one. -/
def withLetter? (m : Manner) : Char → Option Manner
  | 'A' => some { m with hidden := true, ends := true, tabs := true }
  | 'b' => some { m with numberedFilled := true }
  | 'e' => some { m with hidden := true, ends := true }
  | 'E' => some { m with ends := true }
  | 'n' => some { m with numbered := true }
  | 's' => some { m with merged := true }
  | 't' => some { m with hidden := true, tabs := true }
  | 'T' => some { m with tabs := true }
  | 'u' => some m
  | 'v' => some { m with hidden := true }
  | _ => none

/-- The options that have a name, with their letters. -/
def named : List (String × Char) :=
  [("number-nonblank", 'b'), ("number", 'n'), ("squeeze-blank", 's'), ("show-nonprinting", 'v'),
    ("show-ends", 'E'), ("show-tabs", 'T'), ("show-all", 'A')]

/-- The letter of the option that a name is, or that it alone begins. -/
def letterOf? (name : List Char) : Option Char :=
  match named.lookup (String.ofList name) with
  | some c => some c
  | none =>
      match named.filter fun (full, _) => name.isPrefixOf full.toList with
      | [(_, c)] => some c
      | _ => none

/-- The manner that the options among some words ask for, and the other words. After two
dashes there are no options. -/
def ofWords (m : Manner) : List String → Except String (Manner × List String)
  | [] => .ok (m, [])
  | w :: ws =>
      match w.toList with
      | ['-', '-'] => .ok (m, ws)
      | '-' :: '-' :: name =>
          match (letterOf? name).bind m.withLetter? with
          | some m => ofWords m ws
          | none => .error ("unrecognized option '" ++ w ++ "'")
      | '-' :: c :: cs =>
          match (c :: cs).foldlM withLetter? m, (c :: cs).find? (m.withLetter? · = none) with
          | some m, _ => ofWords m ws
          | none, unknown =>
              .error ("invalid option -- '" ++ String.ofList unknown.toList ++ "'")
      | _ =>
          match ofWords m ws with
          | .ok (m, rest) => .ok (m, w :: rest)
          | .error message => .error message

/-- Where the showing has come to. -/
structure Progress where
  /-- How many lines have a number. -/
  lines : Nat := 0
  /-- How many newlines stand last, two standing for more; the start counts as one. -/
  breaks : Nat := 1
  /-- A carriage return has been kept back until it is known what follows. -/
  held : Bool := false
  deriving DecidableEq, Repr

/-- A byte below 128 made visible. -/
def visible (n : UInt8) : Bytes :=
  if n < 32 then [94, n + 64] else if n = 127 then [94, 63] else [n]

def shown (m : Manner) (n : UInt8) : Bytes :=
  if n = 9 then if m.tabs then visible n else [n]
  else if !m.hidden then [n]
  else if n < 128 then visible n
  else [77, 45] ++ visible (n - 128)

/-- A line's number, six places wide, and a tab. -/
def numeral (n : Nat) : Bytes :=
  let digits := toString n
  Bytes.ofText (String.ofList (List.replicate (6 - digits.length) ' ') ++ digits ++ "\t")

/-- What is shown of the next byte. -/
def step (m : Manner) (p : Progress) (n : UInt8) : Bytes × Progress :=
  let atStart := 0 < p.breaks
  if n = Bytes.newline then
    if m.merged ∧ 2 ≤ p.breaks then ([], p)
    else
      let lines := if atStart ∧ m.numbered ∧ !m.numberedFilled then p.lines + 1 else p.lines
      ((if lines = p.lines then [] else numeral lines) ++
          (if m.ends then (if p.held then visible 13 else []) ++ [36] else []) ++ [n],
        ⟨lines, min 2 (p.breaks + 1), false⟩)
  else
    let lines := if atStart ∧ (m.numbered ∨ m.numberedFilled) then p.lines + 1 else p.lines
    let held := n = 13 ∧ m.ends ∧ !m.hidden
    ((if p.held then [13] else []) ++ (if lines = p.lines then [] else numeral lines) ++
        (if held then [] else m.shown n),
      ⟨lines, 0, held⟩)

/-- What is shown of some bytes. Nothing is done to them in the plain manner. -/
def display (m : Manner) (p : Progress) (b : Bytes) : Bytes × Progress :=
  if m = {} then (b, p)
  else
    let (shown, p) := b.foldl
      (fun (shown, p) n => let (b, p) := m.step p n; (b.reverse ++ shown, p)) ([], p)
    (shown.reverse, p)

/-- What is shown at the end: a carriage return that was kept back. -/
def remnant (p : Progress) : Bytes :=
  if p.held then [13] else []

/-- The same bytes shown over and over, so many times. -/
def displayTimes (m : Manner) (b : Bytes) : Nat → Progress → Bytes × Progress
  | 0, p => ([], p)
  | n + 1, p =>
      let (first, p) := m.display p b
      let (rest, p) := displayTimes m b n p
      (first ++ rest, p)

example : (ofWords {} ["-sE", "a", "--num", "--", "-n"]).toOption = none := by decide +kernel
example :
    (ofWords {} ["-sE", "a", "--number", "--", "-n"]).toOption =
      some ({ merged := true, ends := true, numbered := true }, ["a", "-n"]) := by
  decide +kernel
example :
    (display { merged := true, ends := true, numberedFilled := true } {}
      (Bytes.ofText "a\r\n\n\nb")).1 = Bytes.ofText "     1\ta^M$\n$\n     2\tb" := by
  decide +kernel
example : (display { hidden := true, tabs := true } {} [9, 1, 200, 255, 10]).1 =
    Bytes.ofText "^I^AM-HM-^?\n" := by
  decide +kernel

end Manner

end LineShell.Utility
