import LineShell.Text.Bytes
import LineShell.Text.Numeral

/-!
What the printing commands write: `echo`, which joins its arguments, and `printf`, which
fills them into a format.
-/

namespace LineShell.Print

/-- The character that a letter stands for after a backslash. -/
def escape? : Char → Option Char
  | 'a' => some '\x07'
  | 'b' => some '\x08'
  | 'f' => some '\x0c'
  | 'n' => some '\n'
  | 'r' => some '\r'
  | 't' => some '\t'
  | 'v' => some '\x0b'
  | '\\' => some '\\'
  | _ => none

/-- The octal digits in front, three at the most. -/
def octalDigits (cs : List Char) : List Char :=
  (cs.take 3).takeWhile fun c => '0' ≤ c ∧ c ≤ '7'

def octalValue (digits : List Char) : Char :=
  Char.ofNat (digits.foldl (fun n c => 8 * n + (c.toNat - '0'.toNat)) 0 % 256)

/-- A text with its escapes carried out, and whether an escape ended it early. -/
def unescape : List Char → List Char × Bool
  | '\\' :: 'c' :: _ => ([], true)
  | '\\' :: '0' :: r =>
      let digits := octalDigits r
      let (out, ended) := unescape (r.drop digits.length)
      (octalValue digits :: out, ended)
  | '\\' :: d :: r =>
      let (out, ended) := unescape r
      match escape? d with
      | some c => (c :: out, ended)
      | none => ('\\' :: d :: out, ended)
  | c :: r =>
      let (out, ended) := unescape r
      (c :: out, ended)
  | [] => ([], false)
termination_by cs => cs.length
decreasing_by all_goals simp_wf; try omega

/-- The arguments joined by spaces and ended by a newline, unless the first argument or an
escape leaves it out. -/
def echo (arguments : List Bytes) : Bytes :=
  let quiet := arguments.head? = some (Bytes.ofText "-n")
  let shown := if quiet then arguments.drop 1 else arguments
  let (out, ended) := unescape (Bytes.chars (List.intercalate [32] shown))
  Bytes.ofChars out ++ if quiet ∨ ended then [] else [Bytes.newline]

/-- How an argument is filled into a format. -/
structure Directive where
  flags : List Char
  width : Nat
  precision : Option Nat
  kind : Char
  deriving DecidableEq, Repr

namespace Directive

/-- The directive that stands after a percent sign, and what follows it. -/
def read? (cs : List Char) : Option (Directive × List Char) :=
  let flags := cs.takeWhile ['-', '+', ' ', '#', '0'].contains
  let cs := cs.drop flags.length
  let width := cs.takeWhile Text.isDigit
  match cs.drop width.length with
  | '.' :: cs =>
      let digits := cs.takeWhile Text.isDigit
      match cs.drop digits.length with
      | kind :: r => some (⟨flags, Text.decimalValue width, some (Text.decimalValue digits), kind⟩, r)
      | [] => none
  | kind :: r => some (⟨flags, Text.decimalValue width, none, kind⟩, r)
  | [] => none

/-- The number that an argument stands for: the code of a character after a quote, and zero
for what is no number. -/
def numberOf (cs : List Char) : Int :=
  match cs with
  | '\'' :: c :: _ | '"' :: c :: _ => c.toNat
  | cs => (Text.integer? cs).getD 0

/-- Sign and digits of a number, with as many zeros between them as the directive asks for. -/
def numeral (d : Directive) (n : Int) : List Char :=
  let (base, first) : Nat × List Char :=
    match d.kind with
    | 'o' => (8, ['0'])
    | 'x' => (16, ['0', 'x'])
    | 'X' => (16, ['0', 'X'])
    | _ => (10, [])
  let signed := d.kind = 'd' ∨ d.kind = 'i'
  let value := if signed ∨ 0 ≤ n then n.natAbs else (n + Text.wordBound).toNat
  let digits := Nat.toDigits base value
  let digits := if d.kind = 'X' then digits.map Char.toUpper else digits
  let sign : List Char :=
    if !signed then if d.flags.contains '#' ∧ n ≠ 0 then first else []
    else if n < 0 then ['-']
    else if d.flags.contains '+' then ['+']
    else if d.flags.contains ' ' then [' '] else []
  let least :=
    match d.precision with
    | some p => p
    | none =>
        if d.flags.contains '0' ∧ !d.flags.contains '-' then d.width - sign.length else 0
  sign ++ List.replicate (least - digits.length) '0' ++ digits

/-- Spaces fill up the width, on the left unless the directive asks for the right. -/
def padded (d : Directive) (cs : List Char) : List Char :=
  let spaces := List.replicate (d.width - cs.length) ' '
  if d.flags.contains '-' then cs ++ spaces else spaces ++ cs

/-- What an argument becomes, and whether it ends the output. There is no directive of most
kinds. -/
def fill? (d : Directive) (argument : List Char) : Option (List Char × Bool) :=
  let cut (cs : List Char) : List Char := (d.precision.map cs.take).getD cs
  if d.kind = 's' then some (d.padded (cut argument), false)
  else if d.kind = 'b' then
    let (out, ended) := unescape argument
    some (d.padded (cut out), ended)
  else if d.kind = 'c' then some (d.padded (argument.take 1), false)
  else if ['d', 'i', 'u', 'o', 'x', 'X'].contains d.kind then
    some (d.padded (d.numeral (numberOf argument)), false)
  else none

end Directive

/-- A format filled in once, the arguments left over, and whether the output ends here. A
directive without an argument is filled with nothing. The fuel bounds the format. -/
def fillOnce : Nat → List Char → List Bytes → List Char × List Bytes × Bool
  | 0, _, arguments => ([], arguments, false)
  | _, [], arguments => ([], arguments, false)
  | fuel + 1, c :: r, arguments =>
      let put (cs r : List Char) (arguments : List Bytes) : List Char × List Bytes × Bool :=
        let (out, left) := fillOnce fuel r arguments
        (cs ++ out, left)
      match c, r with
      | '%', '%' :: r => put ['%'] r arguments
      | '%', r =>
          match Directive.read? r with
          | none => put ['%'] r arguments
          | some (d, r) =>
              match d.fill? (Bytes.chars (arguments.headD [])) with
              | none => ([], arguments, true)
              | some (out, true) => (out, arguments.drop 1, true)
              | some (out, false) => put out r (arguments.drop 1)
      | '\\', d :: r =>
          let digits := octalDigits (d :: r)
          if digits ≠ [] then put [octalValue digits] (r.drop (digits.length - 1)) arguments
          else put (((escape? d).map ([·])).getD ['\\', d]) r arguments
      | c, r => put [c] r arguments

/-- The format filled in until no argument is left; the number of arguments bounds the
rounds. -/
def fill (format : List Char) : Nat → List Bytes → List Char
  | 0, _ => []
  | rounds + 1, arguments =>
      let (out, left, ended) := fillOnce format.length format arguments
      if ended ∨ left = [] ∨ left.length = arguments.length then out
      else out ++ fill format rounds left

def printf : List Bytes → Bytes
  | [] => []
  | format :: arguments => Bytes.ofChars (fill format.chars (arguments.length + 1) arguments)

example : printf ([ "[%s]\\n", "a", "b" ].map Bytes.ofText) = Bytes.ofText "[a]\n[b]\n" := by
  decide +kernel
example : printf ([ "%5.2s|%-4d|%03x|%c\\n", "abc", "-7", "171", "xy" ].map Bytes.ofText) =
    Bytes.ofText "   ab|-7  |0ab|x\n" := by
  decide +kernel
example : echo ([ "a\\tb", "c" ].map Bytes.ofText) = Bytes.ofText "a\tb c\n" := by decide +kernel

end LineShell.Print
