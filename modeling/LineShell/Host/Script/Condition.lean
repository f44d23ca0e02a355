import LineShell.Files.Access
import LineShell.Text.Numeral

/-!
Conditions on texts, numbers and files, as a script tests them.
-/

namespace LineShell.Script

namespace Condition

/-- The node that a path leads to. -/
def node? (w : World) (path : String) : Option Node :=
  match w.locate path with
  | .ok id => w.tree.node? id
  | .error _ => none

/-- The path leads to a link, if the last name on it is not followed. -/
def isLink (w : World) (path : String) : Bool :=
  let name := (path.toList.reverse.takeWhile (· ≠ Path.slash)).reverse
  let dir := path.toList.take (path.length - name.length)
  match w.locate (if dir = [] then "." else String.ofList dir) with
  | .error _ => false
  | .ok id =>
      match ((w.tree.entries id).lookup (String.ofList name)).bind w.tree.node? with
      | some (.link _) => true
      | _ => false

/-- What an operator asks of one operand; none for a word that is no such operator. -/
def single? (w : World) (operator : String) : Option (String → Bool) :=
  let file (test : Node → Bool) : Option (String → Bool) := some fun path => (node? w path).any test
  match operator with
  | "-n" => some (· ≠ "")
  | "-z" => some (· = "")
  | "-e" | "-r" | "-w" => file fun _ => true
  | "-f" => file fun | .file _ _ => true | _ => false
  | "-d" => file fun | .directory _ _ => true | _ => false
  | "-c" => file fun | .null => true | _ => false
  | "-s" => file fun | .file content _ => content ≠ [] | .directory _ _ => true | _ => false
  | "-x" => file fun | .file _ mode => executableMode mode | .directory _ _ => true | _ => false
  | "-h" | "-L" => some (isLink w)
  | "-b" | "-p" | "-S" | "-g" | "-u" | "-k" | "-t" => some fun _ => false
  | _ => none

/-- What an operator asks of two numbers. -/
def numeric? (operator : String) : Option (Int → Int → Bool) :=
  match operator with
  | "-eq" => some (· == ·)
  | "-ne" => some (· != ·)
  | "-gt" => some (· > ·)
  | "-ge" => some (· ≥ ·)
  | "-lt" => some (· < ·)
  | "-le" => some (· ≤ ·)
  | _ => none

def number (s : String) : Except String Int :=
  match Text.integer? (s.toList.dropWhile (· = ' ')) with
  | some n => .ok n
  | none => .error ("Illegal number: " ++ s)

/-- What an operator asks of two operands; none for a word that is no such operator. -/
def double? (w : World) (operator : String) : Option (String → String → Except String Bool) :=
  match numeric? operator with
  | some compare => some fun a b => do .ok (compare (← number a) (← number b))
  | none =>
      match operator with
      | "=" => some fun a b => .ok (a = b)
      | "!=" => some fun a b => .ok (a ≠ b)
      | "<" => some fun a b => .ok (a < b)
      | ">" => some fun a b => .ok (b < a)
      | "-ef" => some fun a b =>
          .ok ((w.locate a).isOk && (w.locate a).toOption == (w.locate b).toOption)
      | _ => none

mutual

/-- Whether one of several conditions holds, and the words after them. The fuel bounds the
words. -/
def readAny (w : World) : Nat → List String → Except String (Bool × List String)
  | 0, words => .ok (false, words)
  | fuel + 1, words => do
      let (first, rest) ← readAll w fuel words
      match rest with
      | "-o" :: rest =>
          let (second, rest) ← readAny w fuel rest
          .ok (first || second, rest)
      | rest => .ok (first, rest)

/-- Whether all of several conditions hold, and the words after them. -/
def readAll (w : World) : Nat → List String → Except String (Bool × List String)
  | 0, words => .ok (false, words)
  | fuel + 1, words => do
      let (first, rest) ← readOne w fuel words
      match rest with
      | "-a" :: rest =>
          let (second, rest) ← readAll w fuel rest
          .ok (first && second, rest)
      | rest => .ok (first, rest)

def readOne (w : World) : Nat → List String → Except String (Bool × List String)
  | 0, words => .ok (false, words)
  | fuel + 1, words =>
      match words with
      | [] => .error "argument expected"
      | [a] => .ok (a ≠ "", [])
      | a :: b :: rest =>
          match rest, double? w b with
          | c :: rest, some compare => do .ok (← compare a c, rest)
          | _, _ =>
              if a = "!" then do
                let (holds, rest) ← readOne w fuel (b :: rest)
                .ok (!holds, rest)
              else if a = "(" then do
                match ← readAny w fuel (b :: rest) with
                | (holds, ")" :: rest) => .ok (holds, rest)
                | _ => .error "closing paren expected"
              else
                match single? w a with
                | some test => .ok (test b, rest)
                | none => .ok (a ≠ "", b :: rest)

end

/-- Whether some words hold as a condition. -/
def holds (w : World) (words : List String) : Except String Bool :=
  if words = [] then .ok false
  else
    match readAny w (3 * words.length + 3) words with
    | .error message => .error message
    | .ok (b, []) => .ok b
    | .ok (_, rest) =>
        .error (words[words.length - rest.length - 1]?.getD "" ++ ": unexpected operator")

example : (holds ⟨Tree.empty, Tree.root⟩ ["!", "-d", ".", "-o", "a", "!=", "b"]).toOption =
    some true := by
  decide +kernel
example : (holds ⟨Tree.empty, Tree.root⟩ ["x", "-lt", "1"]).toOption = none := by decide +kernel

end Condition

end LineShell.Script
