import LineShell.Line.Word
import LineShell.Text.Bytes

/-!
The words and signs of a script. A word is a row of pieces, some of which are filled in
when the script runs.
-/

namespace LineShell.Script

inductive Parameter
  | named (name : String)
  /-- The argument of this number; zero is the script's own name. -/
  | position (n : Nat)
  | count
  | status
  /-- The number of the interpreter among all that run. -/
  | self
  /-- All arguments, each a field of its own. -/
  | each
  /-- All arguments joined by spaces. -/
  | joined
  deriving DecidableEq, Repr

/-- What becomes of a parameter with a further word. -/
inductive Choice
  /-- The word, if the parameter is missing. -/
  | otherwise
  /-- The same, and the parameter is set to it. -/
  | assign
  /-- A complaint, if the parameter is missing. -/
  | refuse
  /-- The word, unless the parameter is missing. -/
  | instead
  /-- The parameter without what the word stands for at one end. -/
  | without (atEnd longest : Bool)
  deriving DecidableEq, Repr

/-- How a text holds together. -/
inductive Hold
  /-- It was quoted and stands for itself. -/
  | firm
  /-- It may be a pattern. -/
  | plain
  /-- It may be a pattern and is split at white space. -/
  | loose
  deriving DecidableEq, Repr

/-- A piece of a word. What is filled in unquoted is split at white space. -/
inductive Piece
  | text (b : Bytes) (hold : Hold)
  | parameter (p : Parameter) (quoted : Bool)
  | length (p : Parameter) (quoted : Bool)
  /-- A missing parameter may also be one that is empty. -/
  | chosen (p : Parameter) (choice : Choice) (emptyToo : Bool) (word : List Char) (quoted : Bool)
  /-- The output of a script. -/
  | output (script : List Char) (quoted : Bool)
  /-- The value of a text as a term. -/
  | value (term : List Char) (quoted : Bool)
  /-- What no parameter can be filled into. -/
  | faulty
  deriving DecidableEq, Repr

abbrev Word := List Piece

inductive Direction
  | read
  | write
  | append
  | copy
  /-- The text that is read is the target itself. -/
  | here
  deriving DecidableEq, Repr

inductive Token
  | word (w : Word)
  | newline
  | separator
  | beside
  | both
  | either
  | bar
  | opening
  | closing
  | caseEnd
  | redirect (stream : Nat) (direction : Direction)
  /-- Something that is not complete, and what is said of it. -/
  | unended (message : String)
  | finish
  deriving DecidableEq, Repr

def nameStart (c : Char) : Bool :=
  c.isAlpha || c == '_'

def nameRest (c : Char) : Bool :=
  c.isAlphanum || c == '_'

def backquote : Char := Char.ofNat 96

/-- The parameter whose name stands after a dollar sign, and what follows it. -/
def parameter? : List Char → Option (Parameter × List Char)
  | '@' :: r => some (.each, r)
  | '*' :: r => some (.joined, r)
  | '#' :: r => some (.count, r)
  | '?' :: r => some (.status, r)
  | '$' :: r => some (.self, r)
  | c :: r =>
      if c.isDigit then some (.position (c.toNat - '0'.toNat), r)
      else if nameStart c then
        some (.named (String.ofList (c :: r.takeWhile nameRest)), r.dropWhile nameRest)
      else none
  | [] => none

/-- The same between braces, where a number may have more digits. -/
def bracedParameter? (cs : List Char) : Option (Parameter × List Char) :=
  let digits := cs.takeWhile Char.isDigit
  match (String.ofList digits).toNat? with
  | some n => some (.position n, cs.drop digits.length)
  | none => parameter? cs

/-- What stands before the character that closes what the same number of openings have
opened, and what follows it. Quotes and backslashes hide what they hold. -/
def enclosed (opening : List Char) (closing : Char) :
    Nat → Line.Quoting → List Char → Option (List Char × List Char)
  | _, _, [] => none
  | depth, q, c :: r =>
      let on (depth : Nat) (q : Line.Quoting) : Option (List Char × List Char) :=
        (enclosed opening closing depth q r).map fun (inner, rest) => (c :: inner, rest)
      match q.turn c with
      | some next => on depth next
      | none =>
          if q ≠ .single ∧ c = '\\' then
            match r with
            | d :: r' =>
                (enclosed opening closing depth q r').map fun (inner, rest) =>
                  (c :: d :: inner, rest)
            | [] => none
          else if q = .bare ∧ c = closing then
            match depth with
            | 0 => some ([], r)
            | depth + 1 => on depth q
          else if q = .bare ∧ opening.isPrefixOf (c :: r) then on (depth + 1) q
          else on depth q

/-- What stands before the next backquote, and what follows it. -/
def backquoted? : List Char → Option (List Char × List Char)
  | [] => none
  | [c] => if c = backquote then some ([], []) else none
  | c :: d :: r =>
      if c = backquote then some ([], d :: r)
      else if c = '\\' ∧ (d = backquote ∨ d = '\\' ∨ d = '$') then
        (backquoted? r).map fun (inner, rest) => (d :: inner, rest)
      else (backquoted? (d :: r)).map fun (inner, rest) => (c :: inner, rest)

def choiceOf? : Char → Option Choice
  | '-' => some .otherwise
  | '=' => some .assign
  | '?' => some .refuse
  | '+' => some .instead
  | _ => none

/-- The choice that stands after a parameter between braces, whether an empty parameter
counts as missing, and what follows. -/
def choice? : List Char → Option (Choice × Bool × List Char)
  | ':' :: c :: r => (choiceOf? c).map (·, true, r)
  | '%' :: '%' :: r => some (.without true true, false, r)
  | '%' :: r => some (.without true false, false, r)
  | '#' :: '#' :: r => some (.without false true, false, r)
  | '#' :: r => some (.without false false, false, r)
  | c :: r => (choiceOf? c).map (·, false, r)
  | [] => none

/-- A piece between braces, and what follows it. -/
def braced (quoted : Bool) (cs : List Char) : Except String (Piece × List Char) :=
  let close := '\x7d'
  let complete (piece : List Char → Piece) (r : List Char) : Except String (Piece × List Char) :=
    match enclosed ['$', '\x7b'] close 0 .bare r with
    | some (word, rest) => .ok (piece word, rest)
    | none => .error "Missing '\x7d'"
  match cs, bracedParameter? (cs.drop 1) with
  | '#' :: _, some (p, '\x7d' :: rest) => .ok (.length p quoted, rest)
  | _, _ =>
      match bracedParameter? cs with
      | some (p, '\x7d' :: rest) => .ok (.parameter p quoted, rest)
      | some (p, r) =>
          match choice? r with
          | some (choice, emptyToo, r) => complete (.chosen p choice emptyToo · quoted) r
          | none => complete (fun _ => .faulty) r
      | none => complete (fun _ => .faulty) cs

/-- A dollar sign's piece and what follows it; the sign itself if nothing is named. -/
def dollar (quoted : Bool) : List Char → Except String (Piece × List Char)
  | '(' :: '(' :: r =>
      match enclosed ['('] ')' 0 .bare r with
      | some (term, ')' :: rest) => .ok (.value term quoted, rest)
      | _ => .error "Missing '))'"
  | '(' :: r =>
      match enclosed ['('] ')' 0 .bare r with
      | some (script, rest) => .ok (.output script quoted, rest)
      | none => .error "end of file unexpected (expecting \")\")"
  | '\x7b' :: r => braced quoted r
  | r =>
      match parameter? r with
      | some (p, rest) => .ok (.parameter p quoted, rest)
      | none => .ok (.text (Bytes.ofChars ['$']) (if quoted then .firm else .plain), r)

/-- The characters that end a word outside quotes. -/
def endsWord (c : Char) : Bool :=
  [' ', '\t', '\n', ';', '&', '|', '<', '>', '(', ')'].contains c

/-- The characters that a backslash takes their meaning from inside double quotes. -/
def escapable (c : Char) : Bool :=
  ['$', '"', '\\', backquote].contains c

/-- A word in front of what follows it. -/
abbrev Found := Except String (Word × List Char)

namespace Found

def add (p : Piece) (found : Found) : Found :=
  found.map fun (w, rest) => (p :: w, rest)

/-- One more text in front, joined to the first if it holds in the same way. -/
def addText (hold : Hold) (cs : List Char) (found : Found) : Found :=
  found.map fun
    | (.text b h :: w, rest) =>
        if h = hold then (.text (Bytes.ofChars cs ++ b) hold :: w, rest)
        else (.text (Bytes.ofChars cs) hold :: .text b h :: w, rest)
    | (w, rest) => (.text (Bytes.ofChars cs) hold :: w, rest)

/-- Quotes around nothing leave an empty piece. -/
def addEmpty (closed : Bool) (found : Found) : Found :=
  if closed then found.addText .firm [] else found

end Found

/-- The pieces of a word in progress and what follows the word. The inside of another piece
ends only with the text. The fuel bounds the characters read. -/
def pieces (inside : Bool) : Nat → Line.Quoting → List Char → Found
  | 0, _, cs => .ok ([], cs)
  | _, .bare, [] => .ok ([], [])
  | _, _, [] => .error "Unterminated quoted string"
  | fuel + 1, .single, c :: r =>
      if c = '\'' then pieces inside fuel .bare r
      else (pieces inside fuel .single r).addText .firm [c]
  | fuel + 1, .double, c :: r =>
      if c = backquote then
        match backquoted? r with
        | some (script, rest) =>
            (pieces inside fuel .double rest).add (.output script true)
        | none => .error "EOF in backquote substitution"
      else
        match c, r with
        | '"', r => pieces inside fuel .bare r
        | '$', r =>
            match dollar true r with
            | .ok (p, rest) => (pieces inside fuel .double rest).add p
            | .error message => .error message
        | '\\', '\n' :: r => pieces inside fuel .double r
        | '\\', d :: r =>
            if escapable d then (pieces inside fuel .double r).addText .firm [d]
            else (pieces inside fuel .double (d :: r)).addText .firm ['\\']
        | c, r => (pieces inside fuel .double r).addText .firm [c]
  | fuel + 1, .bare, c :: r =>
      if c = backquote then
        match backquoted? r with
        | some (script, rest) => (pieces inside fuel .bare rest).add (.output script false)
        | none => .error "EOF in backquote substitution"
      else
        match c, r with
        | '\'', r => (pieces inside fuel .single r).addEmpty (r.head? = some '\'')
        | '"', r => (pieces inside fuel .double r).addEmpty (r.head? = some '"')
        | '$', r =>
            match dollar false r with
            | .ok (p, rest) => (pieces inside fuel .bare rest).add p
            | .error message => .error message
        | '\\', '\n' :: r => pieces inside fuel .bare r
        | '\\', d :: r => (pieces inside fuel .bare r).addText .firm [d]
        | c, r =>
            if inside then (pieces inside fuel .bare r).addText .loose [c]
            else if endsWord c then .ok ([], c :: r)
            else (pieces inside fuel .bare r).addText .plain [c]

/-- The pieces of a word inside another piece. -/
def innerWord (quoted : Bool) (cs : List Char) : Word :=
  let found :=
    if quoted then pieces true (cs.length + 2) .double (cs ++ ['"'])
    else pieces true (cs.length + 1) .bare cs
  match found with
  | .ok (w, _) => w
  | .error _ => [.faulty]

/-- The home directory, or a tilde if there is none. -/
def home : Piece :=
  .chosen (.named "HOME") .otherwise false ['~'] true

/-- A tilde alone or before a slash stands for the home directory. -/
def wordInFront (cs : List Char) : Found :=
  let fuel := cs.length + 1
  match cs with
  | '~' :: r =>
      if r.head?.all (fun c => c == '/' || endsWord c) then
        (pieces false fuel .bare r).add home
      else pieces false fuel .bare cs
  | cs => pieces false fuel .bare cs

/-- The direction of a redirection sign with the stream it is meant for, and what follows. -/
def direction? : List Char → Option (Nat × Direction × List Char)
  | '>' :: '>' :: r => some (1, .append, r)
  | '>' :: '&' :: r => some (1, .copy, r)
  | '>' :: '|' :: r => some (1, .write, r)
  | '>' :: r => some (1, .write, r)
  | '<' :: '&' :: r => some (0, .copy, r)
  | '<' :: '<' :: r => some (0, .here, r)
  | '<' :: r => some (0, .read, r)
  | _ => none

/-- A redirection sign, which may have a digit before it, and what follows it. -/
def redirect? : List Char → Option (Nat × Direction × List Char)
  | c :: r =>
      if c.isDigit then
        (direction? r).map fun (_, direction, rest) => (c.toNat - '0'.toNat, direction, rest)
      else direction? (c :: r)
  | [] => none

/-- The lines in front of one line, and what follows it. -/
def linesBefore (last : List Char) : List (List Char) → List (List Char) × List (List Char)
  | [] => ([], [])
  | line :: lines =>
      if line = last then ([], lines)
      else let (before, after) := linesBefore last lines; (line :: before, after)

/-- A text that stands in the script after the line that asks for it: its word, and the script
without it. -/
def document (cs : List Char) : Except String (Word × List Char) :=
  let stripped := cs.head? = some '-'
  let cs := (if stripped then cs.drop 1 else cs).dropWhile fun c => c = ' ' ∨ c = '\t'
  match pieces false (cs.length + 1) .bare cs with
  | .error message => .error message
  | .ok (delimiter, rest) =>
      let plain := delimiter.all fun | .text _ .firm => false | _ => true
      let last := delimiter.flatMap fun | .text b _ => b.chars | _ => []
      let here := rest.takeWhile (· ≠ '\n')
      let lines := (rest.drop (here.length + 1)).splitOn '\n'
      let lines := if stripped then lines.map (·.dropWhile (· = '\t')) else lines
      let (body, after) := linesBefore last lines
      let text := body.flatMap (· ++ ['\n'])
      let hidden := text.flatMap fun c => if c = '"' then ['\\', c] else [c]
      .ok (if plain then innerWord true hidden else [.text (Bytes.ofChars text) .firm],
        here ++ ['\n'] ++ List.intercalate ['\n'] after)

/-- The tokens of a script, each with the number of the line that it ends on. The fuel bounds
the characters read. -/
def tokens : Nat → Nat → List Char → List (Nat × Token)
  | 0, line, _ => [(line, .finish)]
  | _, line, [] => [(line, .finish)]
  | fuel + 1, line, c :: r =>
      match c, r with
      | ' ', r | '\t', r => tokens fuel line r
      | '\\', '\n' :: r => tokens fuel (line + 1) r
      | '\n', r => (line, .newline) :: tokens fuel (line + 1) r
      | '#', r => tokens fuel line (r.dropWhile (· ≠ '\n'))
      | ';', ';' :: r => (line, .caseEnd) :: tokens fuel line r
      | ';', r => (line, .separator) :: tokens fuel line r
      | '&', '&' :: r => (line, .both) :: tokens fuel line r
      | '&', r => (line, .beside) :: tokens fuel line r
      | '|', '|' :: r => (line, .either) :: tokens fuel line r
      | '|', r => (line, .bar) :: tokens fuel line r
      | '(', r => (line, .opening) :: tokens fuel line r
      | ')', r => (line, .closing) :: tokens fuel line r
      | c, r =>
          match redirect? (c :: r) with
          | some (stream, .here, rest) =>
              match document rest with
              | .ok (w, rest) =>
                  (line, .redirect stream .here) :: (line, .word w) :: tokens fuel line rest
              | .error message => [(line, .unended message)]
          | some (stream, direction, rest) =>
              (line, .redirect stream direction) :: tokens fuel line rest
          | none =>
              match wordInFront (c :: r) with
              | .ok (w, rest) =>
                  let read := (c :: r).take ((c :: r).length - rest.length)
                  let line := line + read.count '\n'
                  (line, .word w) :: tokens fuel line rest
              | .error message => [(line + r.count '\n', .unended message)]

def tokensOf (script : List Char) : List (Nat × Token) :=
  tokens (script.length + 1) 1 script

end LineShell.Script
