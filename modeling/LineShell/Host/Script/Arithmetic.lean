import LineShell.Text.Numeral
import LineShell.Host.Script.Token

/-!
Arithmetic on the variables of a script: whole numbers of a machine word with a sign, the
usual operators and assignments.
-/

namespace LineShell.Script

/-- A term to be reckoned. The operators go by their signs. -/
inductive Term
  | number (n : Int64)
  | variable (name : String)
  | unary (sign : String) (t : Term)
  | binary (sign : String) (first second : Term)
  | choice (test first second : Term)
  /-- The variable is set to the term, or to its old value joined with it by a sign. -/
  | assign (name sign : String) (t : Term)
  deriving Repr

namespace Term

inductive Symbol
  | number (n : Int64)
  | name (s : String)
  | sign (s : String)
  deriving DecidableEq, Repr

/-- All signs, no sign after one that it begins with. -/
def signs : List String :=
  ["<<=", ">>=", "<<", ">>", "<=", ">=", "==", "!=", "&&", "||", "+=", "-=", "*=", "/=", "%=",
    "&=", "^=", "|=", "+", "-", "*", "/", "%", "<", ">", "!", "~", "&", "|", "^", "(", ")", "?",
    ":", "="]

/-- The symbols of a text, none if it has something else in it. The fuel bounds its length. -/
def symbols? : Nat → List Char → Option (List Symbol)
  | 0, _ => some []
  | _, [] => some []
  | fuel + 1, c :: r =>
      if c = ' ' ∨ c = '\t' ∨ c = '\n' then symbols? fuel r
      else if nameStart c then
        (symbols? fuel (r.dropWhile nameRest)).map
          (Symbol.name (String.ofList (c :: r.takeWhile nameRest)) :: ·)
      else if Text.isDigit c then
        (Text.integer? (c :: r.takeWhile nameRest)).bind fun n =>
          (symbols? fuel (r.dropWhile nameRest)).map (Symbol.number (Int64.ofInt n) :: ·)
      else
        (signs.find? (·.toList.isPrefixOf (c :: r))).bind fun s =>
          (symbols? fuel ((c :: r).drop s.length)).map (Symbol.sign s :: ·)

/-- How tightly a sign joins two terms. -/
def level? (sign : String) : Option Nat :=
  [["||"], ["&&"], ["|"], ["^"], ["&"], ["==", "!="], ["<", ">", "<=", ">="], ["<<", ">>"],
    ["+", "-"], ["*", "/", "%"]].findIdx? (·.contains sign)

/-- The sign that an assigning sign joins the old value with, empty for the plain one. -/
def assigning? (sign : String) : Option String :=
  if ["=", "<<=", ">>=", "+=", "-=", "*=", "/=", "%=", "&=", "^=", "|="].contains sign then
    some (String.ofList sign.toList.dropLast)
  else none

mutual

/-- The term in front, and what follows it. The fuel bounds the symbols. -/
def read : Nat → List Symbol → Except String (Term × List Symbol)
  | 0, _ => .error "expecting primary"
  | fuel + 1, symbols =>
      match symbols with
      | .name s :: .sign a :: r =>
          match assigning? a with
          | some sign => do
              let (t, r) ← read fuel r
              .ok (.assign s sign t, r)
          | none => readChoice fuel symbols
      | _ => readChoice fuel symbols

def readChoice : Nat → List Symbol → Except String (Term × List Symbol)
  | 0, _ => .error "expecting primary"
  | fuel + 1, symbols => do
      let (test, r) ← readJoined fuel 0 symbols
      match r with
      | .sign "?" :: r =>
          let (first, r) ← read fuel r
          match r with
          | .sign ":" :: r =>
              let (second, r) ← readChoice fuel r
              .ok (.choice test first second, r)
          | _ => .error "expecting ':'"
      | r => .ok (test, r)

/-- Terms joined by signs of this level or a tighter one. -/
def readJoined : Nat → Nat → List Symbol → Except String (Term × List Symbol)
  | 0, _, _ => .error "expecting primary"
  | fuel + 1, level, symbols => do
      let (first, r) ← readUnary fuel symbols
      readMore fuel level first r

/-- What is joined to a first term, from the left to the right. -/
def readMore : Nat → Nat → Term → List Symbol → Except String (Term × List Symbol)
  | fuel + 1, level, first, .sign s :: r =>
      match (level? s).filter (level ≤ ·) with
      | some tighter => do
          let (second, r) ← readJoined fuel (tighter + 1) r
          readMore fuel level (.binary s first second) r
      | none => .ok (first, .sign s :: r)
  | _, _, first, r => .ok (first, r)

def readUnary : Nat → List Symbol → Except String (Term × List Symbol)
  | fuel + 1, .sign "(" :: r => do
      match ← read fuel r with
      | (t, .sign ")" :: r) => .ok (t, r)
      | _ => .error "expecting ')'"
  | fuel + 1, .sign s :: r =>
      if ["!", "~", "-", "+"].contains s then do
        let (t, r) ← readUnary fuel r
        .ok (.unary s t, r)
      else .error "expecting primary"
  | _, .number n :: r => .ok (.number n, r)
  | _, .name s :: r => .ok (.variable s, r)
  | _, _ => .error "expecting primary"

end

/-- The term that a text spells. -/
def ofText (cs : List Char) : Except String Term :=
  match symbols? cs.length cs with
  | none => .error "expecting EOF"
  | some symbols =>
      match read (6 * symbols.length + 6) symbols with
      | .ok (t, []) => .ok t
      | .ok _ => .error "expecting EOF"
      | .error message => .error message

def ofTruth (b : Bool) : Int64 :=
  if b then 1 else 0

/-- Two numbers joined by a sign; none if one is divided by zero. -/
def join? (sign : String) (a b : Int64) : Option Int64 :=
  match sign with
  | "|" => some (a ||| b)
  | "^" => some (a ^^^ b)
  | "&" => some (a &&& b)
  | "==" => some (ofTruth (a == b))
  | "!=" => some (ofTruth (a != b))
  | "<" => some (ofTruth (a < b))
  | ">" => some (ofTruth (b < a))
  | "<=" => some (ofTruth (a ≤ b))
  | ">=" => some (ofTruth (b ≤ a))
  | "<<" => some (a <<< b)
  | ">>" => some (a >>> b)
  | "+" => some (a + b)
  | "-" => some (a - b)
  | "*" => some (a * b)
  | "/" => if b = 0 then none else some (a / b)
  | "%" => if b = 0 then none else some (a % b)
  | _ => some b

/-- The values that variables have been set to, the last one first. -/
abbrev Settings := List (String × Int64)

/-- What a variable stands for: nothing is zero. -/
def lookUp (text : String → Bytes) (set : Settings) (name : String) : Except String Int64 :=
  match set.lookup name with
  | some n => .ok n
  | none =>
      let cs := (text name).chars
      if cs = [] then .ok 0
      else
        match Text.integer? cs with
        | some n => .ok (Int64.ofInt n)
        | none => .error ("Illegal number: " ++ String.ofList cs)

def joined (sign : String) (a b : Int64) : Except String Int64 :=
  match join? sign a b with
  | some n => .ok n
  | none => .error "division by zero"

/-- The value of a term, and the variables set on the way. -/
def value (text : String → Bytes) (set : Settings) : Term → Except String (Int64 × Settings)
  | .number n => .ok (n, set)
  | .variable name => do .ok (← lookUp text set name, set)
  | .unary sign t => do
      let (n, set) ← t.value text set
      .ok (if sign = "-" then -n else if sign = "~" then ~~~n
        else if sign = "!" then ofTruth (n == 0) else n, set)
  | .binary sign first second => do
      let (a, set) ← first.value text set
      if sign = "&&" ∧ a = 0 then .ok (0, set)
      else if sign = "||" ∧ a ≠ 0 then .ok (1, set)
      else
        let (b, set) ← second.value text set
        if sign = "&&" ∨ sign = "||" then .ok (ofTruth (b != 0), set)
        else .ok (← joined sign a b, set)
  | .choice test first second => do
      let (n, set) ← test.value text set
      if n ≠ 0 then first.value text set else second.value text set
  | .assign name sign t => do
      let (b, set) ← t.value text set
      let n ← if sign = "" then .ok b else joined sign (← lookUp text set name) b
      .ok (n, (name, n) :: set)

end Term

/-- The value of a text as a term. -/
def reckon (text : String → Bytes) (cs : List Char) : Except String (Int64 × Term.Settings) :=
  match (Term.ofText cs).bind (·.value text []) with
  | .ok found => .ok found
  | .error message =>
      if message.startsWith "Illegal" then .error message
      else .error ("arithmetic expression: " ++ message ++ ": \"" ++ String.ofList cs ++ "\"")

example : (reckon (fun _ => []) "1 + 2 * (x = 3) - -x".toList).toOption = some (10, [("x", 3)]) := by
  decide +kernel
example : (reckon (fun _ => Bytes.ofText "0x10") "a > 015 ? a % 7 : 1/0".toList).toOption =
    some (2, []) := by
  decide +kernel
example : (reckon (fun _ => []) "1 / 0".toList).toOption = none := by decide +kernel

end LineShell.Script
