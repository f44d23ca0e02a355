/-!
Decimal numerals as counts: an optional plus sign and at least one ASCII digit, for a
value that fits a machine word. Whole numbers may also have a minus sign and be in base
eight or sixteen.
-/

namespace LineShell.Text

def isDigit (c : Char) : Bool :=
  '0' ≤ c && c ≤ '9'

def digitValue (c : Char) : Nat :=
  c.toNat - '0'.toNat

/-- The value of a row of digits, the most significant first. -/
def decimalValue (cs : List Char) : Nat :=
  cs.foldl (fun n c => 10 * n + digitValue c) 0

def withoutPlus : List Char → List Char
  | '+' :: cs => cs
  | cs => cs

/-- The least number that does not fit a machine word. -/
def wordBound : Nat := 18446744073709551616

/-- The count that a text spells: none without digits, with any other character, and for
a value beyond the machine word. -/
def count? (s : String) : Option Nat :=
  let digits := withoutPlus s.toList
  if digits ≠ [] ∧ digits.all isDigit = true ∧ decimalValue digits < wordBound then
    some (decimalValue digits)
  else
    none

/-- The value of a digit in bases up to sixteen. -/
def hexValue? (c : Char) : Option Nat :=
  if isDigit c then some (digitValue c)
  else if 'a' ≤ c ∧ c ≤ 'f' then some (c.toNat - 'a'.toNat + 10)
  else if 'A' ≤ c ∧ c ≤ 'F' then some (c.toNat - 'A'.toNat + 10)
  else none

/-- The value of digits in a base; none for no digits, or for one that the base has not. -/
def valueIn? (base : Nat) : List Char → Option Nat
  | [] => none
  | cs =>
      cs.foldlM (fun n c => ((hexValue? c).filter (· < base)).map (base * n + ·)) 0

/-- The value of digits, in base sixteen after `0x` and in base eight after another zero. -/
def magnitude? : List Char → Option Nat
  | '0' :: x :: cs => if x = 'x' ∨ x = 'X' then valueIn? 16 cs else valueIn? 8 (x :: cs)
  | cs => valueIn? 10 cs

/-- The whole number that fits a machine word with a sign, if a text spells one. -/
def integer? (cs : List Char) : Option Int :=
  let n? := match cs with
    | '-' :: cs => (magnitude? cs).map fun n => -(n : Int)
    | cs => (magnitude? (withoutPlus cs)).map Int.ofNat
  n?.filter fun n => -(wordBound : Int) ≤ 2 * n ∧ 2 * n < wordBound

example : integer? "-0x1F".toList = some (-31) ∧ integer? "+017".toList = some 15 := by
  decide +kernel
example : integer? "08".toList = none ∧ integer? "".toList = none := by decide +kernel

example : count? "+0012" = some 12 := by decide +kernel
example : count? "+" = none ∧ count? "-1" = none ∧ count? "++2" = none := by decide +kernel
example : count? "18446744073709551615" = some 18446744073709551615 := by decide +kernel
example : count? "18446744073709551616" = none := by decide +kernel

end LineShell.Text
