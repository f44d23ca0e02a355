/-!
The start that texts have in common: the greatest lower bound in the order "begins".
-/

namespace LineShell.Text

/-- The longest start of both lists. -/
def shared : List Char → List Char → List Char
  | a :: as, b :: bs => if a = b then a :: shared as bs else []
  | _, _ => []

def sharedOfAll : List (List Char) → List Char
  | [] => []
  | w :: ws => ws.foldl shared w

/-- The longest text that every one of the texts begins with, empty for no texts. -/
def sharedStart (words : List String) : String :=
  String.ofList (sharedOfAll (words.map String.toList))

/-- The text `s` begins with `start`. -/
def begins (start s : String) : Bool :=
  start.toList.isPrefixOf s.toList

/-- What follows the first `n` characters. -/
def after (n : Nat) (s : String) : String :=
  String.ofList (s.toList.drop n)

end LineShell.Text
