/-!
Reading a line as words. Spaces and tabs part words; quotes and backslashes join what
they hold to the word around them. A word that comes out empty is no word.
-/

namespace LineShell.Line

/-- What a character stands in. -/
inductive Quoting
  | bare
  | single
  | double
  deriving DecidableEq, Repr

/-- What follows a character that opens or closes a quotation; none for any other. -/
def Quoting.turn : Quoting → Char → Option Quoting
  | .bare, '\'' => some .single
  | .bare, '"' => some .double
  | .single, '\'' => some .bare
  | .double, '"' => some .bare
  | _, _ => none

/-- The characters that a backslash takes their meaning from inside double quotes. -/
def escapable (c : Char) : Bool :=
  c == '"' || c == '\\' || c == '$'

/-- Space and tab, the only characters that part words. -/
def separates (c : Char) : Bool :=
  c == ' ' || c == '\t'

/-- A word in front of later words, left out if it is empty. -/
def withWord (word : List Char) (later : List (List Char)) : List (List Char) :=
  if word = [] then later else word :: later

/-- The rest of a word in progress and the words after it, with one more character. -/
def push (c : Char) (p : List Char × List (List Char)) : List Char × List (List Char) :=
  (c :: p.1, p.2)

/-- The end of a word in progress: what is at hand are the words after it. -/
def part (p : List Char × List (List Char)) : List Char × List (List Char) :=
  ([], withWord p.1 p.2)

/-- The rest of the word that the first character belongs to, and the words after it. -/
def scan : Quoting → List Char → List Char × List (List Char)
  | _, [] => ([], [])
  | .bare, '\\' :: d :: r => push d (scan .bare r)
  | .double, '\\' :: d :: r =>
      if escapable d then push d (scan .double r) else push '\\' (scan .double (d :: r))
  | q, c :: r =>
      match q.turn c with
      | some next => scan next r
      | none => if q = .bare ∧ separates c then part (scan q r) else push c (scan q r)

def wordsOf (line : List Char) : List (List Char) :=
  (part (scan .bare line)).2

/-- The words of a line, in order. Outside quotes a backslash takes the next character as
it is; single quotes keep everything; inside double quotes a backslash escapes only the
quote, the backslash and the dollar sign and otherwise stays. The end of the line closes
an open quote, and a backslash with nothing after it stays. -/
def words (line : String) : List String :=
  (wordsOf line.toList).map String.ofList

theorem ne_nil_of_mem_withWord {word w : List Char} {later : List (List Char)}
    (hw : w ∈ withWord word later) (h : ∀ v ∈ later, v ≠ []) : w ≠ [] := by
  unfold withWord at hw
  split at hw
  · exact h w hw
  · rename_i hne
    rcases List.mem_cons.mp hw with rfl | hmem
    · exact hne
    · exact h w hmem

theorem scan_later_ne_nil (q : Quoting) (line : List Char) :
    ∀ w ∈ (scan q line).2, w ≠ [] := by
  fun_induction scan q line with
  | case1 => simp
  | case2 _ _ ih | case3 _ _ _ ih | case4 _ _ _ ih => exact ih
  | case5 _ _ _ _ _ _ _ ih => exact ih
  | case6 _ _ _ _ _ _ _ ih => exact fun w hw => ne_nil_of_mem_withWord hw ih
  | case7 _ _ _ _ _ _ _ ih => exact ih

/-- No word is empty. -/
theorem ne_nil_of_mem_wordsOf {line w : List Char} (h : w ∈ wordsOf line) : w ≠ [] :=
  ne_nil_of_mem_withWord h (scan_later_ne_nil .bare line)

example : words "echo 'a'\"b\"c '' x\\ y" = ["echo", "abc", "x y"] := by decide +kernel
example : words "\"a\\nb\\\"\" z\\" = ["a\\nb\"", "z\\"] := by decide +kernel

end LineShell.Line
