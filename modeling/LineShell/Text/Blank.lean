/-!
White space in the sense of the Unicode property White_Space, and trimming a text of it
at both ends.
-/

namespace LineShell.Text

/-- The Unicode property White_Space: the ASCII controls from tab to carriage return, the
space, and the space, line and paragraph separators beyond ASCII. -/
def isBlank (c : Char) : Bool :=
  let n := c.toNat
  (0x9 ≤ n && n ≤ 0xD) || n == 0x20 || n == 0x85 || n == 0xA0 || n == 0x1680 ||
    (0x2000 ≤ n && n ≤ 0x200A) || n == 0x2028 || n == 0x2029 || n == 0x202F ||
    n == 0x205F || n == 0x3000

def trimEnd (cs : List Char) : List Char :=
  (cs.reverse.dropWhile isBlank).reverse

def trimChars (cs : List Char) : List Char :=
  trimEnd (cs.dropWhile isBlank)

def trim (s : String) : String :=
  String.ofList (trimChars s.toList)

example : trim "\u00a0 a\tb \r\n" = "a\tb" := by decide +kernel
example : trim "\u200bx\ufeff" = "\u200bx\ufeff" := by decide +kernel

end LineShell.Text
