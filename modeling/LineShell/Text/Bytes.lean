/-!
Bytes, and UTF-8 as the one encoding between texts and bytes. What is encoded reads back
as the text it came from.
-/

namespace LineShell

abbrev Bytes := List UInt8

namespace Bytes

def ofText (s : String) : Bytes :=
  s.toUTF8.data.toList

/-- The text with this encoding, none if the bytes are not valid UTF-8. -/
def text? (b : Bytes) : Option String :=
  String.fromUTF8? ⟨b.toArray⟩

def newline : UInt8 := 10

def slash : UInt8 := 47

def backslash : UInt8 := 92

/-- Each byte as the character of that number. -/
def chars (b : Bytes) : List Char :=
  b.map fun n => Char.ofNat n.toNat

/-- The bytes numbered as these characters, each modulo the number of bytes. -/
def ofChars (cs : List Char) : Bytes :=
  cs.map fun c => c.toNat.toUInt8

/-- The text of the bytes, empty if they spell none. -/
def textOrEmpty (b : Bytes) : String :=
  b.text?.getD ""

theorem text?_ofText (s : String) : text? (ofText s) = some s := by
  have h : (⟨s.toUTF8.data.toList.toArray⟩ : ByteArray) = s.toUTF8 := by simp
  rw [text?, ofText, h, String.toUTF8_eq_toByteArray, String.fromUTF8?, dif_pos s.isValidUTF8]
  rfl

theorem ofText_append (s t : String) : ofText (s ++ t) = ofText s ++ ofText t := by
  simp [ofText, String.toUTF8, String.toByteArray_append]

end Bytes

end LineShell
