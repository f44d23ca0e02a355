import LineShell.Proofs.Text.Lines

/-!
Lines of bytes. In UTF-8 the newline byte stands for the newline and nothing else, so cutting
a text into lines and cutting its bytes into lines come to the same.
-/

namespace LineShell

namespace Bytes

def encode (cs : List Char) : Bytes :=
  cs.flatMap String.utf8EncodeChar

theorem ofText_ofList (cs : List Char) : ofText (String.ofList cs) = encode cs := by
  simp [ofText, encode, String.toUTF8_eq_toByteArray, String.toByteArray_ofList, List.utf8Encode]

theorem ofText_eq_encode (s : String) : ofText s = encode s.toList := by
  rw [← ofText_ofList, String.ofList_toList]

theorem eq_ofText_of_text? {b : Bytes} {s : String} (h : b.text? = some s) : b = ofText s := by
  unfold text? String.fromUTF8? at h
  split at h
  · cases h
    rfl
  · cases h

/-- A byte of a character's encoding is the character itself or not an ASCII byte. -/
theorem toNat_of_mem_utf8EncodeChar {b : UInt8} {c : Char} (h : b ∈ String.utf8EncodeChar c) :
    b.toNat = c.val.toNat ∨ 128 ≤ b.toNat := by
  unfold String.utf8EncodeChar at h
  dsimp only at h
  split at h
  · left
    rw [List.mem_singleton.mp h, UInt8.toNat_ofNat']
    omega
  · right
    split at h
    · simp only [List.mem_cons, List.not_mem_nil, or_false] at h
      rcases h with rfl | rfl <;> rw [UInt8.toNat_ofNat'] <;> omega
    split at h
    · simp only [List.mem_cons, List.not_mem_nil, or_false] at h
      rcases h with rfl | rfl | rfl <;> rw [UInt8.toNat_ofNat'] <;> omega
    · simp only [List.mem_cons, List.not_mem_nil, or_false] at h
      rcases h with rfl | rfl | rfl | rfl <;> rw [UInt8.toNat_ofNat'] <;> omega

theorem newline_not_mem_utf8EncodeChar {c : Char} (hc : c ≠ '\n') :
    newline ∉ String.utf8EncodeChar c := by
  intro h
  apply hc
  rcases toNat_of_mem_utf8EncodeChar h with h | h
  · exact Char.ext (UInt32.toNat_inj.mp h.symm)
  · exact absurd h (by decide)

theorem splitOn_append_of_not_mem {α : Type} [DecidableEq α] {a : α} {l : List α} (h : a ∉ l)
    (l' : List α) : (l ++ l').splitOn a = (l'.splitOn a).modifyHead (l ++ ·) := by
  induction l with
  | nil =>
      rw [List.nil_append]
      cases l'.splitOn a <;> rfl
  | cons x l ih =>
      have hx : x ≠ a := fun he => h (he ▸ List.mem_cons_self)
      have ih := ih fun hm => h (List.mem_cons_of_mem x hm)
      rw [List.cons_append, List.splitOn_cons_eq_if_modifyHead, if_neg (by simpa using hx), ih]
      cases l'.splitOn a <;> rfl

theorem splitOn_encode (cs : List Char) :
    (encode cs).splitOn newline = (cs.splitOn '\n').map encode := by
  induction cs with
  | nil => rfl
  | cons c cs ih =>
      by_cases hc : c = '\n'
      · subst hc
        have hnl : encode ('\n' :: cs) = [] ++ newline :: encode cs := rfl
        rw [hnl, List.splitOn_append_cons_self, ih]
        simp [List.splitOn_cons_eq_if_modifyHead, encode]
      · have hcons : encode (c :: cs) = String.utf8EncodeChar c ++ encode cs := rfl
        rw [hcons, splitOn_append_of_not_mem (newline_not_mem_utf8EncodeChar hc), ih,
          List.splitOn_cons_eq_if_modifyHead, if_neg (by simpa using hc)]
        cases cs.splitOn '\n' <;> rfl

/-- The text of a line without the white space around it, if it is text and not blank. -/
def trimmed? (line : Bytes) : Option String :=
  (line.text?.map Text.trim).filter (· ≠ "")

/-- The lines of a file that are text and hold more than white space. -/
def lines (b : Bytes) : List String :=
  (b.splitOn newline).filterMap trimmed?

theorem trimmed?_encode (cs : List Char) :
    trimmed? (encode cs) =
      if Text.trimChars cs = [] then none else some (String.ofList (Text.trimChars cs)) := by
  have htext : text? (encode cs) = some (String.ofList cs) := by
    rw [← ofText_ofList, text?_ofText]
  simp only [trimmed?, htext, Option.map_some, Text.trim, String.toList_ofList, Option.filter]
  by_cases h : Text.trimChars cs = [] <;> simp [h]

theorem lines_ofText (s : String) : (ofText s).lines = History.linesOf s := by
  rw [lines, ofText_eq_encode, splitOn_encode, History.linesOf, List.filterMap_map]
  induction s.toList.splitOn '\n' with
  | nil => rfl
  | cons piece pieces ih =>
      rw [List.filterMap_cons, Function.comp_apply, trimmed?_encode, List.map_cons]
      by_cases hp : Text.trimChars piece = []
      · rw [if_pos hp, List.filter_cons_of_neg (by simpa using hp)]
        exact ih
      · rw [if_neg hp, List.filter_cons_of_pos (by simpa using hp)]
        exact congrArg _ ih

end Bytes

end LineShell
