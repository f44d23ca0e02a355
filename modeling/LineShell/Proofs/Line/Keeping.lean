import LineShell.Proofs.Line.Spelling

/-!
The characters that reading a line keeps, whatever words they go to. They stand in the order of
the line; quotes, blanks between words and backslashes that escape are those it drops.
-/

namespace LineShell.Line

/-- The characters of a word in progress and of the words after it. -/
def charsOf (p : List Char × List (List Char)) : List Char :=
  p.1 ++ p.2.flatten

def kept (q : Quoting) (cs : List Char) : List Char :=
  charsOf (scan q cs)

@[simp] theorem charsOf_push (c : Char) (p : List Char × List (List Char)) :
    charsOf (push c p) = c :: charsOf p := rfl

@[simp] theorem charsOf_ahead (w : List Char) (p : List Char × List (List Char)) :
    charsOf (ahead w p) = w ++ charsOf p :=
  List.append_assoc w p.1 p.2.flatten

@[simp] theorem charsOf_part (p : List Char × List (List Char)) :
    charsOf (part p) = charsOf p := by
  by_cases h : p.1 = [] <;> simp [charsOf, part, withWord, h]

theorem charsOf_into (value : Option (List Char)) (p : List Char × List (List Char)) :
    charsOf (Item.into value p) = value.getD [] ++ charsOf p := by
  cases value with
  | none => exact charsOf_part p
  | some w => exact charsOf_ahead w p

theorem flatten_wordsOf (cs : List Char) : (wordsOf cs).flatten = kept .bare cs := by
  rw [kept, ← charsOf_part]
  rfl

@[simp] theorem kept_nil (q : Quoting) : kept q [] = [] := by
  cases q <;> rfl

theorem kept_sublist (q : Quoting) (cs : List Char) : (kept q cs).Sublist cs := by
  rw [kept]
  fun_induction scan q cs with
  | case1 => exact .slnil
  | case2 d r ih | case3 d r _ ih => exact (ih.cons_cons d).cons '\\'
  | case4 d r _ ih => exact ih.cons_cons '\\'
  | case5 q c r _ _ _ _ ih => exact ih.cons c
  | case6 q c r _ _ _ _ ih =>
      rw [charsOf_part]
      exact ih.cons c
  | case7 q c r _ _ _ _ ih => exact ih.cons_cons c

def Item.added (i : Item) : List Char :=
  i.value?.getD []

theorem kept_items (items : List Item) (r : List Char) :
    kept .bare (items.flatMap Item.text ++ r) = items.flatMap Item.added ++ kept .bare r := by
  induction items with
  | nil => rfl
  | cons i items ih =>
      rw [List.flatMap_cons, List.append_assoc, kept, scan_item, charsOf_into, ← kept, ih,
        List.flatMap_cons, List.append_assoc]
      rfl

theorem kept_text (s : Spelling) :
    kept .bare s.text = s.items.flatMap Item.added ++ s.tail.elim [] Tail.value := by
  rw [Spelling.text, kept_items]
  cases s.tail with
  | none => rfl
  | some t => simp [kept, scan_tail, charsOf]

theorem kept_of_words (line : String) :
    kept .bare line.toList = (words line).flatMap String.toList := by
  rw [← flatten_wordsOf, words, List.flatMap_map]
  simp only [String.toList_ofList, List.flatMap_id']

end LineShell.Line
