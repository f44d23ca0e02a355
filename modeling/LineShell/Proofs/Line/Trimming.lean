import LineShell.Line.Reading
import LineShell.Proofs.Line.Keeping
import LineShell.Proofs.Text.Lines

/-!
What trimming a line does to its words. White space at its ends means nothing if it is spaces
and tabs and what stands before it is finished: no quotation is open there and no backslash
takes its first character. All other white space that is trimmed is missed in the words.
-/

namespace LineShell

namespace Text

theorem exists_trimChars (cs : List Char) :
    ∃ before after, cs = before ++ trimChars cs ++ after ∧
      ∀ c ∈ before ++ after, isBlank c = true := by
  refine ⟨cs.takeWhile isBlank, ((cs.dropWhile isBlank).reverse.takeWhile isBlank).reverse, ?_, ?_⟩
  · rw [trimChars, trimEnd, List.append_assoc, ← List.reverse_append,
      List.takeWhile_append_dropWhile, List.reverse_reverse, List.takeWhile_append_dropWhile]
  · intro c hc
    rw [List.mem_append, List.mem_reverse] at hc
    obtain hc | hc := hc
    · exact List.all_eq_true.mp List.all_takeWhile c hc
    · exact List.all_eq_true.mp List.all_takeWhile c hc

end Text

namespace Line

/-- The text ends outside quotes and not behind a backslash that would take another
character. -/
def Finished (cs : List Char) : Prop :=
  ∃ items : List Item, items.flatMap Item.text = cs

section blank

variable {c : Char} (hc : Text.isBlank c = true)

include hc

theorem ne_of_isBlank : c ≠ '\'' ∧ c ≠ '"' ∧ c ≠ '\\' ∧ c ≠ '$' := by
  refine ⟨?_, ?_, ?_, ?_⟩ <;> rintro rfl <;> exact absurd hc (by decide)

theorem isPlain_of_isBlank (hs : separates c = false) : isPlain c = true := by
  obtain ⟨hsingle, hdouble, hback, -⟩ := ne_of_isBlank hc
  simp [isPlain, hsingle, hdouble, hback, hs]

theorem escapable_of_isBlank : escapable c = false := by
  obtain ⟨-, hdouble, hback, hdollar⟩ := ne_of_isBlank hc
  simp [escapable, hdouble, hback, hdollar]

end blank

/-! White space at the ends of a line -/

section blanks

variable {blanks : List Char} (hb : ∀ c ∈ blanks, Text.isBlank c = true)

include hb

/-- Outside quotes white space is lost if it parts words and kept if not. -/
theorem kept_blanks_append (r : List Char) :
    kept .bare (blanks ++ r) = blanks.filter (!separates ·) ++ kept .bare r := by
  induction blanks with
  | nil => rfl
  | cons c blanks ih =>
      have ih := ih fun d hd => hb d (List.mem_cons_of_mem c hd)
      rw [List.cons_append, kept]
      cases hs : separates c with
      | true =>
          rw [scan_bare_blank hs, charsOf_part, ← kept, ih, List.filter_cons_of_neg (by simp [hs])]
      | false =>
          have hplain := isPlain_of_isBlank (hb c List.mem_cons_self) hs
          rw [scan_bare_plain hplain, charsOf_push, ← kept, ih,
            List.filter_cons_of_pos (by simp [hs]), List.cons_append]

theorem kept_blanks : kept .bare blanks = blanks.filter (!separates ·) := by
  have h := kept_blanks_append hb []
  rwa [kept_nil, List.append_nil, List.append_nil] at h

theorem kept_double_blanks : kept .double blanks = blanks := by
  induction blanks with
  | nil => rfl
  | cons c blanks ih =>
      have ih := ih fun d hd => hb d (List.mem_cons_of_mem c hd)
      obtain ⟨-, hdouble, hback, -⟩ := ne_of_isBlank (hb c List.mem_cons_self)
      rw [kept, scan_double_cons ⟨hdouble, hback⟩, charsOf_push, ← kept, ih]

theorem kept_single_append {body : List Char} (hbody : '\'' ∉ body) :
    kept .bare (Tail.text (.single body hbody) ++ blanks) = body ++ blanks := by
  have hall : '\'' ∉ body ++ blanks := by
    rw [List.mem_append, not_or]
    exact ⟨hbody, fun hq => (ne_of_isBlank (hb _ hq)).1 rfl⟩
  have hscan := scan_single hall []
  rw [List.append_nil] at hscan
  have hopen : scan .bare (Tail.text (.single body hbody) ++ blanks) =
      scan .single (body ++ blanks) := rfl
  rw [kept, hopen, hscan, charsOf_ahead]
  exact List.append_nil _

theorem kept_double_append (body : List Piece) (lone : Bool) :
    kept .bare (Tail.text (.double body lone) ++ blanks) =
      Tail.value (.double body lone) ++ blanks := by
  have hopen : scan .bare (Tail.text (.double body lone) ++ blanks) =
      scan .double (body.flatMap Piece.text ++ ((if lone then ['\\'] else []) ++ blanks)) := by
    rw [← List.append_assoc]
    rfl
  have hlone : kept .double ((if lone then ['\\'] else []) ++ blanks) =
      (if lone then ['\\'] else []) ++ blanks := by
    cases lone with
    | false => exact kept_double_blanks hb
    | true =>
        cases blanks with
        | nil => rfl
        | cons c blanks =>
            have hkept := kept_double_blanks hb
            have hscan : scan .double ('\\' :: c :: blanks) =
                push '\\' (scan .double (c :: blanks)) := by
              simp [scan, escapable_of_isBlank (hb c List.mem_cons_self)]
            rw [kept] at hkept
            exact (congrArg charsOf hscan).trans (congrArg ('\\' :: ·) hkept)
  rw [kept, hopen, scan_double, charsOf_ahead, ← kept, hlone, Tail.value, List.append_assoc]

/-- Behind an unfinished item all white space is kept, if not the backslash that takes its first
character. -/
theorem kept_tail_append (t : Tail) :
    kept .bare (t.text ++ blanks) = t.value ++ blanks ∨
      ∃ c rest, blanks = c :: rest ∧ t.value = ['\\'] ∧
        kept .bare (t.text ++ blanks) = c :: rest.filter (!separates ·) := by
  cases t with
  | single body hbody => exact .inl (kept_single_append hb hbody)
  | double body lone => exact .inl (kept_double_append hb body lone)
  | backslash =>
      cases blanks with
      | nil => exact .inl rfl
      | cons c rest =>
          have hrest := kept_blanks fun d hd => hb d (List.mem_cons_of_mem c hd)
          exact .inr ⟨c, rest, rfl, rfl, congrArg (c :: ·) hrest⟩

end blanks

theorem part_part (p : List Char × List (List Char)) : part (part p) = part p := rfl

theorem wordsOf_separators_append {before : List Char} (hb : ∀ c ∈ before, separates c = true)
    (r : List Char) : wordsOf (before ++ r) = wordsOf r := by
  induction before with
  | nil => rfl
  | cons c before ih =>
      have ih := ih fun d hd => hb d (List.mem_cons_of_mem c hd)
      rw [List.cons_append, wordsOf, scan_bare_blank (hb c List.mem_cons_self), part_part]
      exact ih

theorem scan_separators {after : List Char} (hb : ∀ c ∈ after, separates c = true) :
    scan .bare after = ([], []) := by
  induction after with
  | nil => rfl
  | cons c after ih =>
      rw [scan_bare_blank (hb c List.mem_cons_self),
        ih fun d hd => hb d (List.mem_cons_of_mem c hd)]
      rfl

/-- Behind finished items it is only the reading of the rest that counts. -/
theorem scan_items_congr (items : List Item) {r r' : List Char}
    (h : scan .bare r = scan .bare r') :
    scan .bare (items.flatMap Item.text ++ r) = scan .bare (items.flatMap Item.text ++ r') := by
  induction items with
  | nil => exact h
  | cons i items ih =>
      rw [List.flatMap_cons, List.append_assoc, List.append_assoc, scan_item, scan_item, ih]

theorem wordsOf_append_separators {cs after : List Char} (hb : ∀ c ∈ after, separates c = true)
    (h : after = [] ∨ Finished cs) : wordsOf (cs ++ after) = wordsOf cs := by
  obtain rfl | ⟨items, rfl⟩ := h
  · rw [List.append_nil]
  · have hscan : scan .bare (items.flatMap Item.text ++ after) =
        scan .bare (items.flatMap Item.text ++ []) := scan_items_congr items (scan_separators hb)
    rw [wordsOf, hscan, List.append_nil]
    rfl

theorem all_separates_of_filter {cs : List Char} (h : cs.filter (!separates ·) = []) :
    ∀ c ∈ cs, separates c = true := by
  simpa [List.filter_eq_nil_iff] using h

/-- White space whose loss does not show in what is kept can be missed. -/
theorem separators_of_kept_eq {before cs after : List Char}
    (hbefore : ∀ c ∈ before, Text.isBlank c = true) (hafter : ∀ c ∈ after, Text.isBlank c = true)
    (h : kept .bare (before ++ cs ++ after) = kept .bare cs) :
    (∀ c ∈ before ++ after, separates c = true) ∧ (after = [] ∨ Finished cs) := by
  obtain ⟨⟨items, tail⟩, rfl⟩ := Spelling.exists_text cs
  have hline : before ++ Spelling.text ⟨items, tail⟩ ++ after =
      before ++ (items.flatMap Item.text ++ (tail.elim [] Tail.text ++ after)) := by
    simp only [Spelling.text, List.append_assoc]
  rw [hline, kept_blanks_append hbefore, kept_items, kept_text] at h
  have hlength := congrArg List.length h
  simp only [List.length_append] at hlength
  -- Its length tells what has been lost: nothing but white space can have been.
  cases tail with
  | none =>
      rw [Option.elim_none, List.nil_append, kept_blanks hafter] at hlength
      rw [Option.elim_none, List.length_nil] at hlength
      have hfirst := all_separates_of_filter
        (List.length_eq_zero_iff.mp (by omega : (before.filter (!separates ·)).length = 0))
      have hlast := all_separates_of_filter
        (List.length_eq_zero_iff.mp (by omega : (after.filter (!separates ·)).length = 0))
      exact ⟨fun c hc => (List.mem_append.mp hc).elim (hfirst c) (hlast c),
        .inr ⟨items, (List.append_nil _).symm⟩⟩
  | some t =>
      rw [Option.elim_some, Option.elim_some] at h hlength
      obtain htail | ⟨c, rest, rfl, hvalue, htail⟩ := kept_tail_append hafter t
      · rw [htail, List.length_append] at hlength
        have hfirst := all_separates_of_filter
          (List.length_eq_zero_iff.mp (by omega : (before.filter (!separates ·)).length = 0))
        obtain rfl : after = [] := List.length_eq_zero_iff.mp (by omega)
        exact ⟨by rwa [List.append_nil], .inl rfl⟩
      · -- The backslash is lost for the character it takes, and that one is no backslash.
        rw [htail, hvalue] at h hlength
        rw [List.length_cons, List.length_singleton] at hlength
        have hfirst : before.filter (!separates ·) = [] := List.length_eq_zero_iff.mp (by omega)
        have hrest : rest.filter (!separates ·) = [] := List.length_eq_zero_iff.mp (by omega)
        rw [hfirst, hrest, List.nil_append] at h
        have hc : c = '\\' := List.singleton_inj.mp (List.append_cancel_left h)
        exact absurd hc (ne_of_isBlank (hafter c List.mem_cons_self)).2.2.1

/-- Trimming a line leaves it its words just where the white space it takes away can be
missed: it is spaces and tabs, and none of it stands behind something unfinished. -/
theorem words_trim_eq_iff (line : String) :
    words (Text.trim line) = words line ↔
      ∃ before after, line.toList = before ++ (Text.trim line).toList ++ after ∧
        (∀ c ∈ before ++ after, separates c = true) ∧
        (after = [] ∨ Finished (Text.trim line).toList) := by
  have htrim : (Text.trim line).toList = Text.trimChars line.toList := String.toList_ofList
  constructor
  · intro h
    obtain ⟨before, after, hline, hblank⟩ := Text.exists_trimChars line.toList
    rw [← htrim] at hline
    have hkept : kept .bare (before ++ (Text.trim line).toList ++ after) =
        kept .bare (Text.trim line).toList := by
      rw [← hline, kept_of_words, kept_of_words, h]
    obtain ⟨hbefore, hafter⟩ := List.forall_mem_append.mp hblank
    exact ⟨before, after, hline, separators_of_kept_eq hbefore hafter hkept⟩
  · rintro ⟨before, after, hline, hsep, hend⟩
    obtain ⟨hbefore, hafter⟩ := List.forall_mem_append.mp hsep
    rw [words, words, hline, List.append_assoc, wordsOf_separators_append hbefore,
      wordsOf_append_separators hafter hend]

/-- The space that the backslash takes, the white space in an open quotation and the white space
that is neither space nor tab are missed. -/
theorem words_trim_ne :
    words (Text.trim "echo a\\ ") ≠ words "echo a\\ " ∧
      words (Text.trim "echo 'a ") ≠ words "echo 'a " ∧
      words (Text.trim "echo a\u00a0") ≠ words "echo a\u00a0" := by
  refine ⟨?_, ?_, ?_⟩ <;> decide +kernel

end Line

end LineShell
