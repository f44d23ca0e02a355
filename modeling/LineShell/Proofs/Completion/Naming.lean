import LineShell.Proofs.Completion.Row
import LineShell.Proofs.Line.Keeping

/-!
What a line says once a completion has finished its first word. Names are put in as they are,
so the line reads as the name just when all characters of the name stand for themselves.
-/

namespace LineShell

namespace Line

/-- A character that does not stand for itself is lost, if it is not a backslash with nothing to
take. -/
theorem kept_cons_sublist {x : Char} (hx : isPlain x = false) {r : List Char} (hr : r ≠ []) :
    (kept .bare (x :: r)).Sublist r := by
  by_cases hs : separates x = true
  · rw [kept, scan_bare_blank hs, charsOf_part]
    exact kept_sublist .bare r
  have hquote : x = '\'' ∨ x = '"' ∨ x = '\\' := by
    grind [isPlain]
  obtain rfl | rfl | rfl := hquote
  · exact kept_sublist .single r
  · exact kept_sublist .double r
  · obtain ⟨d, r, rfl⟩ := List.exists_cons_of_ne_nil hr
    exact (kept_sublist .bare r).cons_cons d

/-- With a space behind it a text cannot keep a first character that does not stand for
itself. -/
theorem kept_cons_append_blank_ne {x : Char} (hx : isPlain x = false) (r : List Char) :
    kept .bare (x :: r ++ [' ']) ≠ x :: r := by
  intro h
  have hsub := kept_cons_sublist hx (r := r ++ [' ']) (by simp)
  rw [← List.cons_append, h] at hsub
  -- Only by its number does the character that is lost show, and only the space can make up for
  -- it.
  have hblank : x = ' ' := by
    have hcount := hsub.count_le x
    rw [List.count_cons_self, List.count_append] at hcount
    have hone : 0 < [' '].count x := by omega
    exact List.mem_singleton.mp (List.count_pos_iff.mp hone)
  have hshift : x :: r = r ++ [' '] := hsub.eq_of_length (by simp)
  have hlost : ∀ s, kept .bare (x :: s) = kept .bare s := by
    intro s
    rw [kept, scan_bare_blank (by rw [hblank]; rfl), charsOf_part, kept]
  rw [List.cons_append, hlost, ← hshift, hlost] at h
  have hlength := (kept_sublist .bare r).length_le
  rw [h, List.length_cons] at hlength
  omega

theorem kept_plain_cons {c : Char} (hc : isPlain c = true) (r : List Char) :
    kept .bare (c :: r) = c :: kept .bare r := by
  rw [kept, scan_bare_plain hc, charsOf_push, kept]

theorem isPlain_of_kept_append_blank {name : List Char} (h : kept .bare (name ++ [' ']) = name) :
    ∀ c ∈ name, isPlain c = true := by
  induction name with
  | nil => exact List.forall_mem_nil _
  | cons c name ih =>
      cases hc : isPlain c with
      | false => exact absurd h (kept_cons_append_blank_ne hc name)
      | true =>
          rw [List.cons_append, kept_plain_cons hc] at h
          exact List.forall_mem_cons.mpr ⟨hc, ih (List.cons.inj h).2⟩

theorem scan_plain_append {name : List Char} (h : ∀ c ∈ name, isPlain c = true) (r : List Char) :
    scan .bare (name ++ r) = ahead name (scan .bare r) := by
  induction name with
  | nil => rfl
  | cons c name ih =>
      have ih := ih fun d hd => h d (List.mem_cons_of_mem c hd)
      rw [List.cons_append, scan_bare_plain (h c List.mem_cons_self), ih, push_ahead]

theorem words_append_blank_eq_iff {name : String} (hne : name ≠ "") :
    words (name ++ " ") = [name] ↔ ∀ c ∈ name.toList, isPlain c = true := by
  have hblank : (name ++ " ").toList = name.toList ++ [' '] := String.toList_append
  constructor
  · intro h
    have hkept := kept_of_words (name ++ " ")
    rw [h, hblank, List.flatMap_singleton] at hkept
    exact isPlain_of_kept_append_blank hkept
  · intro hplain
    have hend : scan .bare [' '] = ([], []) := rfl
    have hchars : name.toList ≠ [] := by simpa using hne
    rw [words, hblank, wordsOf, scan_plain_append hplain, hend]
    simp [ahead, part, withWord, hchars]

end Line

namespace Completion

/-- The one candidate of an input is put in with a space behind it. The line then reads as the
candidate just when it has no quote, no backslash and neither space nor tab in it. -/
theorem complete_names_candidate_iff {search : SearchPath} {w : World} {input name : String}
    (c : Completion) (hword : IsWord input) (hone : candidates search w input = [name]) :
    ∃ text, (complete search w c input).2 = .insert text ∧ input ++ text = name ++ " " ∧
      (Line.words (input ++ text) = [name] ↔
        ∀ x ∈ name.toList, x ≠ '\'' ∧ x ≠ '"' ∧ x ≠ '\\' ∧ x ≠ ' ' ∧ x ≠ '\t') := by
  have hopen : isOpen input = false := by
    rw [← Bool.not_eq_true, isOpen_iff]
    exact fun hnot => hnot hword
  have hmem : name ∈ candidates search w input := by
    rw [hone]
    exact List.mem_singleton_self name
  have hbegins := (mem_candidates_iff.mp hmem).1
  have hline : input ++ (Text.after input.length name ++ " ") = name ++ " " := by
    rw [← String.append_assoc, ← Text.eq_append_after hbegins]
  have hne : name ≠ "" := by
    rintro rfl
    have hstart := Text.begins_iff.mp hbegins
    exact hword.1 (String.toList_eq_nil_iff.mp (List.prefix_nil.mp hstart))
  refine ⟨Text.after input.length name ++ " ", ?_, hline, ?_⟩
  · simp [complete, hopen, hone, propose]
  · rw [hline, Line.words_append_blank_eq_iff hne]
    refine forall₂_congr fun x _ => ?_
    simp [Line.isPlain, Line.separates, and_assoc]

theorem complete_names_plain_candidate :
    let search : SearchPath := ⟨["/bin"], by decide⟩
    let w : World := ⟨⟨#[.directory [("bin", 1)] 0, .directory [("fro|b", 2)] 0,
      .file [] 0o755]⟩, Tree.root⟩
    IsWord "fr" ∧ candidates search w "fr" = ["fro|b"] ∧
      (complete search w {} "fr").2 = .insert "o|b " ∧ Line.words ("fr" ++ "o|b ") = ["fro|b"] := by
  intro search w
  have hword : IsWord "fr" := by decide
  have hone : candidates search w "fr" = ["fro|b"] := by decide +kernel
  obtain ⟨text, hinsert, hline, hwords⟩ := complete_names_candidate_iff {} hword hone
  obtain rfl : text = "o|b " := by
    apply String.toList_injective
    have hchars : "fr".toList ++ text.toList = "fr".toList ++ "o|b ".toList := by
      rw [← String.toList_append, hline]
      rfl
    exact List.append_cancel_left hchars
  exact ⟨hword, hone, hinsert, hwords.mpr (by simp)⟩

/-- The quote in the name of a file opens a quotation in the line, and the space goes into it. -/
theorem complete_misnames_quoted_candidate :
    let search : SearchPath := ⟨["/bin"], by decide⟩
    let w : World := ⟨⟨#[.directory [("bin", 1)] 0, .directory [("it's", 2)] 0,
      .file [] 0o755]⟩, Tree.root⟩
    candidates search w "it" = ["it's"] ∧
      (complete search w {} "it").2 = .insert "'s " ∧ Line.words ("it" ++ "'s ") = ["its "] := by
  decide +kernel

end Completion

end LineShell
