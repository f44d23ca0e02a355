import LineShell.History

/-!
Texts as the history keeps them: with something in them, no white space at either end and no
newline. They are what reading a file makes entries of, and what writing gives back.
-/

namespace LineShell

namespace Text

/-- No white space stands at either end. -/
structure Trimmed (cs : List Char) : Prop where
  head : ∀ c ∈ cs.head?, isBlank c = false
  last : ∀ c ∈ cs.getLast?, isBlank c = false

theorem not_isBlank_of_mem_head?_dropWhile {cs : List Char} {c : Char}
    (h : c ∈ (cs.dropWhile isBlank).head?) : isBlank c = false := by
  have hn := List.head?_dropWhile_not isBlank cs
  rw [Option.mem_def.mp h] at hn
  exact hn

theorem dropWhile_isBlank_of_head {cs : List Char} (h : ∀ c ∈ cs.head?, isBlank c = false) :
    cs.dropWhile isBlank = cs := by
  cases cs with
  | nil => rfl
  | cons c cs => simp [h c rfl]

theorem prefix_trimEnd (cs : List Char) : trimEnd cs <+: cs := by
  rw [← List.reverse_suffix, trimEnd, List.reverse_reverse]
  exact List.dropWhile_suffix isBlank

theorem trimmed_trimChars (cs : List Char) : Trimmed (trimChars cs) where
  head c hc := by
    obtain ⟨rest, hrest⟩ := prefix_trimEnd (cs.dropWhile isBlank)
    have hhead : c ∈ (cs.dropWhile isBlank).head? := by
      rw [← hrest, List.head?_append]
      simp only [Option.mem_def, trimChars] at hc ⊢
      rw [hc]
      rfl
    exact not_isBlank_of_mem_head?_dropWhile hhead
  last c hc := by
    have hhead : c ∈ ((cs.dropWhile isBlank).reverse.dropWhile isBlank).head? := by
      simpa [trimChars, trimEnd] using hc
    exact not_isBlank_of_mem_head?_dropWhile hhead

theorem trimChars_of_trimmed {cs : List Char} (h : Trimmed cs) : trimChars cs = cs := by
  have hlast : cs.reverse.dropWhile isBlank = cs.reverse :=
    dropWhile_isBlank_of_head (by simpa using h.last)
  rw [trimChars, dropWhile_isBlank_of_head h.head, trimEnd, hlast, List.reverse_reverse]

theorem mem_of_mem_trimChars {cs : List Char} {c : Char} (h : c ∈ trimChars cs) : c ∈ cs :=
  (List.dropWhile_suffix isBlank).subset ((prefix_trimEnd _).subset h)

theorem trim_trim (s : String) : trim (trim s) = trim s := by
  simp only [trim, String.toList_ofList, trimChars_of_trimmed (trimmed_trimChars _)]

end Text

namespace History

/-- A text that fits on a line of a file and comes back from there as it is. -/
structure IsEntry (e : String) : Prop where
  ne_empty : e ≠ ""
  trimmed : Text.Trimmed e.toList
  newline : '\n' ∉ e.toList

theorem isEntry_ofList_trimChars {cs : List Char} (hne : Text.trimChars cs ≠ [])
    (hnl : '\n' ∉ cs) : IsEntry (String.ofList (Text.trimChars cs)) where
  ne_empty h := hne (by simpa using congrArg String.toList h)
  trimmed := by simpa using Text.trimmed_trimChars cs
  newline h := hnl (Text.mem_of_mem_trimChars (by simpa using h))

theorem isEntry_trim {line : String} (hne : Text.trim line ≠ "") (hnl : '\n' ∉ line.toList) :
    IsEntry (Text.trim line) := by
  apply isEntry_ofList_trimChars _ hnl
  intro h
  exact hne (by rw [Text.trim, h])

theorem not_mem_of_mem_splitOn {α : Type} [DecidableEq α] {a : α} {l piece : List α}
    (h : piece ∈ l.splitOn a) : a ∉ piece := by
  induction l generalizing piece with
  | nil =>
      rw [List.splitOn_nil, List.mem_singleton] at h
      simp [h]
  | cons x l ih =>
      rw [List.splitOn_cons_eq_if_modifyHead] at h
      split at h
      · rcases List.mem_cons.mp h with rfl | h
        · exact List.not_mem_nil
        · exact ih h
      · rename_i hx
        cases hs : l.splitOn a with
        | nil => exact absurd hs (List.splitOn_ne_nil a l)
        | cons first others =>
            rw [hs, List.modifyHead_cons] at h
            rcases List.mem_cons.mp h with rfl | h
            · have hf := ih (hs ▸ List.mem_cons_self)
              simpa [hf] using Ne.symm (by simpa using hx : x ≠ a)
            · exact ih (hs ▸ List.mem_cons_of_mem _ h)

theorem isEntry_of_mem_linesOf {e s : String} (h : e ∈ linesOf s) : IsEntry e := by
  simp only [linesOf, List.mem_map, List.mem_filter, decide_eq_true_eq] at h
  obtain ⟨_, ⟨⟨piece, hp, rfl⟩, hne⟩, rfl⟩ := h
  exact isEntry_ofList_trimChars hne (not_mem_of_mem_splitOn hp)

theorem toList_fileText_cons (e : String) (es : List String) :
    (fileText (e :: es)).toList = e.toList ++ '\n' :: (fileText es).toList := by
  simp [fileText, String.toList_join]

/-- Entries in front of a file's other lines are read back as they are. -/
theorem linesOf_fileText_append {es : List String} (hes : ∀ e ∈ es, IsEntry e)
    (es' : List String) :
    linesOf (fileText (es ++ es')) = es ++ linesOf (fileText es') := by
  induction es with
  | nil => rfl
  | cons e es ih =>
      have he := hes e List.mem_cons_self
      have ih := ih fun x hx => hes x (List.mem_cons_of_mem e hx)
      have hne : e.toList ≠ [] := by simpa using he.ne_empty
      simp only [linesOf, List.cons_append, toList_fileText_cons,
        List.splitOn_append_cons_self_of_not_mem he.newline, List.map_cons,
        Text.trimChars_of_trimmed he.trimmed]
      rw [List.filter_cons_of_pos (by simpa using hne), List.map_cons, String.ofList_toList]
      exact congrArg (e :: ·) ih

theorem linesOf_fileText {es : List String} (hes : ∀ e ∈ es, IsEntry e) :
    linesOf (fileText es) = es := by
  have h := linesOf_fileText_append hes []
  rw [List.append_nil] at h
  exact h.trans (List.append_nil es)

end History

end LineShell
