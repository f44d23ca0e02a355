import LineShell.Text.Shared

/-!
The start that texts share is the longest there is: what begins all of them begins it.
-/

namespace LineShell.Text

theorem begins_iff {start s : String} : begins start s = true ↔ start.toList <+: s.toList :=
  List.isPrefixOf_iff_prefix

theorem after_append (start rest : String) : after start.length (start ++ rest) = rest := by
  rw [after, String.toList_append, ← String.length_toList, List.drop_left, String.ofList_toList]

theorem eq_append_after {start s : String} (h : begins start s = true) :
    s = start ++ after start.length s := by
  obtain ⟨rest, hrest⟩ := begins_iff.mp h
  have hs : s = start ++ String.ofList rest := by
    apply String.toList_injective
    rw [String.toList_append, String.toList_ofList, hrest]
  rw [hs, after_append]

theorem prefix_shared_iff {p v w : List Char} : p <+: shared v w ↔ p <+: v ∧ p <+: w := by
  induction v generalizing p w with
  | nil => cases w <;> simp +contextual [shared]
  | cons a v ih =>
      cases w with
      | nil => simp +contextual [shared]
      | cons b w =>
          cases p with
          | nil => simp
          | cons c p =>
              by_cases hab : a = b
              · subst hab
                simp only [shared, if_true, List.cons_prefix_cons, ih]
                exact and_and_left
              · simp only [shared, if_neg hab, List.cons_prefix_cons]
                constructor
                · exact fun h => absurd h (by simp)
                · exact fun h => absurd (h.1.1.symm.trans h.2.1) hab

theorem prefix_sharedOfAll_iff {p : List Char} {ws : List (List Char)} (hne : ws ≠ []) :
    p <+: sharedOfAll ws ↔ ∀ w ∈ ws, p <+: w := by
  obtain ⟨w, ws, rfl⟩ := List.exists_cons_of_ne_nil hne
  rw [sharedOfAll, List.forall_mem_cons]
  induction ws generalizing w with
  | nil => simp
  | cons v ws ih =>
      rw [List.foldl_cons, ih _ (List.cons_ne_nil _ _), prefix_shared_iff, List.forall_mem_cons,
        and_assoc]

/-- All the texts begin with `q`, and so does `q` with whatever else they all begin with. -/
structure IsSharedStart (texts : List String) (q : String) : Prop where
  begins : ∀ s ∈ texts, begins q s = true
  longest : ∀ p, (∀ s ∈ texts, Text.begins p s = true) → Text.begins p q = true

theorem isSharedStart_sharedStart {texts : List String} (hne : texts ≠ []) :
    IsSharedStart texts (sharedStart texts) := by
  have hiff : ∀ p : List Char, p <+: (sharedStart texts).toList ↔
      ∀ s ∈ texts, p <+: s.toList := by
    intro p
    rw [sharedStart, String.toList_ofList, prefix_sharedOfAll_iff (by simpa using hne),
      List.forall_mem_map]
  constructor
  · intro s hs
    exact begins_iff.mpr ((hiff _).mp (List.prefix_refl _) s hs)
  · intro p hp
    exact begins_iff.mpr ((hiff _).mpr fun s hs => begins_iff.mp (hp s hs))

theorem IsSharedStart.unique {texts : List String} {q r : String} (hq : IsSharedStart texts q)
    (hr : IsSharedStart texts r) : q = r := by
  have hqr := begins_iff.mp (hr.longest q hq.begins)
  have hrq := begins_iff.mp (hq.longest r hr.begins)
  exact String.toList_injective (hqr.eq_of_length_le hrq.length_le)

end LineShell.Text
