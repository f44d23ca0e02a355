import LineShell.Text.Numeral
import Mathlib.Data.List.Induction

/-!
What numerals count: a row of decimal digits, a plus sign in front of it or not, stands for a
number, and it is read as that number if a machine word can hold it.
-/

namespace LineShell.Text

/-- A row of decimal digits and the number that it stands for. -/
inductive Spells : List Char → Nat → Prop
  | digit {d} (hd : d < 10) : Spells [Nat.digitChar d] d
  | further {cs n d} (h : Spells cs n) (hd : d < 10) :
      Spells (cs ++ [Nat.digitChar d]) (10 * n + d)

/-- A number written with or without a plus sign in front. -/
def SpellsCount (s : String) (n : Nat) : Prop :=
  ∃ cs, Spells cs n ∧ (s.toList = cs ∨ s.toList = '+' :: cs)

theorem isDigit_digitChar {d : Nat} (hd : d < 10) : isDigit (Nat.digitChar d) = true := by
  have hall : ∀ d < 10, isDigit (Nat.digitChar d) = true := by decide
  exact hall d hd

theorem digitValue_digitChar {d : Nat} (hd : d < 10) : digitValue (Nat.digitChar d) = d := by
  have hall : ∀ d < 10, digitValue (Nat.digitChar d) = d := by decide
  exact hall d hd

theorem exists_digitChar {c : Char} (hc : isDigit c = true) : ∃ d < 10, Nat.digitChar d = c := by
  have hall : ∀ d < 10, Nat.digitChar d = Char.ofNat (48 + d) := by decide
  simp only [isDigit, Bool.and_eq_true, decide_eq_true_eq, Char.le_def,
    UInt32.le_iff_toNat_le] at hc
  obtain ⟨hzero, hnine⟩ := hc
  change 48 ≤ c.toNat at hzero
  change c.toNat ≤ 57 at hnine
  refine ⟨c.toNat - 48, by omega, ?_⟩
  rw [hall _ (by omega), Nat.add_sub_cancel' hzero, Char.ofNat_toNat]

theorem decimalValue_append_singleton (cs : List Char) (c : Char) :
    decimalValue (cs ++ [c]) = 10 * decimalValue cs + digitValue c := by
  simp [decimalValue]

theorem spells_iff {cs : List Char} {n : Nat} :
    Spells cs n ↔ cs ≠ [] ∧ cs.all isDigit = true ∧ decimalValue cs = n := by
  constructor
  · intro h
    induction h with
    | digit hd => simp [isDigit_digitChar hd, decimalValue, digitValue_digitChar hd]
    | further _ hd ih =>
        obtain ⟨-, hall, hvalue⟩ := ih
        simp [hall, isDigit_digitChar hd, decimalValue_append_singleton, hvalue,
          digitValue_digitChar hd]
  · rintro ⟨hne, hall, rfl⟩
    induction cs using List.reverseRecOn with
    | nil => exact absurd rfl hne
    | append_singleton cs c ih =>
        rw [List.all_append, Bool.and_eq_true, List.all_cons, Bool.and_eq_true] at hall
        obtain ⟨hcs, hc, -⟩ := hall
        obtain ⟨d, hd, rfl⟩ := exists_digitChar hc
        rw [decimalValue_append_singleton, digitValue_digitChar hd]
        by_cases hnil : cs = []
        · subst hnil
          simpa [decimalValue] using Spells.digit hd
        · exact .further (ih hnil hcs) hd

theorem withoutPlus_of_head?_ne {cs : List Char} (h : cs.head? ≠ some '+') :
    withoutPlus cs = cs := by
  unfold withoutPlus
  split
  · simp at h
  · rfl

/-- A plus sign is no digit, so what is left of a count without the sign is its digits. -/
theorem spellsCount_iff {s : String} {n : Nat} :
    SpellsCount s n ↔ Spells (withoutPlus s.toList) n := by
  constructor
  · rintro ⟨cs, hcs, h | h⟩
    · rw [h, withoutPlus_of_head?_ne]
      · exact hcs
      · intro hplus
        have hall := (spells_iff.mp hcs).2.1
        have hdigit := List.all_eq_true.mp hall '+' (List.mem_of_head? hplus)
        exact absurd hdigit (by decide)
    · rwa [h, withoutPlus]
  · intro h
    refine ⟨_, h, ?_⟩
    unfold withoutPlus
    split
    · rename_i cs hcs
      exact .inr hcs
    · exact .inl rfl

theorem count?_eq_some_iff {s : String} {n : Nat} :
    count? s = some n ↔ SpellsCount s n ∧ n < wordBound := by
  rw [spellsCount_iff, spells_iff, count?]
  constructor
  · intro h
    split at h
    · rename_i hdigits
      cases h
      exact ⟨⟨hdigits.1, hdigits.2.1, rfl⟩, hdigits.2.2⟩
    · cases h
  · rintro ⟨⟨hne, hall, rfl⟩, hlt⟩
    exact if_pos ⟨hne, hall, hlt⟩

end LineShell.Text
