import LineShell.Proofs.Text.SharedStart
import LineShell.Text.Bytes

/-!
The shared start found by narrowing. The first text is compared with the others, one after the
other. As long as it does not begin the one that it is compared with, it loses its last character.
This comes to an end, and what is left is the shared start, whatever the order of the texts.
-/

namespace LineShell.Text

theorem begins_trans {p q s : String} (hp : begins p q = true) (hq : begins q s = true) :
    begins p s = true :=
  begins_iff.mpr ((begins_iff.mp hp).trans (begins_iff.mp hq))

theorem eq_of_begins_of_length_le {p s : String} (h : begins p s = true)
    (hlen : s.length ≤ p.length) : p = s :=
  String.toList_injective <| (begins_iff.mp h).eq_of_length_le <| by
    rwa [String.length_toList, String.length_toList]

theorem length_le_of_begins {p s : String} (h : begins p s = true) : p.length ≤ s.length := by
  rw [← String.length_toList, ← String.length_toList (s := s)]
  exact (begins_iff.mp h).length_le

def withoutLast (s : String) : String :=
  String.ofList s.toList.dropLast

theorem withoutLast_begins (s : String) : begins (withoutLast s) s = true := by
  rw [begins_iff, withoutLast, String.toList_ofList]
  exact List.dropLast_prefix s.toList

theorem length_withoutLast (s : String) : (withoutLast s).length = s.length - 1 := by
  rw [← String.length_toList, withoutLast, String.toList_ofList, List.length_dropLast,
    String.length_toList]

/-- Whatever begins a text is the whole text or still begins it without its last character. -/
theorem begins_withoutLast {p s : String} (h : begins p s = true) (hne : p ≠ s) :
    begins p (withoutLast s) = true := by
  have hs : s.toList ≠ [] := by
    intro hnil
    rw [begins_iff, hnil, List.prefix_nil] at h
    exact hne (String.toList_injective (h.trans hnil.symm))
  rw [begins_iff] at h ⊢
  rw [← List.dropLast_concat_getLast hs, List.prefix_concat_iff,
    List.dropLast_concat_getLast hs] at h
  rw [withoutLast, String.toList_ofList]
  exact h.resolve_left fun he => hne (String.toList_injective he)

/-- What is left of the first text, and the texts that it is still to be compared with. -/
structure Narrowing where
  start : String
  others : List String
  deriving DecidableEq, Repr

namespace Narrowing

def turn : Narrowing → Narrowing
  | ⟨start, []⟩ => ⟨start, []⟩
  | ⟨start, s :: others⟩ =>
      if begins start s then ⟨start, others⟩ else ⟨withoutLast start, s :: others⟩

/-- So many turns one after the other. When all texts have been compared, nothing changes any
more. -/
def turns : Nat → Narrowing → Narrowing
  | 0, state => state
  | n + 1, state => turns n state.turn

def texts (state : Narrowing) : List String :=
  state.start :: state.others

/-- What the texts share is not lost in a turn. -/
theorem isSharedStart_turn {state : Narrowing} {q : String} (h : IsSharedStart state.texts q) :
    IsSharedStart state.turn.texts q := by
  obtain ⟨start, others⟩ := state
  cases others with
  | nil => exact h
  | cons s others =>
      obtain ⟨hstart, hs, hothers⟩ :
          begins q start = true ∧ begins q s = true ∧ ∀ t ∈ others, begins q t = true := by
        simpa [texts] using h.begins
      rw [turn]
      split
      · rename_i hb
        refine ⟨List.forall_mem_cons.mpr ⟨hstart, hothers⟩, fun p hp => h.longest p ?_⟩
        obtain ⟨hp, hrest⟩ := List.forall_mem_cons.mp hp
        exact List.forall_mem_cons.mpr
          ⟨hp, List.forall_mem_cons.mpr ⟨begins_trans hp hb, hrest⟩⟩
      · rename_i hb
        have hne : q ≠ start := fun he => hb (he ▸ hs)
        refine ⟨List.forall_mem_cons.mpr
          ⟨begins_withoutLast hstart hne, List.forall_mem_cons.mpr ⟨hs, hothers⟩⟩,
          fun p hp => h.longest p ?_⟩
        obtain ⟨hp, hrest⟩ := List.forall_mem_cons.mp hp
        exact List.forall_mem_cons.mpr ⟨begins_trans hp (withoutLast_begins start), hrest⟩

/-- Each turn takes away a text or a character, until there is no text left. -/
theorem size_turn (start s : String) (others : List String) :
    (turn ⟨start, s :: others⟩).start.length + (turn ⟨start, s :: others⟩).others.length + 1 =
      start.length + (s :: others).length := by
  rw [turn]
  split
  · rfl
  · rename_i hb
    have hpos : start.length ≠ 0 := by
      intro h
      rw [String.length_eq_zero_iff.mp h] at hb
      exact hb (begins_iff.mpr List.nil_prefix)
    simp only [length_withoutLast, List.length_cons]
    omega

/-- The turns that it takes are the characters that are too many and the texts to compare with.
The induction is on the turns, and the shared start stays what it is. -/
theorem turns_eq_iff {state : Narrowing} {q : String} (h : IsSharedStart state.texts q) (n : Nat) :
    state.turns n = ⟨q, []⟩ ↔ state.start.length + state.others.length ≤ q.length + n := by
  induction n generalizing state with
  | zero =>
      obtain ⟨start, others⟩ := state
      have hstart : begins q start = true := h.begins start List.mem_cons_self
      rw [turns, Narrowing.mk.injEq]
      constructor
      · rintro ⟨rfl, rfl⟩
        exact Nat.le_refl _
      · intro hle
        dsimp only at hle
        have hlen := length_le_of_begins hstart
        exact ⟨(eq_of_begins_of_length_le hstart (by omega)).symm,
          List.eq_nil_of_length_eq_zero (by omega)⟩
  | succ n ih =>
      rw [turns, ih (isSharedStart_turn h)]
      obtain ⟨start, others⟩ := state
      cases others with
      | nil =>
          have hq : q = start := h.unique ⟨by simp [texts, begins_iff],
            fun p hp => hp start List.mem_cons_self⟩
          simp only [turn, hq, List.length_nil]
          omega
      | cons s others =>
          have hsize := size_turn start s others
          dsimp only
          omega

end Narrowing

/-- The text can be cut at this byte, and this is what stands behind it. -/
structure CutsAt (s : String) (n : Nat) (rest : String) : Prop where
  valid : (⟨n⟩ : String.Pos.Raw).IsValid s
  rest_eq : Bytes.text? ((Bytes.ofText s).drop n) = some rest

theorem length_ofText (s : String) : (Bytes.ofText s).length = s.utf8ByteSize := by
  rw [Bytes.ofText, Array.length_toList]
  exact String.size_toByteArray

theorem cutsAt_of_begins {input s : String} (h : begins input s = true) :
    CutsAt s input.utf8ByteSize (after input.length s) := by
  have hs := eq_append_after h
  refine ⟨String.Pos.Raw.isValid_iff_exists_append.mpr ⟨input, _, hs, rfl⟩, ?_⟩
  generalize after input.length s = rest at hs
  rw [hs, Bytes.ofText_append, ← length_ofText, List.drop_left, Bytes.text?_ofText]

theorem utf8ByteSize_lt_iff_of_begins {input s : String} (h : begins input s = true) :
    input.utf8ByteSize < s.utf8ByteSize ↔ input.length < s.length := by
  obtain ⟨rest, rfl⟩ : ∃ rest, s = input ++ rest := ⟨_, eq_append_after h⟩
  have hzero : rest.utf8ByteSize = 0 ↔ rest.length = 0 := by
    rw [String.utf8ByteSize_eq_zero_iff, String.length_eq_zero_iff]
  rw [String.utf8ByteSize_append, String.length_append]
  omega

theorem sharedStart_congr {texts texts' : List String} (hne : texts ≠ [])
    (h : ∀ s, s ∈ texts' ↔ s ∈ texts) : sharedStart texts' = sharedStart texts := by
  have hne' : texts' ≠ [] := by
    obtain ⟨s, hs⟩ := List.exists_mem_of_ne_nil texts hne
    exact List.ne_nil_of_mem ((h s).mpr hs)
  obtain ⟨hbegins, hlongest⟩ := isSharedStart_sharedStart hne'
  refine IsSharedStart.unique ⟨fun s hs => hbegins s ((h s).mpr hs), fun p hp => ?_⟩
    (isSharedStart_sharedStart hne)
  exact hlongest p fun s hs => hp s ((h s).mp hs)

/-- The start that texts share, at least one of them: narrowing the first down comes to it and
then stays there, all texts begin with it, and whatever begins all of them begins it. So the order
of the texts does not count, nor how often each is among them. If an input begins all of them, it
begins what they share, and where its bytes end all can be cut. -/
theorem sharedStart_is_greatest (first : String) (others : List String) :
    let texts := first :: others
    let q := sharedStart texts
    (∀ n, (Narrowing.mk first others).turns n = ⟨q, []⟩ ↔
      first.length + others.length ≤ q.length + n) ∧
    (∀ s ∈ texts, begins q s = true) ∧
    (∀ p, (∀ s ∈ texts, begins p s = true) → begins p q = true) ∧
    (∀ texts', (∀ s, s ∈ texts' ↔ s ∈ texts) → sharedStart texts' = q) ∧
    ∀ input, (∀ s ∈ texts, begins input s = true) →
      begins input q = true ∧
      (input.utf8ByteSize < q.utf8ByteSize ↔ input.length < q.length) ∧
      ∀ s ∈ q :: texts, CutsAt s input.utf8ByteSize (after input.length s) := by
  intro texts q
  have hne : texts ≠ [] := List.cons_ne_nil first others
  have hq : IsSharedStart texts q := isSharedStart_sharedStart hne
  refine ⟨Narrowing.turns_eq_iff hq, hq.begins, hq.longest,
    fun texts' h => sharedStart_congr hne h, fun input hinput => ?_⟩
  have hbegins := hq.longest input hinput
  refine ⟨hbegins, utf8ByteSize_lt_iff_of_begins hbegins, fun s hs => cutsAt_of_begins ?_⟩
  rcases List.mem_cons.mp hs with rfl | hs
  · exact hbegins
  · exact hinput s hs

/-- The first text loses two characters on the way past the two others. -/
theorem narrowing_ends_beyond_ascii :
    (Narrowing.mk "ünïx" ["ünö", "ün"]).turns 4 = ⟨"ün", []⟩ ∧
    sharedStart ["ün", "ünö", "ünïx", "ün"] = "ün" ∧
    (∀ s ∈ ["ünïx", "ünö", "ün"], begins "ü" s = true) ∧ CutsAt "ünö" 2 "nö" := by
  obtain ⟨hturns, -, -, hsame, hinput⟩ := sharedStart_is_greatest "ünïx" ["ünö", "ün"]
  have hq : sharedStart ["ünïx", "ünö", "ün"] = "ün" := by decide
  have hbegins : ∀ s ∈ ["ünïx", "ünö", "ün"], begins "ü" s = true := by decide
  rw [hq] at hturns hsame hinput
  refine ⟨(hturns 4).mpr (by decide), hsame _ fun s => ?_, hbegins, ?_⟩
  · grind
  · exact (hinput "ü" hbegins).2.2 "ünö" (by decide)

end LineShell.Text
