import LineShell.Proofs.Completion.Candidates

/-!
The answers over a whole run of requests. What the engine remembers, the last input and a count
that some answers reset, always comes to this: at an input that cannot be completed any further
the odd requests of a row ring the bell and the even ones list the candidates.
-/

namespace LineShell.Completion

/-- A word that is not finished yet. Requests for anything else do not count. -/
def IsWord (input : String) : Prop :=
  input ≠ "" ∧ ' ' ∉ input.toList ∧ '\t' ∉ input.toList

instance : DecidablePred IsWord := fun input =>
  inferInstanceAs (Decidable (input ≠ "" ∧ ' ' ∉ input.toList ∧ '\t' ∉ input.toList))

/-- How many of the requests that count, from the last one back, were for this input. -/
def row (earlier : List String) (input : String) : Nat :=
  ((earlier.filter (IsWord ·)).reverse.takeWhile (· = input)).length

/-- The answer to request number `n` of a row for an input with these candidates. -/
inductive Answers (input : String) (n : Nat) : List String → Proposal → Prop
  | unknown : Answers input n [] .bell
  | whole {name rest} (hname : name = input ++ rest) :
      Answers input n [name] (.insert (rest ++ " "))
  | further {names rest} (hn : 2 ≤ names.length) (hs : Text.IsSharedStart names (input ++ rest))
      (hr : rest ≠ "") : Answers input n names (.insert rest)
  | stuck {names} (hn : 2 ≤ names.length) (hs : Text.IsSharedStart names input)
      (odd : n % 2 = 1) : Answers input n names .bell
  | shown {names} (hn : 2 ≤ names.length) (hs : Text.IsSharedStart names input)
      (even : n % 2 = 0) : Answers input n names (.list names)

/-- The engine after some requests, each with the files as they were then. -/
def remembered (search : SearchPath) (requests : List (World × String)) : Completion :=
  requests.foldl (fun c r => (complete search r.1 c r.2).1) {}

/-! The row -/

theorem row_concat_self {earlier : List String} {input : String} (h : IsWord input) :
    row (earlier ++ [input]) input = row earlier input + 1 := by
  simp [row, h]

theorem row_concat_of_ne {earlier : List String} {last input : String} (h : IsWord last)
    (hne : last ≠ input) : row (earlier ++ [last]) input = 0 := by
  simp [row, h, hne]

theorem row_concat_of_not_isWord {earlier : List String} {last : String} (h : ¬IsWord last)
    (input : String) : row (earlier ++ [last]) input = row earlier input := by
  simp [row, h]

theorem isOpen_iff {input : String} : isOpen input = true ↔ ¬IsWord input := by
  simp only [isOpen, IsWord, Line.separates, Bool.or_eq_true, beq_iff_eq, List.any_eq_true]
  constructor
  · rintro (rfl | ⟨c, hc, rfl | rfl⟩) ⟨hne, hs, ht⟩
    · exact hne rfl
    · exact hs hc
    · exact ht hc
  · intro h
    by_cases hne : input = ""
    · exact .inl hne
    · by_cases hs : ' ' ∈ input.toList
      · exact .inr ⟨' ', hs, .inl rfl⟩
      · by_cases ht : '\t' ∈ input.toList
        · exact .inr ⟨'\t', ht, .inr rfl⟩
        · exact absurd ⟨hne, hs, ht⟩ h

/-! One answer -/

/-- There are several candidates, and they have no longer start in common than the input. -/
def Stuck (names : List String) (input : String) : Prop :=
  2 ≤ names.length ∧ Text.IsSharedStart names input

section

variable {input : String} {n : Nat} {names : List String} {p p' : Proposal}

theorem Stuck.not_further (h : Stuck names input) {rest : String} (hr : rest ≠ "") :
    ¬Text.IsSharedStart names (input ++ rest) := by
  intro hs
  exact hr (String.append_eq_left_iff.mp (hs.unique h.2))

theorem Answers.unique (h : Answers input n names p) (h' : Answers input n names p') : p = p' := by
  cases h with
  | unknown =>
      cases h' with
      | unknown => rfl
      | further hn | stuck hn | shown hn => simp at hn
  | whole hname =>
      cases h' with
      | whole hname' => rw [(String.append_right_inj input).mp (hname.symm.trans hname')]
      | further hn | stuck hn | shown hn => simp at hn
  | further hn hs hr =>
      cases h' with
      | unknown | whole => simp at hn
      | further _ hs' => rw [(String.append_right_inj input).mp (hs.unique hs')]
      | stuck hn hs' | shown hn hs' => exact absurd hs (Stuck.not_further ⟨hn, hs'⟩ hr)
  | stuck hn hs odd =>
      cases h' with
      | unknown => rfl
      | whole => simp at hn
      | further _ hs' hr => exact absurd hs' (Stuck.not_further ⟨hn, hs⟩ hr)
      | stuck => rfl
      | shown _ _ even => omega
  | shown hn hs even =>
      cases h' with
      | unknown | whole => simp at hn
      | further _ hs' hr => exact absurd hs' (Stuck.not_further ⟨hn, hs⟩ hr)
      | stuck _ _ odd => omega
      | shown => rfl

end

/-! One request -/

theorem presses_press (c : Completion) (input : String) :
    (c.press input).presses = if c.last = input then c.presses + 1 else 1 := by
  unfold press
  split <;> rfl

theorem last_press (c : Completion) (input : String) : (c.press input).last = input := by
  unfold press
  split
  · assumption
  · rfl

/-- All that a request for a word with these candidates can come to. -/
inductive Comes (c : Completion) (input : String) :
    List String → Completion × Proposal → Prop
  | unknown : Comes c input [] (c.press input, .bell)
  | whole {name rest} (hname : name = input ++ rest) :
      Comes c input [name] (⟨input, 0⟩, .insert (rest ++ " "))
  | further {names rest} (hn : 2 ≤ names.length) (hs : Text.IsSharedStart names (input ++ rest))
      (hr : rest ≠ "") : Comes c input names (⟨input ++ rest, 0⟩, .insert rest)
  | bell {names} (h : Stuck names input) (hp : (c.press input).presses = 1) :
      Comes c input names (c.press input, .bell)
  | list {names} (h : Stuck names input) (hp : (c.press input).presses ≠ 1) :
      Comes c input names (⟨input, 0⟩, .list names)

theorem length_lt_append_iff {input rest : String} :
    input.length < (input ++ rest).length ↔ rest ≠ "" := by
  rw [String.length_append, Nat.lt_add_right_iff_pos, Nat.pos_iff_ne_zero, Ne,
    String.length_eq_zero_iff]

theorem comes_propose (c : Completion) {input : String} {names : List String}
    (hbegins : ∀ name ∈ names, Text.begins input name = true) :
    Comes c input names ((c.press input).propose input names) := by
  have hlast := c.last_press input
  match names with
  | [] => exact .unknown
  | [name] =>
      have hname := Text.eq_append_after (hbegins name List.mem_cons_self)
      rw [propose, hlast]
      exact .whole hname
  | first :: second :: names =>
      have hn : 2 ≤ (first :: second :: names).length := by simp
      have hs := Text.isSharedStart_sharedStart (List.cons_ne_nil first (second :: names))
      have hcommon := Text.eq_append_after (hs.longest input hbegins)
      generalize Text.after input.length (Text.sharedStart (first :: second :: names)) = rest
        at hcommon
      rw [hcommon] at hs
      simp only [propose, hcommon, Text.after_append, length_lt_append_iff]
      by_cases hr : rest = ""
      · rw [hr, String.append_empty] at hs
        simp only [hr, ne_eq, not_true_eq_false, if_false]
        split
        · rename_i hp
          exact .bell ⟨hn, hs⟩ hp
        · rename_i hp
          rw [hlast]
          exact .list ⟨hn, hs⟩ hp
      · rw [if_pos hr]
        exact .further hn hs hr

/-- The answer is the one for the place that the count stands for. -/
theorem Comes.answers {c : Completion} {input : String} {names : List String}
    {r : Completion × Proposal} (h : Comes c input names r) {n : Nat}
    (hn : Stuck names input → (c.press input).presses = n % 2 + 1) :
    Answers input (n + 1) names r.2 := by
  cases h with
  | unknown => exact .unknown
  | whole hname => exact .whole hname
  | further hn hs hr => exact .further hn hs hr
  | bell h hp =>
      have hpar := hn h
      exact .stuck h.1 h.2 (by omega)
  | list h hp =>
      have hpar := hn h
      exact .shown h.1 h.2 (by omega)

/-- Only the input of the request, which is counted further, can have a count left. -/
theorem Comes.presses_press_of_ne {c : Completion} {last input : String} {names : List String}
    {r : Completion × Proposal} (h : Comes c last names r) (hne : last ≠ input) :
    (r.1.press input).presses = 1 := by
  rw [presses_press]
  cases h with
  | unknown | bell => rw [last_press, if_neg hne]
  | whole | list => rw [if_neg hne]
  | further => split <;> rfl

theorem Comes.presses_press_le {c : Completion} {input : String} {names : List String}
    {r : Completion × Proposal} (h : Comes c input names r) :
    (r.1.press input).presses ≤ (c.press input).presses + 1 := by
  rw [presses_press r.1]
  cases h with
  | unknown | bell => exact Nat.le_of_eq (by rw [last_press, if_pos rfl])
  | whole | list => simp
  | further => split <;> simp

/-- Bell and list take turns. -/
theorem Comes.presses_press_of_stuck {c : Completion} {input : String} {names : List String}
    {r : Completion × Proposal} (h : Comes c input names r) (hs : Stuck names input) :
    (r.1.press input).presses = if (c.press input).presses = 1 then 2 else 1 := by
  rw [presses_press r.1]
  cases h with
  | unknown | whole => simp [Stuck] at hs
  | further _ hs' hr => exact absurd hs' (hs.not_further hr)
  | bell _ hp => rw [last_press, if_pos rfl, if_pos hp, hp]
  | list _ hp => rw [if_pos rfl, if_neg hp]

/-! A run of requests -/

/-- What the engine would count for the next request of each word, after these requests. -/
structure Counts (offers : String → List String) (earlier : List String) (c : Completion) :
    Prop where
  le_row : ∀ input, IsWord input → (c.press input).presses ≤ row earlier input + 1
  parity : ∀ input, IsWord input → Stuck (offers input) input →
    (c.press input).presses = row earlier input % 2 + 1

variable {offers : String → List String} {earlier : List String} {c : Completion}

theorem counts_start (offers : String → List String) : Counts offers [] {} where
  le_row input _ := by
    rw [presses_press]
    split <;> simp
  parity input hword _ := by
    have hne : "" ≠ input := fun he => hword.1 he.symm
    rw [presses_press, if_neg hne]
    rfl

theorem Counts.step (h : Counts offers earlier c) {last : String} (hlast : IsWord last)
    {r : Completion × Proposal} (hr : Comes c last (offers last) r) :
    Counts offers (earlier ++ [last]) r.1 where
  le_row input hword := by
    by_cases hne : last = input
    · subst hne
      have hle := h.le_row last hword
      have hnext := hr.presses_press_le
      rw [row_concat_self hlast]
      omega
    · rw [hr.presses_press_of_ne hne]
      omega
  parity input hword hs := by
    by_cases hne : last = input
    · subst hne
      have hpar := h.parity last hword hs
      rw [hr.presses_press_of_stuck hs, row_concat_self hlast]
      split <;> omega
    · rw [hr.presses_press_of_ne hne, row_concat_of_ne hlast hne]

theorem Counts.skip (h : Counts offers earlier c) {last : String} (hlast : ¬IsWord last) :
    Counts offers (earlier ++ [last]) c where
  le_row input := by
    rw [row_concat_of_not_isWord hlast]
    exact h.le_row input
  parity input := by
    rw [row_concat_of_not_isWord hlast]
    exact h.parity input

theorem complete_of_not_isWord (search : SearchPath) (w : World) (c : Completion) {input : String}
    (h : ¬IsWord input) : complete search w c input = (c, .nothing) := by
  rw [complete, if_pos (isOpen_iff.mpr h)]

theorem comes_complete {search : SearchPath} {w : World} (c : Completion) {input : String}
    (h : IsWord input) {known : String → Prop} (hk : ∀ name, search.Offers w name ↔ known name)
    {names : List String} (hnames : AreCandidates known input names) :
    Comes c input names (complete search w c input) := by
  have hsame : candidates search w input = names :=
    ((areCandidates_candidates search w input).congr hk).unique hnames
  have hopen : ¬isOpen input = true := fun ho => isOpen_iff.mp ho h
  rw [complete, if_neg hopen, hsame]
  exact comes_propose c fun name hname => ((hnames.mem_iff name).mp hname).1

/-- The induction is on the requests still to come, after any that have gone before. -/
theorem Counts.run {search : SearchPath} {known : String → Prop}
    (hoffers : ∀ input, AreCandidates known input (offers input))
    {requests : List (World × String)}
    (hk : ∀ r ∈ requests, ∀ name, search.Offers r.1 name ↔ known name)
    (h : Counts offers earlier c) :
    Counts offers (earlier ++ requests.map Prod.snd)
      (requests.foldl (fun c r => (complete search r.1 c r.2).1) c) := by
  induction requests generalizing earlier c with
  | nil => rwa [List.map_nil, List.append_nil]
  | cons r requests ih =>
      have hr := hk r List.mem_cons_self
      have hstep : Counts offers (earlier ++ [r.2]) (complete search r.1 c r.2).1 := by
        by_cases hword : IsWord r.2
        · exact h.step hword (comes_complete c hword hr (hoffers r.2))
        · rw [complete_of_not_isWord _ _ _ hword]
          exact h.skip hword
      have hrest := ih (fun r' hr' => hk r' (List.mem_cons_of_mem r hr')) hstep
      rwa [List.append_assoc] at hrest

theorem counts_remembered {search : SearchPath} {known : String → Prop}
    (hoffers : ∀ input, AreCandidates known input (offers input))
    {requests : List (World × String)}
    (hk : ∀ r ∈ requests, ∀ name, search.Offers r.1 name ↔ known name) :
    Counts offers (requests.map Prod.snd) (remembered search requests) :=
  (counts_start offers).run hoffers hk

/-- The answer to any request of a run of a new engine, where the same programs are there all
the time. An input that is no word gets no answer and changes nothing. A word gets the answer
for its candidates and its place in the row of requests for it, and no count goes beyond that
place. -/
theorem complete_answers_by_row (search : SearchPath) {known : String → Prop}
    {offers : String → List String} {earlier : List (World × String)} {w : World}
    {input : String}
    (hk : ∀ r ∈ earlier ++ [(w, input)], ∀ name, search.Offers r.1 name ↔ known name)
    (hoffers : ∀ input, AreCandidates known input (offers input)) :
    let c := remembered search earlier
    let place := row (earlier.map Prod.snd) input + 1
    (¬IsWord input → complete search w c input = (c, .nothing)) ∧
      (IsWord input →
        (∀ p, Answers input place (offers input) p ↔ p = (complete search w c input).2) ∧
        (c.press input).presses ≤ place) := by
  have hc := counts_remembered hoffers fun r hr => hk r (List.mem_append_left _ hr)
  have hw := hk (w, input) (List.mem_append_right _ (List.mem_singleton_self _))
  refine ⟨complete_of_not_isWord search w _, fun hword => ⟨fun p => ?_, hc.le_row input hword⟩⟩
  have hanswer := (comes_complete (remembered search earlier) hword hw (hoffers input)).answers
    (hc.parity input hword)
  constructor
  · exact fun hp => hp.unique hanswer
  · rintro rfl
    exact hanswer

/-- The second request for a start that three programs have in common, with a longer request and
one that is no word in between, and with a file that is no program coming and going. -/
theorem complete_answers_list_behind_other_requests :
    let search : SearchPath := ⟨["d"], by decide⟩
    let w : World := ⟨⟨#[.directory [("d", 1)] 0, .directory [("foo2", 2), ("foo1", 2)] 0,
      .file [] 0o755]⟩, Tree.root⟩
    let w' : World := ⟨⟨#[.directory [("d", 1)] 0,
      .directory [("foo2", 2), ("foo3", 3), ("foo1", 2)] 0, .file [] 0o755, .file [] 0o644]⟩,
      Tree.root⟩
    let earlier := [(w, "foo"), (w', "foo1"), (w, "foo"), (w', "foo ")]
    (∀ r ∈ earlier ++ [(w, "foo")], ∀ name, search.Offers r.1 name ↔ search.Offers w name) ∧
    (∀ input, AreCandidates (search.Offers w) input (candidates search w input)) ∧
    IsWord "foo" ∧
    (complete search w (remembered search earlier) "foo").2 = .list ["foo1", "foo2"] := by
  intro search w w' earlier
  have hsame : search.programs w' "" = search.programs w "" := by decide +kernel
  have hk' : ∀ name, search.Offers w' name ↔ search.Offers w name := fun name => by
    have hb : Text.begins "" name = true := Text.begins_iff.mpr List.nil_prefix
    have hiff : name ∈ search.programs w' "" ↔ name ∈ search.programs w "" := by rw [hsame]
    simpa only [SearchPath.mem_programs, hb, true_and] using hiff
  have hk : ∀ r ∈ earlier ++ [(w, "foo")], ∀ name,
      search.Offers r.1 name ↔ search.Offers w name := by
    simp [earlier, hk']
  have hoffers := areCandidates_candidates search w
  have hword : IsWord "foo" := by decide
  have hnames : candidates search w "foo" = ["foo1", "foo2"] := by decide +kernel
  have hstart : Text.IsSharedStart ["foo1", "foo2"] "foo" :=
    Text.isSharedStart_sharedStart (by decide)
  have hanswer := (((complete_answers_by_row search hk hoffers).2 hword).1
    (.list ["foo1", "foo2"])).mp
  refine ⟨hk, hoffers, hword, (hanswer ?_).symm⟩
  rw [hnames]
  exact .shown (by decide) hstart (by decide)

end LineShell.Completion
