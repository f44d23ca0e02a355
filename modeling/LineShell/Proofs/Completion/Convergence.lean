import LineShell.Proofs.Completion.Row

/-!
Requests that follow one another, each for the line with the text in it that the one before has
put there. Text is inserted by the first of them or by none; after it the candidates are what they
were, and there is nothing left but the bell and the list by turns.
-/

namespace LineShell

/-- The line with the inserted text in it. -/
def Proposal.extend (input : String) : Proposal → String
  | .insert text => input ++ text
  | .nothing | .bell | .list _ => input

namespace Completion

/-- The engine and the line after so many requests, each for the line as it then is. -/
def pressed (search : SearchPath) (w : World) : Completion → String → Nat → Completion × String
  | c, input, 0 => (c, input)
  | c, input, n + 1 =>
      let r := complete search w c input
      pressed search w r.1 (r.2.extend input) n

/-- The answer to the request that comes after so many others. -/
def answer (search : SearchPath) (w : World) (c : Completion) (input : String) (n : Nat) :
    Proposal :=
  let state := pressed search w c input n
  (complete search w state.1 state.2).2

/-- What the engine counts at the request that comes after so many others. -/
def count (search : SearchPath) (w : World) (c : Completion) (input : String) (n : Nat) : Nat :=
  let state := pressed search w c input n
  (state.1.press state.2).presses

/-- The bell and the list by turns, the bell first. -/
def byTurns (names : List String) (n : Nat) : Proposal :=
  if n % 2 = 0 then .bell else .list names

/-- The turn that the next request has, if nothing can be inserted for it. -/
def turn (c : Completion) (input : String) : Nat :=
  if (c.press input).presses = 1 then 0 else 1

/-- One candidate, or several with a start in common that is longer than the input. -/
def Extends (names : List String) (input : String) : Prop :=
  (∃ name, names = [name]) ∨
    2 ≤ names.length ∧ ∃ q, Text.IsSharedStart names q ∧ input.length < q.length

/-- The largest count that there is room for. -/
def countLimit : Nat := 4294967295

variable {search : SearchPath} {w : World} {c c' : Completion} {input : String} {p : Proposal}

theorem presses_press_le_succ (c : Completion) (input : String) :
    (c.press input).presses ≤ c.presses + 1 := by
  rw [presses_press]
  split <;> omega

theorem extend_byTurns (input : String) (names : List String) (n : Nat) :
    (byTurns names n).extend input = input := by
  unfold byTurns
  split <;> rfl

theorem byTurns_congr (names : List String) {m n : Nat} (h : m % 2 = n % 2) :
    byTurns names m = byTurns names n := by
  rw [byTurns, byTurns, h]

theorem byTurns_ne_insert (names : List String) (n : Nat) (text : String) :
    byTurns names n ≠ .insert text := by
  unfold byTurns
  split <;> simp

section step

variable (h : complete search w c input = (c', p))

include h

theorem answer_zero : answer search w c input 0 = p := by
  simp only [answer, pressed, h]

theorem answer_succ (n : Nat) :
    answer search w c input (n + 1) = answer search w c' (p.extend input) n := by
  simp only [answer, pressed, h]

theorem count_succ (n : Nat) :
    count search w c input (n + 1) = count search w c' (p.extend input) n := by
  simp only [count, pressed, h]

end step

/-! A line that is no word -/

theorem not_isWord_append_blank (s : String) : ¬IsWord (s ++ " ") :=
  fun h => h.2.1 (by simp)

section notWord

variable (search w) (hopen : ¬IsWord input)

include hopen

theorem answer_of_not_isWord (c : Completion) (n : Nat) :
    answer search w c input n = .nothing := by
  have hcomplete := complete_of_not_isWord search w c hopen
  induction n with
  | zero => exact answer_zero hcomplete
  | succ n ih => exact (answer_succ hcomplete n).trans ih

theorem count_of_not_isWord (c : Completion) (n : Nat) :
    count search w c input n ≤ c.presses + 1 := by
  have hcomplete := complete_of_not_isWord search w c hopen
  induction n with
  | zero => exact presses_press_le_succ c input
  | succ n ih =>
      rw [count_succ hcomplete]
      exact ih

end notWord

/-! A word -/

/-- The start that all candidates share has the same candidates. -/
theorem candidates_of_sharedStart {q : String}
    (hs : Text.IsSharedStart (candidates search w input) q) :
    candidates search w q = candidates search w input := by
  have hfirst := areCandidates_candidates search w input
  have hbegins : Text.begins input q = true :=
    hs.longest input fun name hname => ((hfirst.mem_iff name).mp hname).1
  refine (areCandidates_candidates search w q).unique ⟨hfirst.ascending, fun name => ?_⟩
  rw [hfirst.mem_iff]
  refine and_congr_left fun hknown => ⟨fun h => ?_, fun h => ?_⟩
  · exact hs.begins name ((hfirst.mem_iff name).mpr ⟨h, hknown⟩)
  · exact Text.begins_iff.mpr ((Text.begins_iff.mp hbegins).trans (Text.begins_iff.mp h))

theorem stuck_of_sharedStart {q : String} (hn : 2 ≤ (candidates search w input).length)
    (hs : Text.IsSharedStart (candidates search w input) q) : Stuck (candidates search w q) q := by
  rw [candidates_of_sharedStart hs]
  exact ⟨hn, hs⟩

section word

variable (hword : IsWord input)

include hword

theorem comes_candidates (search : SearchPath) (w : World) (c : Completion) :
    Comes c input (candidates search w input) (complete search w c input) :=
  comes_complete c hword (fun _ => Iff.rfl) (areCandidates_candidates search w input)

theorem complete_of_unknown (hnames : candidates search w input = []) (c : Completion) :
    complete search w c input = (c.press input, .bell) := by
  have hcomes := comes_candidates hword search w c
  rw [hnames] at hcomes
  generalize complete search w c input = r at hcomes
  cases hcomes with
  | unknown => rfl
  | further hn => simp at hn
  | bell h | list h => simp [Stuck] at h

theorem answer_of_unknown (hnames : candidates search w input = []) (c : Completion) (n : Nat) :
    answer search w c input n = .bell := by
  induction n generalizing c with
  | zero => exact answer_zero (complete_of_unknown hword hnames c)
  | succ n ih => exact (answer_succ (complete_of_unknown hword hnames c) n).trans (ih _)

/-- Where nothing can be inserted the turns go on. -/
theorem complete_of_stuck (hs : Stuck (candidates search w input) input) (c : Completion) :
    ∃ c', c'.turn input = 1 - c.turn input ∧ (c'.press input).presses ≤ 2 ∧
      complete search w c input = (c', byTurns (candidates search w input) (c.turn input)) := by
  have hcomes := comes_candidates hword search w c
  have hpresses := hcomes.presses_press_of_stuck hs
  refine ⟨_, ?_, ?_, Prod.ext rfl ?_⟩
  · rw [turn, hpresses, turn]
    split <;> rfl
  · rw [hpresses]
    split <;> decide
  · generalize complete search w c input = r at hcomes
    generalize candidates search w input = names at hs hcomes
    cases hcomes with
    | unknown | whole => simp [Stuck] at hs
    | further _ hs' hr => exact absurd hs' (hs.not_further hr)
    | bell _ hp => rw [turn, if_pos hp]; rfl
    | list _ hp => rw [turn, if_neg hp]; rfl

theorem answer_of_stuck (hs : Stuck (candidates search w input) input) (c : Completion)
    (n : Nat) :
    answer search w c input n = byTurns (candidates search w input) (c.turn input + n) := by
  induction n generalizing c with
  | zero =>
      obtain ⟨c', -, -, hcomplete⟩ := complete_of_stuck hword hs c
      exact answer_zero hcomplete
  | succ n ih =>
      obtain ⟨c', hturn, -, hcomplete⟩ := complete_of_stuck hword hs c
      have hle : c.turn input ≤ 1 := by
        rw [turn]
        split <;> decide
      rw [answer_succ hcomplete, extend_byTurns, ih c', hturn]
      exact byTurns_congr _ (by omega)

theorem count_of_stuck (hs : Stuck (candidates search w input) input) (c : Completion) (n : Nat) :
    count search w c input n ≤ max (c.press input).presses 2 := by
  induction n generalizing c with
  | zero => exact Nat.le_max_left _ _
  | succ n ih =>
      obtain ⟨c', -, hle, hcomplete⟩ := complete_of_stuck hword hs c
      rw [count_succ hcomplete, extend_byTurns]
      have hrest := ih c'
      omega

section further

variable {q : String} (hn : 2 ≤ (candidates search w input).length)
  (hs : Text.IsSharedStart (candidates search w input) q) (hlen : input.length < q.length)

include hn hs hlen

theorem complete_of_further (c : Completion) :
    ∃ text, input ++ text = q ∧ complete search w c input = (⟨q, 0⟩, .insert text) := by
  have hcomes := comes_candidates hword search w c
  have hnot : ¬Stuck (candidates search w input) input := fun h => by
    rw [h.2.unique hs] at hlen
    exact Nat.lt_irrefl _ hlen
  generalize complete search w c input = r at hcomes
  generalize candidates search w input = names at hn hs hnot hcomes
  cases hcomes with
  | unknown | whole => simp at hn
  | @further _ rest _ hs' _ =>
      obtain rfl := hs.unique hs'
      exact ⟨rest, rfl, rfl⟩
  | bell h | list h => exact absurd h hnot

end further

theorem complete_of_whole {name : String} (hone : candidates search w input = [name])
    (c : Completion) :
    ∃ text, input ++ text = name ++ " " ∧
      complete search w c input = (⟨input, 0⟩, .insert text) := by
  have hcomes := comes_candidates hword search w c
  rw [hone] at hcomes
  generalize complete search w c input = r at hcomes
  cases hcomes with
  | @whole _ rest hname => exact ⟨rest ++ " ", by rw [hname, String.append_assoc], rfl⟩
  | further hn => simp at hn
  | bell h | list h => simp [Stuck] at h

theorem answer_behind_further {q : String} (hn : 2 ≤ (candidates search w input).length)
    (hs : Text.IsSharedStart (candidates search w input) q) (hlen : input.length < q.length)
    (hq : IsWord q) (c : Completion) (n : Nat) :
    answer search w c input (n + 1) = byTurns (candidates search w input) n := by
  obtain ⟨text, hline, hcomplete⟩ := complete_of_further hword hn hs hlen c
  have hstuck := stuck_of_sharedStart hn hs
  have hturn : turn ⟨q, 0⟩ q = 0 := by simp [turn, presses_press]
  rw [answer_succ hcomplete, Proposal.extend, hline, answer_of_stuck hq hstuck, hturn,
    Nat.zero_add, candidates_of_sharedStart hs]

theorem answer_behind_further_open {q : String} (hn : 2 ≤ (candidates search w input).length)
    (hs : Text.IsSharedStart (candidates search w input) q) (hlen : input.length < q.length)
    (hq : ¬IsWord q) (c : Completion) (n : Nat) :
    answer search w c input (n + 1) = .nothing := by
  obtain ⟨text, hline, hcomplete⟩ := complete_of_further hword hn hs hlen c
  rw [answer_succ hcomplete, Proposal.extend, hline]
  exact answer_of_not_isWord search w hq _ n

theorem answer_behind_whole {name : String} (hone : candidates search w input = [name])
    (c : Completion) (n : Nat) : answer search w c input (n + 1) = .nothing := by
  obtain ⟨text, hline, hcomplete⟩ := complete_of_whole hword hone c
  rw [answer_succ hcomplete, Proposal.extend, hline]
  exact answer_of_not_isWord search w (not_isWord_append_blank name) _ n

theorem stuck_or_extends (search : SearchPath) (w : World) :
    candidates search w input = [] ∨ Stuck (candidates search w input) input ∨
      Extends (candidates search w input) input := by
  have hcomes := comes_candidates hword search w {}
  generalize complete search w {} input = r at hcomes
  generalize candidates search w input = names at hcomes
  cases hcomes with
  | unknown => exact .inl rfl
  | whole => exact .inr (.inr (.inl ⟨_, rfl⟩))
  | further hn hs hr => exact .inr (.inr (.inr ⟨hn, _, hs, length_lt_append_iff.mpr hr⟩))
  | bell h | list h => exact .inr (.inl h)

/-- Behind an insertion nothing more can be inserted, and counting starts anew. -/
theorem exists_behind (hextends : Extends (candidates search w input) input) (c : Completion) :
    ∃ text last, complete search w c input = (⟨last, 0⟩, .insert text) ∧
      (¬IsWord (input ++ text) ∨ Stuck (candidates search w (input ++ text)) (input ++ text)) := by
  obtain ⟨name, hone⟩ | ⟨hn, q, hs, hlen⟩ := hextends
  · obtain ⟨text, hline, hcomplete⟩ := complete_of_whole hword hone c
    exact ⟨text, input, hcomplete, .inl (hline ▸ not_isWord_append_blank name)⟩
  · obtain ⟨text, rfl, hcomplete⟩ := complete_of_further hword hn hs hlen c
    exact ⟨text, _, hcomplete, .inr (stuck_of_sharedStart hn hs)⟩

theorem answer_succ_ne_insert (hextends : Extends (candidates search w input) input)
    (c : Completion) (n : Nat) (text : String) :
    answer search w c input (n + 1) ≠ .insert text := by
  obtain ⟨first, last, hcomplete, hrest⟩ := exists_behind hword hextends c
  rw [answer_succ hcomplete, Proposal.extend]
  by_cases hline : IsWord (input ++ first)
  · rw [answer_of_stuck hline (hrest.resolve_left (not_not_intro hline))]
    exact byTurns_ne_insert _ _ text
  · simp [answer_of_not_isWord search w hline]

theorem count_le_of_ne_nil (hne : candidates search w input ≠ []) (c : Completion) (n : Nat) :
    count search w c input n ≤ max (c.presses + 1) 2 := by
  have hfirst := presses_press_le_succ c input
  obtain hnil | hs | hextends := stuck_or_extends hword search w
  · exact absurd hnil hne
  · exact Nat.le_trans (count_of_stuck hword hs c n) (by omega)
  · cases n with
    | zero => exact Nat.le_trans hfirst (Nat.le_max_left _ _)
    | succ n =>
        obtain ⟨text, last, hcomplete, hrest⟩ := exists_behind hword hextends c
        rw [count_succ hcomplete, Proposal.extend]
        refine Nat.le_trans ?_ (Nat.le_max_right _ _)
        have hnew : ((Completion.mk last 0).press (input ++ text)).presses ≤ 1 :=
          presses_press_le_succ ⟨last, 0⟩ (input ++ text)
        by_cases hline : IsWord (input ++ text)
        · have hs := hrest.resolve_left (not_not_intro hline)
          exact Nat.le_trans (count_of_stuck hline hs _ n) (by omega)
        · exact Nat.le_trans (count_of_not_isWord search w hline ⟨last, 0⟩ n)
            (Nat.le_succ 1)

end word

theorem eq_zero_of_insert {n : Nat} {text : String}
    (h : answer search w c input n = .insert text) :
    n = 0 ∧ IsWord input ∧ Extends (candidates search w input) input := by
  by_cases hword : IsWord input
  · obtain hnil | hs | hextends := stuck_or_extends hword search w
    · rw [answer_of_unknown hword hnil] at h
      cases h
    · rw [answer_of_stuck hword hs] at h
      exact absurd h (byTurns_ne_insert _ _ text)
    · cases n with
      | zero => exact ⟨rfl, hword, hextends⟩
      | succ n => exact absurd h (answer_succ_ne_insert hword hextends c n text)
  · rw [answer_of_not_isWord search w hword] at h
    cases h

theorem presses_complete_le (search : SearchPath) (w : World) (c : Completion) (input : String) :
    (complete search w c input).1.presses ≤ c.presses + 1 := by
  by_cases hword : IsWord input
  · have hcomes := comes_candidates hword search w c
    have hfirst := presses_press_le_succ c input
    generalize complete search w c input = r at hcomes
    generalize candidates search w input = names at hcomes
    cases hcomes with
    | unknown | bell => exact hfirst
    | whole | further | list => exact Nat.zero_le _
  · rw [complete_of_not_isWord search w c hword]
    exact Nat.le_succ _

theorem count_le (search : SearchPath) (w : World) (c : Completion) (input : String) (n : Nat) :
    count search w c input n ≤ c.presses + n + 1 := by
  induction n generalizing c input with
  | zero => exact presses_press_le_succ c input
  | succ n ih =>
      obtain ⟨c', p, hcomplete⟩ : ∃ c' p, complete search w c input = (c', p) := ⟨_, _, rfl⟩
      have hnext : c'.presses ≤ c.presses + 1 := by
        have hle := presses_complete_le search w c input
        rwa [hcomplete] at hle
      have hrest := ih c' (p.extend input)
      rw [count_succ hcomplete]
      omega

/-- Requests that are repeated insert text at the first one or not at all. A start that several
candidates share and that is longer than the input goes in, and then has the same candidates; as
long as it is a word, they are listed at every other request from then on. A single candidate
goes in with a space, and that is all. There is always room for the count, unless there is no
candidate; then there is room for as many requests as it can still count. -/
theorem repeated_requests_converge (search : SearchPath) (w : World) (c : Completion)
    (input : String) :
    let names := candidates search w input
    let answers := answer search w c input
    (∀ n text, answers n = .insert text → n = 0 ∧ IsWord input ∧ Extends names input) ∧
    (∀ q, IsWord input → 2 ≤ names.length → Text.IsSharedStart names q →
      input.length < q.length →
      (∃ text, answers 0 = .insert text ∧ input ++ text = q) ∧
      candidates search w q = names ∧
      (IsWord q → ∀ n, answers (n + 1) = byTurns names n) ∧
      (¬IsWord q → ∀ n, answers (n + 1) = .nothing)) ∧
    (∀ name, IsWord input → names = [name] →
      (∃ text, answers 0 = .insert text ∧ input ++ text = name ++ " ") ∧
      ∀ n, answers (n + 1) = .nothing) ∧
    (c.presses < countLimit → names ≠ [] → ∀ n, count search w c input n ≤ countLimit) ∧
    ∀ n, c.presses + n < countLimit → count search w c input n ≤ countLimit := by
  intro names answers
  refine ⟨fun n text => eq_zero_of_insert, fun q hword hn hs hlen => ⟨?_, ?_, ?_, ?_⟩,
    fun name hword hone => ⟨?_, answer_behind_whole hword hone c⟩, fun hroom hne n => ?_,
    fun n hroom => ?_⟩
  · obtain ⟨text, hline, hcomplete⟩ := complete_of_further hword hn hs hlen c
    exact ⟨text, answer_zero hcomplete, hline⟩
  · exact candidates_of_sharedStart hs
  · exact fun hq => answer_behind_further hword hn hs hlen hq c
  · exact fun hq => answer_behind_further_open hword hn hs hlen hq c
  · obtain ⟨text, hline, hcomplete⟩ := complete_of_whole hword hone c
    exact ⟨text, answer_zero hcomplete, hline⟩
  · have htwo : 2 ≤ countLimit := by decide
    by_cases hword : IsWord input
    · have hle := count_le_of_ne_nil hword hne c n
      omega
    · have hle := count_of_not_isWord search w hword c n
      omega
  · exact Nat.le_trans (count_le search w c input n) hroom

/-- One more request and the count of the engine would be full, but what two programs share is put
in. From then on there are the bell and the list. -/
theorem repeated_requests_list_two_programs :
    let search : SearchPath := ⟨["d"], by decide⟩
    let w : World := ⟨⟨#[.directory [("d", 1)] 0, .directory [("xyz_foo", 2), ("xyz_b", 2)] 0,
      .file [] 0o755]⟩, Tree.root⟩
    let c : Completion := ⟨"xy", 4294967294⟩
    let names := candidates search w "xy"
    IsWord "xy" ∧ 2 ≤ names.length ∧ Text.IsSharedStart names "xyz_" ∧ IsWord "xyz_" ∧
    c.presses < countLimit ∧
    (∀ n, answer search w c "xy" (n + 1) = byTurns ["xyz_b", "xyz_foo"] n) ∧
    (∀ n, count search w c "xy" n ≤ countLimit) ∧
    names = ["xyz_b", "xyz_foo"] ∧ answer search w c "xy" 0 = .insert "z_" := by
  intro search w c names
  have hnames : names = ["xyz_b", "xyz_foo"] := by decide +kernel
  have hword : IsWord "xy" := by decide
  have hq : IsWord "xyz_" := by decide
  have hn : 2 ≤ names.length := by rw [hnames]; decide
  have hs : Text.IsSharedStart names "xyz_" := by
    rw [hnames]
    exact Text.isSharedStart_sharedStart (List.cons_ne_nil _ _)
  have hroom : c.presses < countLimit := by decide
  obtain ⟨-, hfurther, -, hcount, -⟩ := repeated_requests_converge search w c "xy"
  obtain ⟨-, -, hturns, -⟩ := hfurther "xyz_" hword hn hs (by decide)
  refine ⟨hword, hn, hs, hq, hroom, fun n => ?_, hcount hroom ?_, hnames, by decide +kernel⟩
  · rw [← hnames]
    exact hturns hq n
  · exact fun hnil => absurd (hnames.symm.trans hnil) (List.cons_ne_nil _ _)

end Completion

end LineShell
