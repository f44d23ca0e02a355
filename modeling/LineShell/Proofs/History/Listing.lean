import LineShell.Builtin.Run
import LineShell.Proofs.Text.Counting

/-!
What `history` lists. A count smaller than the history leaves only so many entries at the end,
under the numbers they have in the whole; anything else leaves all of them.
-/

namespace LineShell

namespace History

/-- The lines of the whole listing, one for each entry with its number, the oldest being one. -/
structure IsListed (h : History) (lines : List String) : Prop where
  length : lines.length = h.entries.length
  line : ∀ i entry, h.entries[i]? = some entry →
    lines[i]? = some ("    " ++ toString (i + 1) ++ "  " ++ entry ++ "\n")

theorem isListed_mapIdx (h : History) : h.IsListed (h.entries.mapIdx entryLine) where
  length := List.length_mapIdx
  line i entry he := by rw [List.getElem?_mapIdx, he, Option.map_some, entryLine]

variable {h : History}

theorem skipped_of_lt {n : Nat} (hpos : 1 ≤ n) : h.skipped (some n) = h.entries.length - n := by
  rw [skipped, if_neg (by omega)]

theorem skipped_eq_zero {limit : Option Nat}
    (hlimit : ∀ n, limit = some n → n = 0 ∨ h.entries.length ≤ n) : h.skipped limit = 0 := by
  cases limit with
  | none => rfl
  | some n =>
      rw [skipped]
      split
      · rfl
      · have hn := hlimit n rfl
        omega

end History

namespace Builtin

/-- The words that ask for a transfer if a file follows them. -/
def transferWords : List String := ["-r", "-w", "-a"]

theorem transfer?_of_not_mem {option : String} (h : option ∉ transferWords) :
    transfer? option = none := by
  unfold transfer?
  split
  all_goals first | exact absurd (by decide) h | rfl

/-- Without a transfer the first argument, if there is one, is the limit. -/
theorem HistoryRequest.ofArguments_eq_listing {arguments : List String}
    (hplain : ∀ option file rest, arguments = option :: file :: rest → option ∉ transferWords) :
    ofArguments arguments = .listing (arguments.head?.bind Text.count?) := by
  match arguments, hplain with
  | [], _ => rfl
  | [limit], _ => rfl
  | option :: file :: rest, hplain =>
      simp [ofArguments, transfer?_of_not_mem (hplain option file rest rfl)]

/-- `history` without a transfer lists the last entries if its first argument is a count of fewer
than there are, and all of them if not; it changes nothing. There are never more entries than a
machine word can count. -/
theorem run_history_lists_last (setting : Setting) {h : History} (w : World)
    {arguments : List String}
    (hplain : ∀ option file rest, arguments = option :: file :: rest → option ∉ transferWords)
    (hword : h.entries.length ≤ Text.wordBound) :
    ∃ lines text, h.IsListed lines ∧
      run setting h w .history arguments = ⟨.ok text, h, w⟩ ∧
      (∀ s n, arguments.head? = some s → Text.SpellsCount s n → 1 ≤ n → n < h.entries.length →
        text = String.join (lines.drop (h.entries.length - n))) ∧
      ((∀ s n, arguments.head? = some s → Text.SpellsCount s n →
          n = 0 ∨ h.entries.length ≤ n) → text = String.join lines) ∧
      ∃ k, String.join lines = String.join (lines.take k) ++ text ∧
        text = String.join (lines.drop k) := by
  have hlisted := h.isListed_mapIdx
  have hrequest := HistoryRequest.ofArguments_eq_listing hplain
  generalize hlimit : arguments.head?.bind Text.count? = limit at hrequest
  refine ⟨_, h.listing limit, hlisted, ?_, fun s n hs hn hpos hlt => ?_, fun hall => ?_,
    h.skipped limit, ?_, rfl⟩
  · rw [run, hrequest, runHistory]
  · have hcount : Text.count? s = some n := Text.count?_eq_some_iff.mpr ⟨hn, by omega⟩
    have hsome : limit = some n := by rw [← hlimit, hs, Option.bind_some, hcount]
    rw [History.listing, hsome, History.skipped_of_lt hpos]
  · have hskipped : h.skipped limit = 0 := by
      refine History.skipped_eq_zero fun n hn => ?_
      rw [← hlimit, Option.bind_eq_some_iff] at hn
      obtain ⟨s, hs, hcount⟩ := hn
      exact hall s n hs (Text.count?_eq_some_iff.mp hcount).1
    rw [History.listing, hskipped, List.drop_zero]
  · rw [History.listing, ← String.join_append, List.take_append_drop]

/-- A sign and more zeros than digits that count, and a word behind it that is not looked at. -/
theorem run_history_lists_last_two :
    let h : History := ⟨["a", "b", "c"], 0⟩
    let w : World := ⟨Tree.empty, Tree.root⟩
    let arguments := ["+0002", "-a"]
    let e := run ⟨none, SearchPath.empty⟩ h w .history arguments
    (∀ option file rest, arguments = option :: file :: rest → option ∉ transferWords) ∧
    h.entries.length ≤ Text.wordBound ∧ Text.SpellsCount "+0002" 2 ∧
    (∃ lines, h.IsListed lines ∧ e.result = .ok (String.join (lines.drop (3 - 2)))) ∧
    e.result = .ok "    2  b\n    3  c\n" := by
  intro h w arguments e
  have hplain : ∀ option file rest,
      arguments = option :: file :: rest → option ∉ transferWords := by
    intro option file rest he
    obtain ⟨rfl, -⟩ := List.cons.inj he
    decide
  have hword : h.entries.length ≤ Text.wordBound := by decide
  have hspells : Text.SpellsCount "+0002" 2 :=
    Text.spellsCount_iff.mpr (Text.spells_iff.mpr (by decide))
  obtain ⟨lines, text, hlisted, hrun, hlast, -, -⟩ :=
    run_history_lists_last ⟨none, SearchPath.empty⟩ w hplain hword
  have htext : text = String.join (lines.drop (3 - 2)) :=
    hlast "+0002" 2 rfl hspells (by decide) (by decide)
  refine ⟨hplain, hword, hspells, ⟨lines, hlisted, ?_⟩, by decide +kernel⟩
  rw [← htext]
  exact congrArg Effect.result hrun

end Builtin

end LineShell
