import LineShell.Proofs.Line.Spelling
import LineShell.Proofs.Text.Lines
import LineShell.Session

/-!
Writing words down in quotes so that a line reads as these words and nothing else. Quoted words
with blanks between them and bars between the segments run just these segments, on the streams
that are there, whatever characters the words hold. A word that is an operator is the exception:
quotes do not keep it from being read as one.
-/

namespace LineShell.Line

/-- A quote in the word stands, escaped, between two quotations. -/
def singlyQuoted (w : List Char) : List Char :=
  '\'' :: (w.flatMap fun c => if c = '\'' then ['\'', '\\', '\'', '\''] else [c]) ++ ['\'']

def doublyQuoted (w : List Char) : List Char :=
  '"' :: (w.flatMap fun c => if c = '"' ∨ c = '\\' ∨ c = '$' then ['\\', c] else [c]) ++ ['"']

inductive QuotesWord (w : String) : List Char → Prop
  | single : QuotesWord w (singlyQuoted w.toList)
  | double : QuotesWord w (doublyQuoted w.toList)

structure IsGap (gap : List Char) : Prop where
  ne_nil : gap ≠ []
  blank : ∀ c ∈ gap, c = ' ' ∨ c = '\t'

theorem isGap_iff {gap : List Char} :
    IsGap gap ↔ gap ≠ [] ∧ gap.all separates = true := by
  simp only [List.all_eq_true, separates, Bool.or_eq_true, beq_iff_eq]
  exact ⟨fun h => ⟨h.ne_nil, h.blank⟩, fun h => ⟨h.1, h.2⟩⟩

instance : DecidablePred IsGap := fun _ => decidable_of_iff _ isGap_iff.symm

inductive QuotesSegment : List String → List Char → Prop
  | word {w t} (hw : QuotesWord w t) : QuotesSegment [w] t
  | cons {w t gap ws r} (hw : QuotesWord w t) (hgap : IsGap gap) (hws : QuotesSegment ws r) :
      QuotesSegment (w :: ws) (t ++ (gap ++ r))

/-- The line is a way to write the segments down. -/
inductive QuotesLine : List (List String) → List Char → Prop
  | segment {seg t} (hseg : QuotesSegment seg t) : QuotesLine [seg] t
  | cons {seg t before after segs r} (hseg : QuotesSegment seg t) (hbefore : IsGap before)
      (hafter : IsGap after) (hsegs : QuotesLine segs r) :
      QuotesLine (seg :: segs) (t ++ (before ++ '|' :: (after ++ r)))

/-- The words that mean something else than themselves wherever they stand. -/
def operators : List String := [bar, ">", ">>", "1>", "1>>", "2>", "2>>"]

/-! Reading what is quoted -/

theorem scan_singlyQuoted (w r : List Char) :
    scan .bare (singlyQuoted w ++ r) = ahead w (scan .bare r) := by
  have hbody : scan .single
      ((w.flatMap fun c => if c = '\'' then ['\'', '\\', '\'', '\''] else [c]) ++ '\'' :: r) =
        ahead w (scan .bare r) := by
    induction w with
    | nil => rfl
    | cons c w ih =>
        rw [List.flatMap_cons, List.append_assoc]
        by_cases hc : c = '\''
        · subst hc
          exact congrArg (push '\'') ih
        · rw [if_neg hc, List.singleton_append, scan_single_cons hc, ih, push_ahead]
  have hopen : ∀ x, scan .bare ('\'' :: x) = scan .single x := fun _ => rfl
  simp only [singlyQuoted, List.cons_append, List.append_assoc, List.nil_append, hopen, hbody]

/-- How a character is written inside double quotes. -/
def Piece.ofChar (c : Char) : Piece :=
  if h : escapable c = true then .escape c h
  else .plain c ⟨by rintro rfl; exact h (by decide), by rintro rfl; exact h (by decide)⟩

theorem Piece.text_ofChar (c : Char) :
    (ofChar c).text = if c = '"' ∨ c = '\\' ∨ c = '$' then ['\\', c] else [c] := by
  have hiff : escapable c = true ↔ c = '"' ∨ c = '\\' ∨ c = '$' := by
    simp [escapable, or_assoc]
  unfold ofChar
  split
  · rename_i h
    rw [if_pos (hiff.mp h)]
    rfl
  · rename_i h
    rw [if_neg (fun hc => h (hiff.mpr hc))]
    rfl

theorem Piece.value_ofChar (c : Char) : (ofChar c).value = [c] := by
  unfold ofChar
  split <;> rfl

theorem scan_doublyQuoted (w r : List Char) :
    scan .bare (doublyQuoted w ++ r) = ahead w (scan .bare r) := by
  have htext : doublyQuoted w = (Item.double (w.map Piece.ofChar)).text := by
    simp only [doublyQuoted, Item.text, List.flatMap_map, Piece.text_ofChar]
  have hvalue : (w.map Piece.ofChar).flatMap Piece.value = w := by
    simp only [List.flatMap_map, Piece.value_ofChar, List.flatMap_singleton']
  rw [htext, scan_item, Item.value?, Item.into, hvalue]

theorem QuotesWord.scan_append {w : String} {t : List Char} (h : QuotesWord w t) (r : List Char) :
    scan .bare (t ++ r) = ahead w.toList (scan .bare r) := by
  cases h with
  | single => exact scan_singlyQuoted w.toList r
  | double => exact scan_doublyQuoted w.toList r

theorem IsGap.scan_append {gap : List Char} (h : IsGap gap) (r : List Char) :
    scan .bare (gap ++ r) = part (scan .bare r) := by
  obtain ⟨hne, hblank⟩ := h
  induction gap with
  | nil => exact absurd rfl hne
  | cons c gap ih =>
      have hc : separates c = true := by simpa [separates] using hblank c List.mem_cons_self
      rw [List.cons_append, scan_bare_blank hc]
      cases gap with
      | nil => rfl
      | cons d gap =>
          rw [ih (List.cons_ne_nil d gap) fun x hx => hblank x (List.mem_cons_of_mem c hx)]
          rfl

/-- A word that ends here stands in front of the words that follow. -/
theorem part_ahead {w : String} (hw : w ≠ "") {p : List Char × List (List Char)}
    (hp : p.1 = []) : part (ahead w.toList p) = ([], w.toList :: p.2) := by
  have hne : w.toList ≠ [] := by simpa using hw
  simp [part, ahead, withWord, hp, hne]

/-- What follows must not go on with the last word. -/
theorem QuotesSegment.scan_append {ws : List String} {t r : List Char} (h : QuotesSegment ws t)
    (hws : ∀ w ∈ ws, w ≠ "") (hr : (scan .bare r).1 = []) :
    part (scan .bare (t ++ r)) = ([], ws.map String.toList ++ (scan .bare r).2) := by
  induction h with
  | word hw => rw [hw.scan_append, part_ahead (hws _ List.mem_cons_self) hr]; rfl
  | cons hw hgap _ ih =>
      have ih := ih fun x hx => hws x (List.mem_cons_of_mem _ hx)
      rw [List.append_assoc, List.append_assoc, hw.scan_append, hgap.scan_append, ih,
        part_ahead (hws _ List.mem_cons_self) rfl]
      rfl

theorem QuotesLine.ne_nil {segs : List (List String)} {t : List Char} (h : QuotesLine segs t) :
    segs ≠ [] := by
  cases h <;> exact List.cons_ne_nil _ _

theorem QuotesLine.wordsOf_eq {segs : List (List String)} {t : List Char} (h : QuotesLine segs t)
    (hws : ∀ seg ∈ segs, ∀ w ∈ seg, w ≠ "") :
    wordsOf t = ([bar].intercalate segs).map String.toList := by
  induction h with
  | segment hseg =>
      have hread := hseg.scan_append (r := []) (hws _ List.mem_cons_self) rfl
      rw [List.append_nil] at hread
      simp [wordsOf, hread, scan]
  | @cons seg t before after segs r hseg hbefore hafter hsegs ih =>
      have ih := ih fun s hs => hws s (List.mem_cons_of_mem seg hs)
      have hbar : scan .bare (before ++ '|' :: (after ++ r)) = ([], bar.toList :: wordsOf r) := by
        rw [hbefore.scan_append, scan_bare_plain (by decide), hafter.scan_append]
        rfl
      rw [wordsOf, hseg.scan_append (hws _ List.mem_cons_self) (by rw [hbar]), hbar, ih,
        List.intercalate_cons_of_ne_nil hsegs.ne_nil]
      simp

/-! A quoted line has no blank at its ends -/

/-- Some text with a character at either end that trimming leaves there. -/
structure Firm (t : List Char) : Prop where
  ne_nil : t ≠ []
  trimmed : Text.Trimmed t

theorem Firm.append {t r : List Char} (ht : Firm t) (hr : Firm r) (x : List Char) :
    Firm (t ++ (x ++ r)) where
  ne_nil h := ht.ne_nil (List.append_eq_nil_iff.mp h).1
  trimmed :=
    { head := fun c hc => by
        obtain ⟨d, t, rfl⟩ := List.exists_cons_of_ne_nil ht.ne_nil
        exact ht.trimmed.head c hc
      last := fun c hc => by
        rw [← List.append_assoc, List.getLast?_append,
          Option.or_of_isSome (by simpa using hr.ne_nil)] at hc
        exact hr.trimmed.last c hc }

theorem firm_of_ends {q : Char} (hq : Text.isBlank q = false) (x : List Char) :
    Firm (q :: x ++ [q]) where
  ne_nil := List.cons_ne_nil _ _
  trimmed :=
    { head := by simpa using hq
      last := by rw [List.getLast?_concat]; simpa using hq }

theorem QuotesWord.firm {w : String} {t : List Char} (h : QuotesWord w t) : Firm t := by
  cases h with
  | single => exact firm_of_ends (by decide) _
  | double => exact firm_of_ends (by decide) _

theorem QuotesSegment.firm {ws : List String} {t : List Char} (h : QuotesSegment ws t) :
    Firm t := by
  induction h with
  | word hw => exact hw.firm
  | cons hw _ _ ih => exact hw.firm.append ih _

theorem QuotesLine.firm {segs : List (List String)} {t : List Char} (h : QuotesLine segs t) :
    Firm t := by
  induction h with
  | segment hseg => exact hseg.firm
  | @cons seg t before after segs r hseg _ _ _ ih =>
      have hmid : before ++ '|' :: (after ++ r) = (before ++ '|' :: after) ++ r := by simp
      rw [hmid]
      exact hseg.firm.append ih _

theorem QuotesLine.trim_eq {segs : List (List String)} {line : String}
    (h : QuotesLine segs line.toList) : Text.trim line = line := by
  rw [Text.trim, Text.trimChars_of_trimmed h.firm.trimmed, String.ofList_toList]

/-! From the words to the job -/

theorem operator?_of_not_mem {w : String} (hw : w ∉ operators) : operator? w = none := by
  unfold operator?
  split <;> simp [operators] at hw ⊢

theorem Command.ofWords_of_no_operator {ws : List String} (h : ∀ w ∈ ws, operator? w = none) :
    Command.ofWords ws = { args := ws } := by
  fun_induction Command.ofWords ws with
  | case1 | case2 => rfl
  | case3 w target rest _ ih =>
      rw [ih fun x hx => h x (List.mem_cons_of_mem w hx)]
      rfl
  | case4 w target rest _ _ hop _ =>
      rw [h w List.mem_cons_self] at hop
      cases hop

theorem QuotesSegment.ne_nil {ws : List String} {t : List Char} (h : QuotesSegment ws t) :
    ws ≠ [] := by
  cases h <;> exact List.cons_ne_nil _ _

theorem QuotesLine.segment_ne_nil {segs : List (List String)} {t : List Char}
    (h : QuotesLine segs t) : ∀ seg ∈ segs, seg ≠ [] := by
  induction h with
  | segment hseg => simpa using hseg.ne_nil
  | cons hseg _ _ _ ih => exact List.forall_mem_cons.mpr ⟨hseg.ne_nil, ih⟩

theorem segments_intercalate {segs : List (List String)} (hne : segs ≠ [])
    (hseg : ∀ seg ∈ segs, seg ≠ []) (hbar : ∀ seg ∈ segs, bar ∉ seg) :
    segments ([bar].intercalate segs) = segs := by
  rw [segments, List.splitOn_intercalate bar hbar hne]
  exact List.filter_eq_self.mpr fun seg hs => decide_eq_true (hseg seg hs)

theorem job?_of_no_operator {segs : List (List String)} (hne : segs ≠ [])
    (hseg : ∀ seg ∈ segs, seg ≠ []) (hop : ∀ seg ∈ segs, ∀ w ∈ seg, operator? w = none) :
    job? segs = some ⟨segs, none, none⟩ := by
  have hlast := List.getLast?_eq_some_getLast hne
  have hmem := List.getLast_mem hne
  simp only [job?, hlast, Command.ofWords_of_no_operator (hop _ hmem), if_neg (hseg _ hmem),
    List.dropLast_concat_getLast hne]

theorem head?_intercalate {segs : List (List String)} (hseg : ∀ seg ∈ segs, seg ≠ []) :
    ([bar].intercalate segs).head? = segs.head?.bind List.head? := by
  cases segs with
  | nil => rfl
  | cons seg segs =>
      cases seg with
      | nil => exact absurd rfl (hseg _ List.mem_cons_self)
      | cons w seg => rw [List.intercalate_cons_cons_left]; rfl

theorem QuotesLine.words_eq {segs : List (List String)} {line : String}
    (h : QuotesLine segs line.toList) (hws : ∀ seg ∈ segs, ∀ w ∈ seg, w ≠ "") :
    words line = [bar].intercalate segs := by
  have hid : String.ofList ∘ String.toList = id := funext fun _ => String.ofList_toList
  rw [words, h.wordsOf_eq hws, List.map_map, hid, List.map_id]

theorem QuotesLine.reading_eq {segs : List (List String)} {line : String}
    (h : QuotesLine segs line.toList) (hws : ∀ seg ∈ segs, ∀ w ∈ seg, w ≠ "" ∧ w ∉ operators)
    (hfirst : segs.head?.bind List.head? ≠ some exitWord) :
    Reading.ofLine line = .run ⟨segs, none, none⟩ := by
  have hbar : ∀ seg ∈ segs, bar ∉ seg := fun seg hs hb => (hws seg hs bar hb).2 (by decide)
  have hop : ∀ seg ∈ segs, ∀ w ∈ seg, operator? w = none := fun seg hs w hw =>
    operator?_of_not_mem (hws seg hs w hw).2
  rw [Reading.ofLine, h.trim_eq, h.words_eq fun seg hs w hw => (hws seg hs w hw).1,
    Reading.ofWords, head?_intercalate h.segment_ne_nil, if_neg hfirst,
    segments_intercalate h.ne_nil h.segment_ne_nil hbar,
    job?_of_no_operator h.ne_nil h.segment_ne_nil hop]

end LineShell.Line

namespace LineShell.Session

/-- A job without redirections runs on the streams that are there. -/
theorem runJob_of_no_redirection (m : Machine) (s : Session) (c : Console)
    (segs : List (List String)) :
    s.runJob m c ⟨segs, none, none⟩ = execute m s.setting s.history c segs :=
  rfl

/-- Quoted words are run as they are: no file is opened for the line, and its execution is the
execution of these segments on the console of the line. -/
theorem eval_of_quoted (m : Machine) (s : Session) (c : Console) {segs : List (List String)}
    {line : String} (hline : Line.QuotesLine segs line.toList)
    (hwords : ∀ seg ∈ segs, ∀ w ∈ seg, w ≠ "" ∧ w ∉ Line.operators)
    (hfirst : segs.head?.bind List.head? ≠ some Line.exitWord) :
    Line.Reading.ofLine line = .run ⟨segs, none, none⟩ ∧
      s.eval m c line =
        let o := execute m s.setting (s.history.push line) c segs
        (o.flow, { s with history := o.history }, o.console) := by
  have hreading := hline.reading_eq hwords hfirst
  have hne : line ≠ "" := by
    rintro rfl
    exact hline.firm.ne_nil rfl
  refine ⟨hreading, ?_⟩
  simp only [eval, hline.trim_eq, if_neg hne, hreading, runJob_of_no_redirection]

/-- Words with quotes, bars, redirections, a newline and a blank beyond ASCII in them. -/
theorem eval_of_quoted_hostile_words :
    let m := Machine.bare
    let s : Session := ⟨⟨none, SearchPath.empty⟩, none, {}⟩
    let c : Console := ⟨⟨Tree.empty, Tree.root⟩, {}, .keep {}, .keep {}⟩
    let segs := [["echo", "it's > f", "a | b"], ["exit", "\"\\$\n\u00a0"]]
    let line := "'echo' 'it'\\''s > f'\t\"a | b\" | \t'exit' \"\\\"\\\\\\$\n\u00a0\""
    Line.QuotesLine segs line.toList ∧
    (∀ seg ∈ segs, ∀ w ∈ seg, w ≠ "" ∧ w ∉ Line.operators) ∧
    segs.head?.bind List.head? ≠ some Line.exitWord ∧
    Line.Reading.ofLine line = .run ⟨segs, none, none⟩ ∧
    s.eval m c line =
      let o := execute m s.setting (s.history.push line) c segs
      (o.flow, { s with history := o.history }, o.console) := by
  intro m s c segs line
  have htext : line.toList =
      (Line.singlyQuoted "echo".toList ++ ([' '] ++ (Line.singlyQuoted "it's > f".toList ++
        (['\t'] ++ Line.doublyQuoted "a | b".toList)))) ++
      ([' '] ++ '|' :: ([' ', '\t'] ++ (Line.singlyQuoted "exit".toList ++
        ([' '] ++ Line.doublyQuoted "\"\\$\n\u00a0".toList)))) := by
    decide +kernel
  have hline : Line.QuotesLine segs line.toList := by
    rw [htext]
    refine .cons ?_ (by decide) (by decide) (.segment ?_)
    · exact .cons .single (by decide)
        (.cons .single (by decide) (.word .double))
    · exact .cons .single (by decide) (.word .double)
  have hwords : ∀ seg ∈ segs, ∀ w ∈ seg, w ≠ "" ∧ w ∉ Line.operators := by decide +kernel
  have hfirst : segs.head?.bind List.head? ≠ some Line.exitWord := by decide +kernel
  exact ⟨hline, hwords, hfirst, eval_of_quoted m s c hline hwords hfirst⟩

end LineShell.Session
