import LineShell.Line.Segment

/-!
Words fall into segments at bars and nowhere else. Segments with bars among them, however many,
fall apart into the same segments again, and every list of words is one of these.
-/

namespace LineShell.Line

/-- So many bars in front, and behind each run of words its own number of bars. -/
def barred (front : Nat) (runs : List (List String × Nat)) : List String :=
  List.replicate front bar ++ runs.flatMap fun run => run.1 ++ List.replicate run.2 bar

/-- The runs are segments with bars between them: one bar at least behind each but the last. -/
structure Parted (runs : List (List String × Nat)) : Prop where
  segment : ∀ run ∈ runs, run.1 ≠ [] ∧ bar ∉ run.1
  apart : ∀ run ∈ runs.dropLast, run.2 ≠ 0

/-- In one of the segments the two words stand side by side, and `before` is all that comes before
them. -/
def SideBySide (segs : List (List String)) (before : List String) (x y : String) : Prop :=
  ∃ earlier l r later,
    segs = earlier ++ (l ++ x :: y :: r) :: later ∧ earlier.flatten ++ l = before

theorem segments_append_bar (a b : List String) :
    segments (a ++ bar :: b) = segments a ++ segments b := by
  rw [segments, List.splitOn_append_cons_self, List.filter_append, segments, segments]

theorem segments_nil : segments [] = [] :=
  rfl

theorem segments_of_not_mem {ws : List String} (hne : ws ≠ []) (h : bar ∉ ws) :
    segments ws = [ws] := by
  simp [segments, List.splitOn_eq_singleton h, hne]

theorem segments_replicate_bar_append (n : Nat) (ws : List String) :
    segments (List.replicate n bar ++ ws) = segments ws := by
  induction n with
  | zero => rfl
  | succ n ih =>
      rw [List.replicate_succ, List.cons_append, ← List.nil_append (bar :: _),
        segments_append_bar, segments_nil, List.nil_append, ih]

/-- Words are taken in runs, each up to the next bar. -/
theorem induction_at_bars {p : List String → Prop} (last : ∀ ws, bar ∉ ws → p ws)
    (next : ∀ run ws, bar ∉ run → p ws → p (run ++ bar :: ws)) (ws : List String) : p ws := by
  induction hn : ws.length using Nat.strongRecOn generalizing ws with
  | ind n ih =>
      by_cases h : bar ∈ ws
      · obtain ⟨run, rest, rfl, hrun⟩ := List.eq_append_cons_of_mem h
        refine next run rest hrun (ih _ ?_ rest rfl)
        rw [← hn, List.length_append, List.length_cons]
        omega
      · exact last ws h

namespace Parted

variable {run : List String × Nat} {runs : List (List String × Nat)}

theorem tail (h : Parted (run :: runs)) : Parted runs where
  segment other ho := h.segment other (List.mem_cons_of_mem run ho)
  apart other ho := by
    cases runs with
    | nil => cases ho
    | cons _ _ => exact h.apart other (List.mem_cons_of_mem run ho)

theorem cons (h : Parted runs) {ws : List String} (hne : ws ≠ []) (hbar : bar ∉ ws) (n : Nat) :
    Parted ((ws, n + 1) :: runs) where
  segment := List.forall_mem_cons.mpr ⟨⟨hne, hbar⟩, h.segment⟩
  apart other ho := by
    cases runs with
    | nil => cases ho
    | cons _ _ =>
        rcases List.mem_cons.mp ho with rfl | ho
        · exact Nat.succ_ne_zero n
        · exact h.apart other ho

theorem segments_barred (h : Parted runs) (front : Nat) :
    segments (barred front runs) = runs.map Prod.fst := by
  rw [barred, segments_replicate_bar_append]
  induction runs with
  | nil => rfl
  | cons run runs ih =>
      obtain ⟨ws, n⟩ := run
      obtain ⟨hne, hbar⟩ := h.segment (ws, n) List.mem_cons_self
      rw [List.flatMap_cons, List.map_cons, List.append_assoc]
      cases n with
      | succ n =>
          rw [List.replicate_succ, List.cons_append, segments_append_bar,
            segments_of_not_mem hne hbar, segments_replicate_bar_append, ih h.tail]
          rfl
      | zero =>
          -- With no bar behind it the run is the last.
          have hlast : runs = [] := by
            cases runs with
            | nil => rfl
            | cons _ _ => exact absurd rfl (h.apart (ws, 0) List.mem_cons_self)
          rw [hlast]
          simpa using segments_of_not_mem hne hbar

end Parted

theorem exists_barred (ws : List String) :
    ∃ front runs, Parted runs ∧ barred front runs = ws := by
  induction ws using induction_at_bars with
  | last ws hbar =>
      by_cases hne : ws = []
      · exact ⟨0, [], ⟨by simp, by simp⟩, hne.symm⟩
      · exact ⟨0, [(ws, 0)], ⟨by simpa using ⟨hne, hbar⟩, by simp⟩, by simp [barred]⟩
  | next run ws hbar ih =>
      obtain ⟨front, runs, hruns, rfl⟩ := ih
      by_cases hne : run = []
      · refine ⟨front + 1, runs, hruns, ?_⟩
        simp [barred, hne, List.replicate_succ]
      · refine ⟨0, (run, front + 1) :: runs, hruns.cons hne hbar front, ?_⟩
        simp [barred, List.replicate_succ]

theorem bar_not_mem_of_mem_segments {ws s : List String} (h : s ∈ segments ws) : bar ∉ s := by
  obtain ⟨front, runs, hruns, rfl⟩ := exists_barred ws
  rw [hruns.segments_barred front, List.mem_map] at h
  obtain ⟨run, hrun, rfl⟩ := h
  exact (hruns.segment run hrun).2

theorem filter_of_not_mem {ws : List String} (h : bar ∉ ws) : ws.filter (· ≠ bar) = ws :=
  List.filter_eq_self.mpr fun _ hw => decide_eq_true fun he => h (he ▸ hw)

theorem filter_run {run : List String} (h : bar ∉ run) (ws : List String) :
    (run ++ bar :: ws).filter (· ≠ bar) = run ++ ws.filter (· ≠ bar) := by
  rw [List.filter_append, filter_of_not_mem h, List.filter_cons_of_neg (by simp)]

theorem flatten_segments_of_not_mem {ws : List String} (h : bar ∉ ws) :
    (segments ws).flatten = ws := by
  by_cases hne : ws = []
  · rw [hne, segments_nil, List.flatten_nil]
  · rw [segments_of_not_mem hne h, List.flatten_singleton]

theorem flatten_segments (ws : List String) :
    (segments ws).flatten = ws.filter (· ≠ bar) := by
  induction ws using induction_at_bars with
  | last ws hbar => rw [flatten_segments_of_not_mem hbar, filter_of_not_mem hbar]
  | next run ws hbar ih =>
      rw [segments_append_bar, List.flatten_append, flatten_segments_of_not_mem hbar, ih,
        filter_run hbar]

theorem SideBySide.behind {segs : List (List String)} {before : List String} {x y : String}
    (h : SideBySide segs before x y) (front : List (List String)) :
    SideBySide (front ++ segs) (front.flatten ++ before) x y := by
  obtain ⟨earlier, l, r, later, rfl, rfl⟩ := h
  refine ⟨front ++ earlier, l, r, later, by rw [List.append_assoc], ?_⟩
  rw [List.flatten_append, List.append_assoc]

/-- The run with the two words in it goes up to the first bar behind them. -/
theorem sideBySide_of_not_mem {before : List String} {x y : String} (hbar : bar ∉ before)
    (hx : x ≠ bar) (hy : y ≠ bar) (after : List String) :
    SideBySide (segments (before ++ x :: y :: after)) before x y := by
  have hrun : ∀ r, bar ∉ r → segments (before ++ x :: y :: r) = [before ++ x :: y :: r] := by
    intro r hr
    refine segments_of_not_mem (by simp) ?_
    simp [hbar, Ne.symm hx, Ne.symm hy, hr]
  cases after using induction_at_bars with
  | last after hr => exact ⟨[], before, after, [], hrun after hr, rfl⟩
  | next r later hr =>
      refine ⟨[], before, r, segments later, ?_, rfl⟩
      have hsplit : before ++ x :: y :: (r ++ bar :: later) =
          (before ++ x :: y :: r) ++ bar :: later := by simp
      rw [hsplit, segments_append_bar, hrun r hr]
      rfl

theorem sideBySide_segments {x y : String} (hx : x ≠ bar) (hy : y ≠ bar)
    (before after : List String) :
    SideBySide (segments (before ++ x :: y :: after)) (before.filter (· ≠ bar)) x y := by
  induction before using induction_at_bars with
  | last before hbar =>
      rw [filter_of_not_mem hbar]
      exact sideBySide_of_not_mem hbar hx hy after
  | next run before hbar ih =>
      have h := ih.behind (segments run)
      rw [flatten_segments_of_not_mem hbar, ← segments_append_bar] at h
      rwa [filter_run hbar, List.append_assoc, List.cons_append]

/-- Words fall into segments at the bars among them: what stands on both sides of a bar is parted
on its own, words without a bar between them stay side by side, and no word is lost. Segments with
any bars among them fall apart into themselves, and so does every list of words. -/
theorem segments_part_at_bars :
    (∀ a b, segments (a ++ [bar] ++ b) = segments a ++ segments b) ∧
    (∀ ws, (∀ s ∈ segments ws, s ≠ [] ∧ bar ∉ s) ∧
      (segments ws).flatten = ws.filter (· ≠ bar)) ∧
    (∀ before x y after, x ≠ bar → y ≠ bar →
      SideBySide (segments (before ++ [x, y] ++ after)) (before.filter (· ≠ bar)) x y) ∧
    (∀ front runs, Parted runs → segments (barred front runs) = runs.map Prod.fst) ∧
    ∀ ws, ∃ front runs, Parted runs ∧ barred front runs = ws := by
  refine ⟨fun a b => ?_, fun ws => ⟨fun s hs => ?_, flatten_segments ws⟩,
    fun before x y after hx hy => ?_, fun front runs h => h.segments_barred front, exists_barred⟩
  · rw [List.append_assoc, List.singleton_append, segments_append_bar]
  · exact ⟨ne_nil_of_mem_segments hs, bar_not_mem_of_mem_segments hs⟩
  · rw [List.append_assoc]
    exact sideBySide_segments hx hy before after

/-- Bars in front, two of them between the segments and one behind. -/
theorem segments_part_at_stray_bars :
    let runs := [(["a", "b", "c"], 2), (["d"], 1)]
    Parted runs ∧ barred 1 runs = ["|", "a", "b", "c", "|", "|", "d", "|"] ∧
    segments (barred 1 runs) = [["a", "b", "c"], ["d"]] ∧
    "b" ≠ bar ∧ "c" ≠ bar ∧
    SideBySide (segments (["|", "a"] ++ ["b", "c"] ++ ["|", "|", "d", "|"])) ["a"] "b" "c" := by
  intro runs
  obtain ⟨-, -, hside, hbarred, -⟩ := segments_part_at_bars
  have hparted : Parted runs := ⟨by decide, by decide⟩
  exact ⟨hparted, by decide, hbarred 1 runs hparted, by decide, by decide,
    hside ["|", "a"] "b" "c" ["|", "|", "d", "|"] (by decide) (by decide)⟩

end LineShell.Line
