/-!
Pipeline segments: the runs of words between bar words. Stray bars leave no empty run.
-/

namespace LineShell.Line

/-- The word that stands between the stages of a pipeline. -/
def bar : String := "|"

def segments (ws : List String) : List (List String) :=
  (ws.splitOn bar).filter (· ≠ [])

theorem ne_nil_of_mem_segments {ws s : List String} (h : s ∈ segments ws) : s ≠ [] := by
  simpa using (List.mem_filter.mp h).2

example : segments ["|", "a", "b", "|", "|", "c", "|"] = [["a", "b"], ["c"]] := by
  decide +kernel

end LineShell.Line
