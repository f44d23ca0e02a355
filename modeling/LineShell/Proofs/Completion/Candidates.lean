import LineShell.Completion
import LineShell.Proofs.Text.Order
import LineShell.Proofs.Text.SharedStart

/-!
The candidates of an input: all names that begin with it and can be run, in the order of their
bytes and each once. There is just one such list.
-/

namespace LineShell

/-- The name is that of a file in one of the directories that may be executed. -/
def SearchPath.Offers (p : SearchPath) (w : World) (name : String) : Prop :=
  ∃ dir ∈ p.dirs, name ∈ w.namesIn dir ∧ w.isExecutable (Path.join dir name) = true

theorem SearchPath.mem_programs {p : SearchPath} {w : World} {start name : String} :
    name ∈ p.programs w start ↔ Text.begins start name = true ∧ p.Offers w name := by
  simp only [programs, mem_sortNames, List.mem_flatMap, namesIn, List.mem_filter,
    Bool.and_eq_true, Offers]
  constructor
  · rintro ⟨dir, hdir, hname, hstart, hexec⟩
    exact ⟨hstart, dir, hdir, hname, hexec⟩
  · rintro ⟨hstart, dir, hdir, hname, hexec⟩
    exact ⟨dir, hdir, hname, hstart, hexec⟩

theorem insertName_ascending {name : String} {names : List String}
    (h : names.Pairwise (· < ·)) : (insertName name names).Pairwise (· < ·) := by
  induction names with
  | nil => exact List.pairwise_singleton _ _
  | cons n ns ih =>
      obtain ⟨hn, hns⟩ := List.pairwise_cons.mp h
      unfold insertName
      split
      · rename_i hlt
        refine List.pairwise_cons.mpr ⟨fun x hx => ?_, h⟩
        rcases List.mem_cons.mp hx with rfl | hx
        · exact hlt
        · exact String.lt_trans hlt (hn x hx)
      split
      · rename_i hgt
        refine List.pairwise_cons.mpr ⟨fun x hx => ?_, ih hns⟩
        rcases mem_insertName.mp hx with rfl | hx
        · exact hgt
        · exact hn x hx
      · exact h

theorem sortNames_ascending (names : List String) : (sortNames names).Pairwise (· < ·) := by
  induction names with
  | nil => exact .nil
  | cons name names ih => exact insertName_ascending ih

namespace Completion

/-- The list of all names beginning with the input that a command can have, where `known` are
the programs. -/
structure AreCandidates (known : String → Prop) (input : String) (names : List String) : Prop where
  ascending : names.Pairwise fun a b => Bytes.ofText a < Bytes.ofText b
  mem_iff : ∀ name,
    name ∈ names ↔ Text.begins input name = true ∧ (name ∈ Builtin.names ∨ known name)

theorem mem_candidates_iff {search : SearchPath} {w : World} {input name : String} :
    name ∈ candidates search w input ↔
      Text.begins input name = true ∧ (name ∈ Builtin.names ∨ search.Offers w name) := by
  rw [mem_candidates, SearchPath.mem_programs, and_comm (a := name ∈ Builtin.names), ← and_or_left,
    or_comm]

theorem areCandidates_candidates (search : SearchPath) (w : World) (input : String) :
    AreCandidates (search.Offers w) input (candidates search w input) where
  ascending := (sortNames_ascending _).imp Bytes.ofText_lt_ofText
  mem_iff _ := mem_candidates_iff

variable {known : String → Prop} {input : String} {names names' : List String}

theorem AreCandidates.congr {known' : String → Prop} (h : AreCandidates known input names)
    (hk : ∀ name, known name ↔ known' name) : AreCandidates known' input names where
  ascending := h.ascending
  mem_iff name := (h.mem_iff name).trans (and_congr_right fun _ => or_congr_right (hk name))

theorem AreCandidates.nodup (h : AreCandidates known input names) : names.Nodup := by
  refine List.Pairwise.imp (fun {a b} hlt => ?_) h.ascending
  rintro rfl
  exact List.lt_irrefl _ hlt

theorem AreCandidates.unique (h : AreCandidates known input names)
    (h' : AreCandidates known input names') : names = names' := by
  refine List.Perm.eq_of_pairwise (fun a b _ _ hab hba => ?_) h.ascending h'.ascending
    ((List.perm_ext_iff_of_nodup h.nodup h'.nodup).mpr fun name => ?_)
  · exact absurd (List.lt_trans hab hba) (List.lt_irrefl _)
  · rw [h.mem_iff, h'.mem_iff]

end Completion

end LineShell
