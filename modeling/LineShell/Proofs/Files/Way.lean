import LineShell.Files.Walk

/-!
The way that a path takes through a tree, as a derivation with one step for each name. It says
the same as the function that follows names, so a property of all ways is an induction over
the steps.
-/

namespace LineShell

namespace Tree

def IsLink (t : Tree) (id : NodeId) : Prop :=
  ∃ target, t.node? id = some (.link target)

/-- The name is looked up in the directory, with these names behind it. -/
structure LooksUp (t : Tree) (making : Bool) (dir : NodeId) (name : String)
    (rest : List String) : Prop where
  named : ¬(name = "" ∨ name = ".")
  down : name ≠ ".."
  file : ¬(making = true ∧ rest = [""])
  attached : t.attached dir = true
  short : ¬Path.nameLimit < name.utf8ByteSize

inductive Way (t : Tree) (making : Bool) (jump : NodeId → List String → Except Fault Place) :
    NodeId → List String → Place → Prop
  | here (dir : NodeId) : Way t making jump dir [] (.node dir)
  | stay {name rest dir entries parent p} (hd : t.node? dir = some (.directory entries parent))
      (hn : name = "" ∨ name = ".") (way : Way t making jump dir rest p) :
      Way t making jump dir (name :: rest) p
  | up {rest dir entries parent p} (hd : t.node? dir = some (.directory entries parent))
      (way : Way t making jump parent rest p) : Way t making jump dir (".." :: rest) p
  | free {name dir entries parent} (hd : t.node? dir = some (.directory entries parent))
      (hn : t.LooksUp making dir name []) (hl : entries.lookup name = none) :
      Way t making jump dir [name] (.vacant dir name)
  | down {name rest dir entries parent id p}
      (hd : t.node? dir = some (.directory entries parent))
      (hn : t.LooksUp making dir name rest) (hl : entries.lookup name = some id)
      (hi : ¬t.IsLink id) (way : Way t making jump id rest p) :
      Way t making jump dir (name :: rest) p
  | along {name rest dir entries parent id target p}
      (hd : t.node? dir = some (.directory entries parent))
      (hn : t.LooksUp making dir name rest) (hl : entries.lookup name = some id)
      (hi : t.node? id = some (.link target))
      (hj : jump ((Path.ofText target).base dir) ((Path.ofText target).steps ++ rest) = .ok p) :
      Way t making jump dir (name :: rest) p

variable {t : Tree} {making : Bool} {jump : NodeId → List String → Except Fault Place}

section LooksUp

variable {dir parent : NodeId} {entries : List (String × NodeId)} {name : String}
  {rest : List String} {p : Place} (hd : t.node? dir = some (.directory entries parent))
  (hn : t.LooksUp making dir name rest)

include hd hn

theorem walkNames_of_lookup_none (hl : entries.lookup name = none) :
    t.walkNames making jump dir (name :: rest) =
      if rest = [] then .ok (.vacant dir name) else .error .notFound := by
  simp only [walkNames, hd, if_neg hn.named, if_neg hn.down, if_neg hn.file, hn.attached,
    if_neg hn.short, Bool.not_true, Bool.false_eq_true, if_false, hl]

theorem walkNames_of_isLink {id : NodeId} {target : String} (hl : entries.lookup name = some id)
    (hi : t.node? id = some (.link target)) :
    t.walkNames making jump dir (name :: rest) =
      jump ((Path.ofText target).base dir) ((Path.ofText target).steps ++ rest) := by
  simp only [walkNames, hd, if_neg hn.named, if_neg hn.down, if_neg hn.file, hn.attached,
    if_neg hn.short, Bool.not_true, Bool.false_eq_true, if_false, hl, hi]

theorem walkNames_of_not_isLink {id : NodeId} (hl : entries.lookup name = some id)
    (hi : ¬t.IsLink id) :
    t.walkNames making jump dir (name :: rest) = t.walkNames making jump id rest := by
  rw [walkNames]
  simp only [hd, if_neg hn.named, if_neg hn.down, if_neg hn.file, hn.attached,
    if_neg hn.short, Bool.not_true, Bool.false_eq_true, if_false, hl]
  split
  · rename_i target ht
    exact absurd ⟨target, ht⟩ hi
  · rfl

/-- The induction hypothesis `ih` is the one of the names behind. -/
theorem way_of_looksUp
    (ih : ∀ dir, t.walkNames making jump dir rest = .ok p → Way t making jump dir rest p)
    (h : t.walkNames making jump dir (name :: rest) = .ok p) :
    Way t making jump dir (name :: rest) p := by
  cases hl : entries.lookup name with
  | none =>
      rw [walkNames_of_lookup_none hd hn hl] at h
      split at h
      · rename_i hrest
        subst hrest
        cases h
        exact .free hd hn hl
      · cases h
  | some id =>
      by_cases hi : t.IsLink id
      · obtain ⟨target, hi⟩ := hi
        rw [walkNames_of_isLink hd hn hl hi] at h
        exact .along hd hn hl hi h
      · rw [walkNames_of_not_isLink hd hn hl hi] at h
        exact .down hd hn hl hi (ih id h)

end LooksUp

theorem way_of_walkNames {dir : NodeId} {names : List String} {p : Place}
    (h : t.walkNames making jump dir names = .ok p) : Way t making jump dir names p := by
  induction names generalizing dir with
  | nil =>
      cases h
      exact .here dir
  | cons name rest ih =>
      have hcons := h
      rw [walkNames] at h
      split at h
      · rename_i entries parent hd
        split at h
        · rename_i hn
          exact .stay hd hn (ih h)
        split at h
        · rename_i hn
          subst hn
          exact .up hd (ih h)
        split at h
        · cases h
        split at h
        · cases h
        split at h
        · cases h
        rename_i hnamed hdown hfile hattached hshort
        have hn : t.LooksUp making dir name rest :=
          ⟨hnamed, hdown, hfile, by simpa using hattached, hshort⟩
        exact way_of_looksUp hd hn (fun _ => ih) hcons
      · cases h

theorem Way.walkNames_eq {dir : NodeId} {names : List String} {p : Place}
    (way : Way t making jump dir names p) : t.walkNames making jump dir names = .ok p := by
  induction way with
  | here dir => rfl
  | stay hd hn _ ih => simpa only [walkNames, hd, if_pos hn] using ih
  | up hd _ ih => simpa [walkNames, hd] using ih
  | free hd hn hl => rw [walkNames_of_lookup_none hd hn hl, if_pos rfl]
  | down hd hn hl hi _ ih => rw [walkNames_of_not_isLink hd hn hl hi, ih]
  | along hd hn hl hi hj => rw [walkNames_of_isLink hd hn hl hi, hj]

end Tree

end LineShell
