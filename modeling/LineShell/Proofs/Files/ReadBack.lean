import LineShell.Proofs.Files.Frame
import LineShell.Proofs.Files.Way

/-!
What is written at a path is read back there. A tree that has only gained entries leads along
the old ways to the old places, and where a file could be made, to the file that is there now.
-/

namespace LineShell

namespace Tree

/-- Directories keep their entries in front of new ones, and no links come or go. -/
structure Grown (t t' : Tree) : Prop where
  directory : ∀ {id entries parent}, t.node? id = some (.directory entries parent) →
    ∃ added, t'.node? id = some (.directory (entries ++ added) parent) ∧
      ∀ entry ∈ added, ¬t'.IsLink entry.2
  link : ∀ {id target}, t.node? id = some (.link target) ↔ t'.node? id = some (.link target)

namespace Grown

variable {t t' t'' : Tree}

theorem isLink_iff (g : Grown t t') {id : NodeId} : t.IsLink id ↔ t'.IsLink id :=
  exists_congr fun _ => g.link

theorem refl (t : Tree) : Grown t t :=
  ⟨fun hd => ⟨[], by rw [hd, List.append_nil], nofun⟩, Iff.rfl⟩

theorem trans (g : Grown t t') (g' : Grown t' t'') : Grown t t'' where
  directory hd := by
    obtain ⟨added, hd, hadded⟩ := g.directory hd
    obtain ⟨added', hd, hadded'⟩ := g'.directory hd
    refine ⟨added ++ added', by rw [hd, List.append_assoc], fun entry he => ?_⟩
    rcases List.mem_append.mp he with he | he
    · exact fun hl => hadded entry he (g'.isLink_iff.mpr hl)
    · exact hadded' entry he
  link := g.link.trans g'.link

theorem attached (g : Grown t t') {dir : NodeId} (h : t.attached dir = true) :
    t'.attached dir = true := by
  simp only [Tree.attached, Bool.or_eq_true] at h ⊢
  refine h.imp_right fun h => ?_
  cases hd : t.node? dir with
  | none => simp [hd] at h
  | some n =>
      cases n with
      | file _ _ | link _ | null => simp [hd] at h
      | directory entries parent =>
          obtain ⟨_, hd', _⟩ := g.directory hd
          simp only [hd, hd', Tree.entries] at h ⊢
          cases hp : t.node? parent with
          | none => simp [hp] at h
          | some n =>
              cases n with
              | file _ _ | link _ | null => simp [hp] at h
              | directory _ _ =>
                  obtain ⟨_, hp', _⟩ := g.directory hp
                  simp only [hp, hp', List.any_append, Bool.or_eq_true] at h ⊢
                  exact Or.inl h

end Grown

/-- What a place has become: a name that was free may stand for a node now. -/
def settle (t : Tree) : Place → Place
  | .node id => .node id
  | .vacant dir name =>
      match (t.entries dir).lookup name with
      | some id => .node id
      | none => .vacant dir name

variable {t t' : Tree} {jump jump' : NodeId → List String → Except Fault Place}

theorem LooksUp.of_grown (g : Grown t t') {making : Bool} {dir : NodeId} {name : String}
    {rest : List String} (hn : t.LooksUp making dir name rest) :
    t'.LooksUp false dir name rest where
  named := hn.named
  down := hn.down
  file := fun h => Bool.false_ne_true h.1
  attached := g.attached hn.attached
  short := hn.short

theorem lookup_append_of_some {entries : List (String × NodeId)} {name : String} {id : NodeId}
    (hl : entries.lookup name = some id) (added : List (String × NodeId)) :
    (entries ++ added).lookup name = some id := by
  rw [List.lookup_append, hl, Option.some_or]

/-- The induction is on the way; `jump` is what happens behind a link, where the same is known
for the names of its target. -/
theorem Way.of_grown (g : Grown t t')
    (hjump : ∀ dir names p, jump dir names = .ok p → jump' dir names = .ok (t'.settle p))
    {making : Bool} {names : List String} {dir : NodeId} {p : Place}
    (way : Way t making jump dir names p) : Way t' false jump' dir names (t'.settle p) := by
  induction way with
  | here dir => exact .here dir
  | stay hd hn _ ih =>
      obtain ⟨_, hd', _⟩ := g.directory hd
      exact .stay hd' hn ih
  | up hd _ ih =>
      obtain ⟨_, hd', _⟩ := g.directory hd
      exact .up hd' ih
  | @free name dir entries parent hd hn hl =>
      obtain ⟨added, hd', hadded⟩ := g.directory hd
      have hl' : (entries ++ added).lookup name = added.lookup name := by
        rw [List.lookup_append, hl, Option.none_or]
      have hentries : t'.entries dir = entries ++ added := by simp only [Tree.entries, hd']
      rw [settle, hentries, hl']
      cases ha : added.lookup name with
      | none => exact .free hd' (hn.of_grown g) (hl'.trans ha)
      | some id =>
          -- The name has been taken since, and not by a link.
          obtain ⟨before, later, hadd, -⟩ := List.lookup_eq_some_iff.mp ha
          have hmem : (name, id) ∈ added := by simp [hadd]
          exact .down hd' (hn.of_grown g) (hl'.trans ha) (hadded _ hmem) (.here id)
  | down hd hn hl hi _ ih =>
      obtain ⟨added, hd', _⟩ := g.directory hd
      have hl' := lookup_append_of_some hl added
      exact .down hd' (hn.of_grown g) hl' (fun hi' => hi (g.isLink_iff.mpr hi')) ih
  | along hd hn hl hi hj =>
      obtain ⟨added, hd', _⟩ := g.directory hd
      have hl' := lookup_append_of_some hl added
      exact .along hd' (hn.of_grown g) hl' (g.link.mp hi) (hjump _ _ _ hj)

theorem walk_of_grown (g : Grown t t') {making : Bool} {links : Nat} {dir : NodeId}
    {names : List String} {p : Place} (h : t.walk making links dir names = .ok p) :
    t'.walk false links dir names = .ok (t'.settle p) := by
  induction links generalizing dir names p with
  | zero =>
      have way := way_of_walkNames h
      exact (way.of_grown g fun _ _ _ hp => by cases hp).walkNames_eq
  | succ links ih =>
      have way := way_of_walkNames h
      exact (way.of_grown g fun _ _ _ hp => ih hp).walkNames_eq

/-- Where a name is free, the name is missing in a directory. -/
def Misses (t : Tree) : Place → Prop
  | .node _ => True
  | .vacant dir name =>
      ∃ entries parent, t.node? dir = some (.directory entries parent) ∧
        entries.lookup name = none

theorem Way.misses (hjump : ∀ dir names p, jump dir names = .ok p → t.Misses p)
    {making : Bool} {names : List String} {dir : NodeId} {p : Place}
    (way : Way t making jump dir names p) : t.Misses p := by
  induction way with
  | here _ => trivial
  | stay _ _ _ ih | up _ _ ih | down _ _ _ _ _ ih => exact ih
  | free hd _ hl => exact ⟨_, _, hd, hl⟩
  | along _ _ _ _ hj => exact hjump _ _ _ hj

theorem misses_of_walk {making : Bool} {links : Nat} {dir : NodeId} {names : List String}
    {p : Place} (h : t.walk making links dir names = .ok p) : t.Misses p := by
  induction links generalizing dir names p with
  | zero => exact (way_of_walkNames h).misses fun _ _ _ hp => by cases hp
  | succ links ih => exact (way_of_walkNames h).misses fun _ _ _ hp => ih hp

theorem settle_of_misses {p : Place} (h : t.Misses p) : t.settle p = p := by
  cases p with
  | node id => rfl
  | vacant dir name =>
      obtain ⟨entries, parent, hd, hl⟩ := h
      simp only [settle, Tree.entries, hd, hl]

theorem node?_setContent_self {t : Tree} {id : NodeId} {content : Bytes} {mode : Nat}
    (h : t.node? id = some (.file content mode)) (b : Bytes) :
    (t.setContent id b).node? id = some (.file b mode) := by
  rw [setContent, h]
  exact t.node?_put_self h _

theorem grown_setContent (t : Tree) (id : NodeId) (b : Bytes) : Grown t (t.setContent id b) := by
  have hnode : ∀ other, (t.setContent id b).node? other = t.node? other ∨
      ∃ content mode, t.node? other = some (.file content mode) ∧
        (t.setContent id b).node? other = some (.file b mode) := by
    intro other
    by_cases ho : id = other
    · subst ho
      unfold setContent
      split
      · rename_i content mode hf
        exact Or.inr ⟨content, mode, hf, t.node?_put_self hf _⟩
      · exact Or.inl rfl
    · exact Or.inl (t.node?_setContent_of_ne ho b)
  refine ⟨fun {x entries parent} hd => ⟨[], ?_, by simp⟩, fun {x target} => ?_⟩
  · rcases hnode x with h | ⟨_, _, hf, _⟩
    · rw [h, hd, List.append_nil]
    · cases hd.symm.trans hf
  · rcases hnode x with h | ⟨_, _, hf, hf'⟩
    · rw [h]
    · simp [hf, hf']

theorem node?_push_of_some {x : NodeId} {m : Node} (n : Node) (h : t.node? x = some m) :
    (Tree.mk (t.nodes.push n)).node? x = some m := by
  obtain ⟨hx, he⟩ := Array.getElem?_eq_some_iff.mp h
  rw [node?, Array.getElem?_push_lt hx, he]

theorem node?_push_size (n : Node) : (Tree.mk (t.nodes.push n)).node? t.nodes.size = some n := by
  simp [node?]

section create

variable {dir : NodeId} {name : String} {entries : List (String × NodeId)} {parent : NodeId}

theorem create_eq (hd : t.node? dir = some (.directory entries parent))
    (hl : entries.lookup name = none) (n : Node) :
    t.create dir name n =
      (t.nodes.size, (Tree.mk (t.nodes.push n)).put dir
        (.directory (entries ++ [(name, t.nodes.size)]) parent)) := by
  have hfilter : entries.filter (·.1 ≠ name) = entries := by
    apply List.filter_eq_self.mpr
    intro entry he
    have hne := List.lookup_eq_none_iff.mp hl entry he
    exact decide_eq_true fun he => by simp [he] at hne
  rw [create, enter, node?_push_of_some n hd]
  simp only [hfilter]

theorem node?_create_dir (hd : t.node? dir = some (.directory entries parent))
    (hl : entries.lookup name = none) (n : Node) :
    (t.create dir name n).2.node? dir =
      some (.directory (entries ++ [(name, t.nodes.size)]) parent) := by
  rw [create_eq hd hl]
  exact node?_put_self _ (node?_push_of_some n hd) _

theorem node?_create_of_ne (hd : t.node? dir = some (.directory entries parent))
    (hl : entries.lookup name = none) (n : Node) {x : NodeId} (hx : dir ≠ x) :
    (t.create dir name n).2.node? x = (Tree.mk (t.nodes.push n)).node? x := by
  rw [create_eq hd hl]
  exact node?_put_of_ne _ hx _

theorem node?_create_size (hd : t.node? dir = some (.directory entries parent))
    (hl : entries.lookup name = none) (n : Node) :
    (t.create dir name n).2.node? t.nodes.size = some n := by
  have hlt : dir < t.nodes.size := (Array.getElem?_eq_some_iff.mp hd).1
  rw [node?_create_of_ne hd hl n (Nat.ne_of_lt hlt), node?_push_size]

theorem grown_create (hd : t.node? dir = some (.directory entries parent))
    (hl : entries.lookup name = none) {n : Node} (hn : ∀ target, n ≠ .link target) :
    Grown t (t.create dir name n).2 := by
  have hsize := node?_create_size hd hl n
  refine ⟨fun {x es up} hx => ?_, fun {x target} => ?_⟩
  · by_cases he : dir = x
    · subst he
      cases hd.symm.trans hx
      refine ⟨_, node?_create_dir hd hl n, fun entry hentry => ?_⟩
      rw [List.mem_singleton.mp hentry]
      rintro ⟨target, ht⟩
      exact hn target (Option.some.inj (hsize.symm.trans ht))
    · exact ⟨[], by rw [node?_create_of_ne hd hl n he, node?_push_of_some n hx, List.append_nil],
        by simp⟩
  · by_cases he : dir = x
    · subst he
      simp [hd, node?_create_dir hd hl n]
    · rw [node?_create_of_ne hd hl n he]
      constructor
      · exact node?_push_of_some n
      · intro ht
        by_cases hs : x = t.nodes.size
        · rw [hs, node?_push_size] at ht
          exact absurd (Option.some.inj ht) (hn target)
        · simpa [node?, Array.getElem?_push, hs] using ht

/-- The name that was free stands for what has been made there. -/
theorem settle_of_created (hd : t.node? dir = some (.directory entries parent))
    (hl : entries.lookup name = none) {n : Node} (g : Grown (t.create dir name n).2 t') :
    t'.settle (.vacant dir name) = .node t.nodes.size := by
  obtain ⟨added, hdir, -⟩ := g.directory (node?_create_dir hd hl n)
  have hentry : (t'.entries dir).lookup name = some t.nodes.size := by
    simp [Tree.entries, hdir, List.lookup_append, hl]
  rw [settle, hentry]

end create

end Tree

namespace World

/-- A regular file can be opened for writing at the path. -/
def Opens (w : World) (path : String) : Prop :=
  ∃ id opened content mode, w.openFile path = .ok (id, opened) ∧
    opened.tree.node? id = some (.file content mode)

theorem misses_of_resolve {w : World} {making : Bool} {path : String} {p : Place}
    (h : w.resolve making path = .ok p) : w.tree.Misses p := by
  unfold resolve at h
  split at h
  · cases h
  · exact Tree.misses_of_walk h

theorem resolve_of_grown {w : World} {making : Bool} {path : String} {p : Place}
    (h : w.resolve making path = .ok p) {tree : Tree} (g : Tree.Grown w.tree tree) :
    (w.withTree tree).resolve false path = .ok (tree.settle p) := by
  unfold resolve at h ⊢
  cases hp : pathOf path with
  | error _ => simp [hp] at h
  | ok parts =>
      simp only [hp] at h ⊢
      exact Tree.walk_of_grown g h

theorem locate_of_grown {w : World} {making : Bool} {path : String} {id : NodeId}
    (h : w.resolve making path = .ok (.node id)) {tree : Tree} (g : Tree.Grown w.tree tree) :
    (w.withTree tree).locate path = .ok id := by
  rw [locate, resolve_of_grown h g]
  rfl

theorem locate_of_created {w : World} {path : String} {dir : NodeId} {name : String}
    (h : w.resolve true path = .ok (.vacant dir name)) {content : Bytes} {mode : Nat} {tree : Tree}
    (g : Tree.Grown (w.tree.create dir name (.file content mode)).2 tree) :
    (w.withTree tree).locate path = .ok w.tree.nodes.size := by
  obtain ⟨entries, parent, hd, hl⟩ := misses_of_resolve h
  have hgrown := (Tree.grown_create hd hl (by simp)).trans g
  rw [locate, resolve_of_grown h hgrown, Tree.settle_of_created hd hl g]

/-- The path of a file that was opened leads to it in every tree that has grown since. -/
theorem locate_of_openFile {w opened : World} {path : String} {id : NodeId}
    (ho : w.openFile path = .ok (id, opened)) :
    opened.cwd = w.cwd ∧
      ∀ tree, Tree.Grown opened.tree tree → (opened.withTree tree).locate path = .ok id := by
  unfold openFile at ho
  split at ho
  · cases ho
  · rename_i dir name hplace
    cases ho
    exact ⟨rfl, fun tree hg => locate_of_created hplace hg⟩
  · rename_i place hplace
    split at ho
    · cases ho
      exact ⟨rfl, fun tree hg => locate_of_grown hplace hg⟩
    · cases ho

/-- What is written to a file is what is read at its path then. -/
theorem readFile_writeFile {w : World} {path : String} (ho : w.Opens path) (b : Bytes) :
    ∃ w', w.writeFile path b = .ok w' ∧ w'.cwd = w.cwd ∧ w'.readFile path = .ok b := by
  obtain ⟨id, opened, content, mode, ho, hf⟩ := ho
  obtain ⟨hcwd, hlocate⟩ := locate_of_openFile ho
  refine ⟨opened.withTree ((opened.tree.setContent id []).setContent id b), ?_, hcwd, ?_⟩
  · simp only [writeFile, openNew, ho]
    rfl
  · have hgrown := (opened.tree.grown_setContent id []).trans
      ((opened.tree.setContent id []).grown_setContent id b)
    have hnode := Tree.node?_setContent_self (Tree.node?_setContent_self hf []) b
    rw [readFile, hlocate _ hgrown]
    simp only [withTree, Tree.content?, hnode]

/-- An absolute path does not depend on the working directory. -/
theorem resolve_of_absolute (w : World) (making : Bool) {path : String}
    (ha : path.toList.head? = some Path.slash) (dir : NodeId) :
    ({ w with cwd := dir } : World).resolve making path = w.resolve making path := by
  unfold resolve
  cases hp : pathOf path with
  | error _ => rfl
  | ok p =>
      have habs : p.absolute = true := by
        unfold pathOf at hp
        split at hp
        · cases hp
        split at hp
        · cases hp
        split at hp
        · cases hp
        cases hp
        simp [Path.ofText, ha]
      simp only [Path.base, habs, if_true]

theorem readFile_of_absolute (w : World) {path : String}
    (ha : path.toList.head? = some Path.slash) (dir : NodeId) :
    ({ w with cwd := dir } : World).readFile path = w.readFile path := by
  simp only [readFile, locate, w.resolve_of_absolute false ha dir]

end World

end LineShell
