import LineShell.Files.Access
import LineShell.Proofs.Files.Way

/-!
What can be run from a directory is listed there. Behind the path of a directory one name more
leads to an entry, or to where a link at that entry leads, unless it leads to the directory itself
or to the one above. If it leads anywhere, the path before it does lead to a directory.
-/

namespace LineShell

namespace Path

theorem parts_append_slash (before after : List Char) :
    parts (before ++ slash :: after) = parts before ++ parts after := by
  rw [parts, List.splitOn_append_cons_self, List.filter_append, List.map_append]
  rfl

theorem parts_of_not_mem {cs : List Char} (hne : cs ≠ []) (h : slash ∉ cs) :
    parts cs = [String.ofList cs] := by
  rw [parts, List.splitOn_eq_singleton h]
  simp [hne]

theorem toList_join {dir : String} (hdir : dir ≠ "") (name : String) :
    ∃ before, (join dir name).toList = before ++ slash :: name.toList ∧
      (dir.toList = before ∨ dir.toList = before ++ [slash]) := by
  unfold join
  split
  · rename_i h
    obtain ⟨before, hb⟩ := List.getLast?_eq_some_iff.mp (beq_iff_eq.mp (h.resolve_left hdir))
    exact ⟨before, by simp [hb], .inr hb⟩
  · exact ⟨dir.toList, by simp [slash], .inl rfl⟩

theorem ofText_join {dir name : String} (hdir : dir ≠ "") (hname : name ≠ "")
    (hslash : slash ∉ name.toList) :
    ofText (join dir name) = ⟨(ofText dir).absolute, (ofText dir).names ++ [name], false⟩ := by
  have hne : name.toList ≠ [] := by simpa using hname
  have hdne : dir.toList ≠ [] := by simpa using hdir
  obtain ⟨before, hjoin, hbefore⟩ := toList_join hdir name
  have hparts : parts before = parts dir.toList := by
    rcases hbefore with h | h
    · rw [h]
    · rw [h, parts_append_slash]
      exact (List.append_nil _).symm
  have hhead : (before ++ slash :: name.toList).head? = dir.toList.head? := by
    rcases hbefore with rfl | h
    · rw [List.head?_append, List.head?_eq_some_head hdne, Option.some_or]
    · rw [h]
      cases before <;> rfl
  have hlast : (before ++ slash :: name.toList).getLast? ≠ some slash := by
    rw [List.getLast?_append, List.getLast?_cons, List.getLast?_eq_some_getLast hne]
    exact fun h => hslash (Option.some.inj h ▸ List.getLast_mem hne)
  simp only [ofText, endsInSlash, hjoin, hhead, parts_append_slash, hparts,
    parts_of_not_mem hne hslash, String.ofList_toList, Path.mk.injEq, true_and, beq_eq_false_iff_ne]
  exact hlast

end Path

namespace Tree

/-- The node that a directory has under a name. Links are not followed. -/
def named? (t : Tree) (dir : NodeId) (name : String) : Option NodeId :=
  match t.node? dir with
  | some (.directory entries parent) =>
      if name = "." then some dir
      else if name = ".." then some parent
      else entries.lookup name
  | _ => none

variable {t : Tree} {making : Bool} {jump : NodeId → List String → Except Fault Place}

theorem LooksUp.onwards {dir : NodeId} {name : String} {rest rest' : List String}
    (hn : t.LooksUp false dir name rest) : t.LooksUp false dir name rest' where
  named := hn.named
  down := hn.down
  file := fun h => Bool.false_ne_true h.1
  attached := hn.attached
  short := hn.short

/-- A way comes by the node that its first names lead to. The induction is on these names;
`jump` is what happens behind a link, where the same is known for the names of its target. -/
theorem Way.split {rest : List String} (hrest : rest ≠ []) {p : Place} (onward : NodeId → Prop)
    (hhere : ∀ dir, Way t false jump dir rest p → onward dir)
    (hjump : ∀ dir names, jump dir (names ++ rest) = .ok p →
      ∃ mid, jump dir names = .ok (.node mid) ∧ onward mid)
    {names : List String} {dir : NodeId} (way : Way t false jump dir (names ++ rest) p) :
    ∃ mid, Way t false jump dir names (.node mid) ∧ onward mid := by
  induction names generalizing dir with
  | nil => exact ⟨dir, .here dir, hhere dir way⟩
  | cons name names ih =>
      rw [List.cons_append] at way
      generalize hall : names ++ rest = all at way
      cases way with
      | stay hd hn way =>
          subst hall
          obtain ⟨mid, way, hmid⟩ := ih way
          exact ⟨mid, .stay hd hn way, hmid⟩
      | up hd way =>
          subst hall
          obtain ⟨mid, way, hmid⟩ := ih way
          exact ⟨mid, .up hd way, hmid⟩
      | free => exact absurd (List.append_eq_nil_iff.mp hall).2 hrest
      | down hd hn hl hi way =>
          subst hall
          obtain ⟨mid, way, hmid⟩ := ih way
          exact ⟨mid, .down hd hn.onwards hl hi way, hmid⟩
      | along hd hn hl hi hj =>
          rw [← hall, ← List.append_assoc] at hj
          obtain ⟨mid, hj, hmid⟩ := hjump _ _ hj
          exact ⟨mid, .along hd hn.onwards hl hi hj, hmid⟩

/-- The names behind may be left fewer links. -/
theorem walk_split {links : Nat} {dir : NodeId} {names rest : List String} {p : Place}
    (hrest : rest ≠ []) (h : t.walk false links dir (names ++ rest) = .ok p) :
    ∃ mid, t.walk false links dir names = .ok (.node mid) ∧
      ∃ links', t.walk false links' mid rest = .ok p := by
  induction links generalizing dir names with
  | zero =>
      obtain ⟨mid, way, hmid⟩ := (way_of_walkNames h).split hrest
        (fun mid => ∃ links', t.walk false links' mid rest = .ok p)
        (fun _ way => ⟨0, way.walkNames_eq⟩) fun _ _ hj => by cases hj
      exact ⟨mid, way.walkNames_eq, hmid⟩
  | succ links ih =>
      obtain ⟨mid, way, hmid⟩ := (way_of_walkNames h).split hrest
        (fun mid => ∃ links', t.walk false links' mid rest = .ok p)
        (fun _ way => ⟨links + 1, way.walkNames_eq⟩) fun _ _ => ih
      exact ⟨mid, way.walkNames_eq, hmid⟩

theorem way_of_walk {links : Nat} {dir : NodeId} {names : List String} {p : Place}
    (h : t.walk making links dir names = .ok p) : ∃ jump, Way t making jump dir names p := by
  cases links with
  | zero => exact ⟨_, way_of_walkNames h⟩
  | succ links => exact ⟨_, way_of_walkNames h⟩

/-- One name leads from a directory to itself, to its parent or by an entry. -/
theorem Way.of_single {dir id : NodeId} {name : String}
    (way : Way t making jump dir [name] (.node id)) :
    ∃ entries parent, t.node? dir = some (.directory entries parent) ∧
      (id = dir ∨ id = parent ∨ name ∈ entries.map Prod.fst) := by
  cases way with
  | stay hd hn way =>
      cases way
      exact ⟨_, _, hd, .inl rfl⟩
  | up hd way =>
      cases way
      exact ⟨_, _, hd, .inr (.inl rfl)⟩
  | down hd hn hl | along hd hn hl =>
      obtain ⟨before, later, hadd, -⟩ := List.lookup_eq_some_iff.mp hl
      exact ⟨_, _, hd, .inr (.inr (by simp [hadd]))⟩

theorem Way.named?_of_single {dir id : NodeId} {name : String} (hname : name ≠ "")
    (way : Way t false jump dir [name] (.node id)) :
    ∃ entry, t.named? dir name = some entry ∧
      (entry = id ∨ ∃ target, t.node? entry = some (.link target) ∧
        jump ((Path.ofText target).base dir) (Path.ofText target).steps = .ok (.node id)) := by
  cases way with
  | stay hd hn way =>
      cases way
      exact ⟨dir, by simp [named?, hd, hn.resolve_left hname], .inl rfl⟩
  | up hd way =>
      cases way
      exact ⟨id, by simp [named?, hd], .inl rfl⟩
  | down hd hn hl hi way =>
      cases way
      obtain ⟨-, hdot⟩ := not_or.mp hn.named
      exact ⟨id, by simp [named?, hd, hdot, hn.down, hl], .inl rfl⟩
  | along hd hn hl hi hj =>
      obtain ⟨-, hdot⟩ := not_or.mp hn.named
      rw [List.append_nil] at hj
      exact ⟨_, by simp [named?, hd, hdot, hn.down, hl], .inr ⟨_, hi, hj⟩⟩

theorem named?_of_walk {links : Nat} {dir id : NodeId} {name : String} (hname : name ≠ "")
    (h : t.walk false links dir [name] = .ok (.node id)) :
    ∃ entry, t.named? dir name = some entry ∧
      (entry = id ∨ ∃ target links', t.node? entry = some (.link target) ∧
        t.walk false links' ((Path.ofText target).base dir) (Path.ofText target).steps =
          .ok (.node id)) := by
  cases links with
  | zero =>
      obtain ⟨entry, hentry, rfl | ⟨target, -, hj⟩⟩ := (way_of_walkNames h).named?_of_single hname
      · exact ⟨entry, hentry, .inl rfl⟩
      · cases hj
  | succ links =>
      obtain ⟨entry, hentry, rfl | ⟨target, hlink, hj⟩⟩ :=
        (way_of_walkNames h).named?_of_single hname
      · exact ⟨entry, hentry, .inl rfl⟩
      · exact ⟨entry, hentry, .inr ⟨target, links, hlink, hj⟩⟩

/-- A way to a directory is one with a slash at its end too. The induction is on the way; `jump`
is what happens behind a link. -/
theorem Way.concat_empty {mid parent : NodeId} {entries : List (String × NodeId)}
    (hmid : t.node? mid = some (.directory entries parent))
    (hjump : ∀ dir names, jump dir names = .ok (.node mid) →
      jump dir (names ++ [""]) = .ok (.node mid))
    {dir : NodeId} {names : List String} (way : Way t false jump dir names (.node mid)) :
    Way t false jump dir (names ++ [""]) (.node mid) := by
  generalize hp : Place.node mid = p at way
  induction way with
  | here dir =>
      cases hp
      exact .stay hmid (.inl rfl) (.here mid)
  | stay hd hn _ ih => exact .stay hd hn (ih hp)
  | up hd _ ih => exact .up hd (ih hp)
  | free => cases hp
  | down hd hn hl hi _ ih => exact .down hd hn.onwards hl hi (ih hp)
  | along hd hn hl hi hj =>
      subst hp
      have hj := hjump _ _ hj
      rw [List.append_assoc] at hj
      exact .along hd hn.onwards hl hi hj

theorem walk_concat_empty {mid parent : NodeId} {entries : List (String × NodeId)}
    (hmid : t.node? mid = some (.directory entries parent)) {links : Nat} {dir : NodeId}
    {names : List String} (h : t.walk false links dir names = .ok (.node mid)) :
    t.walk false links dir (names ++ [""]) = .ok (.node mid) := by
  induction links generalizing dir names with
  | zero => exact ((way_of_walkNames h).concat_empty hmid fun _ _ hj => by cases hj).walkNames_eq
  | succ links ih =>
      exact ((way_of_walkNames h).concat_empty hmid fun _ _ hj => ih hj).walkNames_eq

end Tree

namespace World

/-- The path leads to a directory, and that is in a directory. -/
def Lists (w : World) (path : String) : Prop :=
  ∃ id entries parent siblings above, w.locate path = .ok id ∧
    w.tree.node? id = some (.directory entries parent) ∧
    w.tree.node? parent = some (.directory siblings above)

theorem locate_eq_ok_iff {w : World} {path : String} {id : NodeId} :
    w.locate path = .ok id ↔
      '\x00' ∉ path.toList ∧ path ≠ "" ∧ path.utf8ByteSize < Path.pathLimit ∧
        w.tree.walk false Path.linkLimit ((Path.ofText path).base w.cwd) (Path.ofText path).steps =
          .ok (.node id) := by
  unfold locate resolve pathOf
  by_cases hnul : '\x00' ∈ path.toList
  · simp [hnul]
  by_cases hne : path = ""
  · simp [hne]
  by_cases hlong : Path.pathLimit ≤ path.utf8ByteSize
  · simp [hnul, hne, hlong, Nat.not_lt.mpr hlong]
  · simp only [List.contains_eq_mem, hnul, decide_false, Bool.false_eq_true, if_false, hne, hlong,
      not_false_eq_true, ne_eq, Nat.lt_of_not_le hlong, true_and]
    cases w.tree.walk false Path.linkLimit ((Path.ofText path).base w.cwd)
        (Path.ofText path).steps with
    | error fault => simp
    | ok p => cases p <;> simp

theorem utf8ByteSize_le_join (dir name : String) :
    dir.utf8ByteSize ≤ (Path.join dir name).utf8ByteSize := by
  unfold Path.join
  split <;> simp only [String.utf8ByteSize_append] <;> omega

theorem mem_join {dir name : String} {x : Char} (h : x ∈ dir.toList) :
    x ∈ (Path.join dir name).toList := by
  unfold Path.join
  split <;> simp [h]

/-- A name behind the path of a directory is looked up in that directory. -/
theorem exists_of_locate_join {w : World} {dir name : String} {id : NodeId} (hdir : dir ≠ "")
    (hname : name ≠ "") (hslash : Path.slash ∉ name.toList)
    (h : w.locate (Path.join dir name) = .ok id) :
    ∃ mid links, w.locate dir = .ok mid ∧ w.tree.walk false links mid [name] = .ok (.node id) := by
  obtain ⟨hnul, -, hlong, hwalk⟩ := locate_eq_ok_iff.mp h
  rw [Path.ofText_join hdir hname hslash] at hwalk
  simp only [Path.steps, Path.base, Bool.false_eq_true, if_false, List.append_nil] at hwalk
  obtain ⟨mid, hmid, links, hlast⟩ := Tree.walk_split (List.cons_ne_nil name []) hwalk
  refine ⟨mid, links, locate_eq_ok_iff.mpr ⟨fun hx => hnul (mem_join hx), hdir,
    Nat.lt_of_le_of_lt (utf8ByteSize_le_join dir name) hlong, ?_⟩, hlast⟩
  obtain ⟨jump, way⟩ := Tree.way_of_walk hlast
  obtain ⟨entries, parent, hnode, -⟩ := way.of_single
  cases hs : (Path.ofText dir).slashed with
  | false => simpa [Path.steps, Path.base, hs] using hmid
  | true => simpa [Path.steps, Path.base, hs] using Tree.walk_concat_empty hnode hmid

/-- The walk to the file comes by the directory, so the last name is one of its entries. -/
theorem mem_namesIn_of_isExecutable {w : World} {dir name : String} (hdir : w.Lists dir)
    (hname : name ≠ "") (hslash : Path.slash ∉ name.toList)
    (h : w.isExecutable (Path.join dir name) = true) : name ∈ w.namesIn dir := by
  obtain ⟨id, entries, parent, siblings, above, hlocate, hnode, hparent⟩ := hdir
  have hne : dir ≠ "" := (locate_eq_ok_iff.mp hlocate).2.1
  unfold isExecutable at h
  split at h
  · cases h
  · rename_i fid hfile
    obtain ⟨mid, links, hmid, hlast⟩ := exists_of_locate_join hne hname hslash hfile
    obtain rfl : id = mid := Except.ok.inj (hlocate.symm.trans hmid)
    obtain ⟨jump, way⟩ := Tree.way_of_walk hlast
    obtain ⟨entries', parent', hd, hcases⟩ := way.of_single
    rw [hnode] at hd
    cases hd
    rcases hcases with rfl | rfl | hmem
    · simp [hnode] at h
    · simp [hparent] at h
    · simpa [namesIn, hlocate, Tree.entries, hnode] using hmem

end World

end LineShell
