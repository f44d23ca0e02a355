import LineShell.Proofs.Files.Frame

/-!
Several writes in a row, to the output and to the error stream in any order. What they make
of a stream depends on the bytes written to it alone, and consoles that show the same streams
and files still do so after the same writes.
-/

namespace LineShell

namespace Sink

/-- What a write depends on and changes of a file is its node. -/
theorem node?_write_congr (s : Sink) {w w' : World} {id : NodeId}
    (h : w.tree.node? id = w'.tree.node? id) (b : Bytes) :
    (s.write w b).2.tree.node? id = (s.write w' b).2.tree.node? id := by
  by_cases ht : s.target? = some id
  · cases s with
    | keep _ | discard | broken | refuse => cases ht
    | file target append offset =>
        cases ht
        cases append with
        | true => exact World.node?_appendTo_congr h b
        | false => exact World.node?_writeAt_congr h offset b
  · rw [s.node?_write w b ht, s.node?_write w' b ht, h]

/-- What becomes of a sink when bytes are written to it, whatever the files hold. -/
def wrote (s : Sink) (b : Bytes) : Sink :=
  (s.write ⟨Tree.empty, Tree.root⟩ b).1

@[simp] theorem fst_write (s : Sink) (w : World) (b : Bytes) : (s.write w b).1 = s.wrote b := by
  cases s with
  | keep _ | discard | broken | refuse => rfl
  | file target append offset => cases append <;> rfl

theorem wrote_keep {kept : Feed} (h : kept.cycle = []) (b : Bytes) :
    (keep kept).wrote b = .keep { kept with head := kept.head ++ b } := by
  simp [wrote, write, flooded, h]

@[simp] theorem wrote_nil (s : Sink) : s.wrote [] = s := by
  cases s with
  | keep kept =>
      simp only [wrote, write, List.append_nil]
      split <;> rfl
  | discard | broken | refuse => rfl
  | file target append offset => cases append <;> rfl

theorem wrote_wrote (s : Sink) (a b : Bytes) : (s.wrote a).wrote b = s.wrote (a ++ b) := by
  cases s with
  | keep kept =>
      by_cases hf : kept.cycle = []
      · have hf' : ({ kept with head := kept.head ++ a } : Feed).cycle = [] := hf
        rw [wrote_keep hf, wrote_keep hf', wrote_keep hf, List.append_assoc]
      · simp [wrote, write, flooded, hf]
  | discard | broken | refuse => rfl
  | file target append offset =>
      cases append with
      | true => rfl
      | false => simp [wrote, write, Nat.add_assoc]

@[simp] theorem target?_wrote (s : Sink) (b : Bytes) : (s.wrote b).target? = s.target? := by
  cases s with
  | keep kept =>
      simp only [wrote, write]
      split <;> rfl
  | discard | broken | refuse => rfl
  | file target append offset => cases append <;> rfl

theorem snd_write_of_target?_eq_none {s : Sink} (h : s.target? = none) (w : World) (b : Bytes) :
    (s.write w b).2 = w := by
  cases s with
  | keep _ | discard | broken | refuse => rfl
  | file target append offset => cases h

theorem snd_write_keep (kept : Feed) (w : World) (b : Bytes) : ((keep kept).write w b).2 = w :=
  rfl

end Sink

abbrev Writes := List (Channel × Bytes)

namespace Writes

def on (channel : Channel) (ws : Writes) : Bytes :=
  ((ws.filter (·.1 = channel)).map Prod.snd).flatten

def complaints (ws : Writes) : Writes :=
  ws.filter (·.1 = .err)

@[simp] theorem on_nil (channel : Channel) : on channel [] = [] := rfl

@[simp] theorem on_append (channel : Channel) (ws ws' : Writes) :
    on channel (ws ++ ws') = on channel ws ++ on channel ws' := by
  simp [on]

theorem on_cons (channel : Channel) (w : Channel × Bytes) (ws : Writes) :
    on channel (w :: ws) = (if w.1 = channel then w.2 else []) ++ on channel ws := by
  by_cases h : w.1 = channel <;> simp [on, h]

@[simp] theorem on_out_complaints (ws : Writes) : on .out ws.complaints = [] := by
  induction ws with
  | nil => rfl
  | cons w ws ih =>
      obtain ⟨channel, b⟩ := w
      cases channel with
      | out => exact ih
      | err => exact ih

@[simp] theorem on_err_complaints (ws : Writes) : on .err ws.complaints = on .err ws := by
  simp [on, complaints]

end Writes

namespace Console

def writes (c : Console) (ws : Writes) : Console :=
  ws.foldl (fun c w => c.write w.1 w.2) c

@[simp] theorem writes_nil (c : Console) : c.writes [] = c := rfl

@[simp] theorem writes_cons (c : Console) (w : Channel × Bytes) (ws : Writes) :
    c.writes (w :: ws) = (c.write w.1 w.2).writes ws := rfl

theorem writes_append (c : Console) (ws ws' : Writes) :
    c.writes (ws ++ ws') = (c.writes ws).writes ws' :=
  List.foldl_append

theorem out_writes (c : Console) (ws : Writes) : (c.writes ws).out = c.out.wrote (ws.on .out) := by
  induction ws generalizing c with
  | nil => simp
  | cons w ws ih =>
      obtain ⟨channel, b⟩ := w
      rw [writes_cons, ih, Writes.on_cons]
      cases channel with
      | out => simp [write, Sink.wrote_wrote]
      | err => simp [write]

theorem err_writes (c : Console) (ws : Writes) : (c.writes ws).err = c.err.wrote (ws.on .err) := by
  induction ws generalizing c with
  | nil => simp
  | cons w ws ih =>
      obtain ⟨channel, b⟩ := w
      rw [writes_cons, ih, Writes.on_cons]
      cases channel with
      | out => simp [write]
      | err => simp [write, Sink.wrote_wrote]

/-- Where the output is kept for a reader, only what is written to the error stream shows. -/
theorem writes_keep {c d : Console} {kept : Feed} (ho : d.out = .keep kept) (he : d.err = c.err)
    (hw : d.world = c.world) (ws : Writes) :
    (d.writes ws).err = (c.writes ws.complaints).err ∧
      (d.writes ws).world = (c.writes ws.complaints).world := by
  induction ws generalizing c d kept with
  | nil => exact ⟨he, hw⟩
  | cons w ws ih =>
      obtain ⟨channel, b⟩ := w
      cases channel with
      | out =>
          have hd : (d.write .out b).world = d.world := by simp [write, ho, Sink.snd_write_keep]
          obtain ⟨kept', ho'⟩ : ∃ kept', (d.write .out b).out = .keep kept' := by
            simp only [write, ho, Sink.write]
            split
            · exact ⟨kept, rfl⟩
            · exact ⟨_, rfl⟩
          exact ih ho' he (hd.trans hw)
      | err =>
          have he' : (d.write .err b).err = (c.write .err b).err := by simp [write, he]
          have hw' : (d.write .err b).world = (c.write .err b).world := by
            simp only [write, he, hw]
          exact ih ho he' hw'

/-- The same streams, and the same in some of the files. -/
structure SameStreams (watched : List NodeId) (c d : Console) : Prop where
  out : c.out = d.out
  err : c.err = d.err
  files : ∀ id ∈ watched, c.world.tree.node? id = d.world.tree.node? id

namespace SameStreams

variable {watched : List NodeId} {c d e : Console}

theorem refl (watched : List NodeId) (c : Console) : SameStreams watched c c :=
  ⟨rfl, rfl, fun _ _ => rfl⟩

theorem trans (h : SameStreams watched c d) (h' : SameStreams watched d e) :
    SameStreams watched c e where
  out := h.out.trans h'.out
  err := h.err.trans h'.err
  files id hid := (h.files id hid).trans (h'.files id hid)

theorem write (h : SameStreams watched c d) (channel : Channel) (b : Bytes) :
    SameStreams watched (c.write channel b) (d.write channel b) := by
  cases channel with
  | out =>
      refine ⟨?_, h.err, fun id hid => ?_⟩
      · simp [Console.write, h.out]
      · simpa only [Console.write, h.out] using d.out.node?_write_congr (h.files id hid) b
  | err =>
      refine ⟨h.out, ?_, fun id hid => ?_⟩
      · simp [Console.write, h.err]
      · simpa only [Console.write, h.err] using d.err.node?_write_congr (h.files id hid) b

theorem writes (h : SameStreams watched c d) (ws : Writes) :
    SameStreams watched (c.writes ws) (d.writes ws) := by
  induction ws generalizing c d with
  | nil => exact h
  | cons w ws ih => exact ih (h.write w.1 w.2)

end SameStreams

end Console

end LineShell
