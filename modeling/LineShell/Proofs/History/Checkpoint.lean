import LineShell.Execution

/-!
The checkpoint of a history under any operations, each on files of its own. What successful
appends write, all together, are the lines that were pushed and met an append before a load,
each once and in order. What a session executes makes such a run of its history, to which the
copies that the stages of pipelines work on add nothing.
-/

namespace LineShell

theorem isOk_iff {ε α : Type} {x : Except ε α} : x.isOk = true ↔ ∃ a, x = .ok a := by
  cases x <;> simp [Except.isOk, Except.toBool]

namespace Builtin

/-- Whether a transfer succeeds is up to the files alone. -/
def Transfer.succeeds (w : World) (file : String) : Transfer → Bool
  | .read => (w.readText file).isOk
  | .write | .append => (w.openFile file).isOk

variable (h : History) {w : World} {file : String}

theorem Transfer.succeeds_read_iff :
    Transfer.read.succeeds w file = true ↔ ∃ text, w.readText file = .ok text :=
  isOk_iff

theorem Transfer.succeeds_append_iff :
    Transfer.append.succeeds w file = true ↔ ∃ opened, w.openFile file = .ok opened :=
  isOk_iff

theorem isOk_runHistory (w : World) (t : Transfer) (file : String) :
    (runHistory h w (.transfer t file)).result.isOk = t.succeeds w file := by
  cases t with
  | read =>
      simp only [runHistory, History.readFrom, Transfer.succeeds]
      cases w.readText file <;> rfl
  | write =>
      simp only [runHistory, History.writeTo, World.writeFile, World.openNew, Transfer.succeeds]
      cases w.openFile file <;> rfl
  | append =>
      simp only [runHistory, History.appendTo, World.appendFile, Transfer.succeeds]
      cases w.openFile file <;> rfl

theorem history_runHistory_of_fails {t : Transfer} (ht : t.succeeds w file = false) :
    (runHistory h w (.transfer t file)).history = h := by
  cases t with
  | read =>
      simp only [runHistory, History.readFrom]
      cases hr : w.readText file with
      | error _ => rfl
      | ok text => simp [Transfer.succeeds_read_iff.mpr ⟨text, hr⟩] at ht
  | write =>
      simp only [runHistory]
      cases h.writeTo w file <;> rfl
  | append =>
      simp only [runHistory, History.appendTo, World.appendFile]
      cases ho : w.openFile file with
      | error _ => rfl
      | ok opened => simp [Transfer.succeeds_append_iff.mpr ⟨opened, ho⟩] at ht

theorem history_runHistory_write (w : World) (file : String) :
    (runHistory h w (.transfer .write file)).history = h := by
  simp only [runHistory]
  cases h.writeTo w file <;> rfl

theorem history_runHistory_read {text : String} (ht : w.readText file = .ok text) :
    (runHistory h w (.transfer .read file)).history = h.absorb text := by
  simp only [runHistory, History.readFrom, ht]

theorem history_runHistory_append (ht : Transfer.append.succeeds w file = true) :
    (runHistory h w (.transfer .append file)).history =
      { h with saved := h.entries.length } := by
  obtain ⟨opened, ho⟩ := Transfer.succeeds_append_iff.mp ht
  simp only [runHistory, History.appendTo, World.appendFile, ho]

end Builtin

/-- The transfer that the words of a command ask for. -/
def Builtin.transferOf? : List String → Option (Transfer × String)
  | name :: option :: file :: _ =>
      if name = Builtin.history.name then (transfer? option).map fun t => (t, file) else none
  | _ => none

section

variable (m : Machine) (setting : Setting) (h : History) (c : Console)

theorem Builtin.history_run_of_ne {b : Builtin} (hb : b ≠ .history) (w : World)
    (arguments : List String) : (b.run setting h w arguments).history = h := by
  cases b with
  | echo | type | pwd => rfl
  | cd =>
      simp only [run]
      cases enter setting.home w arguments.head? <;> rfl
  | history => exact absurd rfl hb

theorem Builtin.history_run_history (w : World) (arguments : List String) :
    (Builtin.history.run setting h w arguments).history =
      match transferOf? (Builtin.history.name :: arguments) with
      | some (t, file) => (runHistory h w (.transfer t file)).history
      | none => h := by
  match arguments with
  | [] | [_] => rfl
  | option :: file :: rest =>
      simp only [run, HistoryRequest.ofArguments, transferOf?, if_true]
      cases transfer? option <;> rfl

theorem Dispatch.ofName_history : Dispatch.ofName Builtin.history.name = .builtin .history := by
  decide

theorem Dispatch.name_of_ofName {name : String} {b : Builtin}
    (hd : Dispatch.ofName name = .builtin b) : b.name = name := by
  unfold Dispatch.ofName at hd
  split at hd
  · cases hd
  · split at hd
    · rename_i hb
      cases hd
      exact Builtin.name_of_ofName? hb
    · cases hd

theorem Builtin.transferOf?_of_ne {name : String} (hn : name ≠ Builtin.history.name)
    (arguments : List String) : transferOf? (name :: arguments) = none := by
  match arguments with
  | [] | [_] => rfl
  | _ :: _ :: _ => simp [transferOf?, hn]

/-- Of all single commands only a transfer changes the history. -/
theorem history_runCommand (args : List String) :
    (runCommand m setting h c args).history =
      match Builtin.transferOf? args with
      | some (t, file) => (Builtin.runHistory h c.world (.transfer t file)).history
      | none => h := by
  cases args with
  | nil => rfl
  | cons name arguments =>
      by_cases hn : name = Builtin.history.name
      · subst hn
        simp only [runCommand, Dispatch.ofName_history]
        exact Builtin.history_run_history setting h c.world arguments
      · rw [Builtin.transferOf?_of_ne hn, runCommand]
        split
        · rfl
        · rename_i b hd
          have hb : b ≠ .history := fun he => hn (by rw [← Dispatch.name_of_ofName hd, he])
          exact Builtin.history_run_of_ne setting h hb c.world arguments
        · split
          · rfl
          · split <;> rfl

end

namespace History

open Builtin (Transfer runHistory)

inductive Deed
  | push (line : String)
  | transfer (t : Transfer) (file : String)

/-- An operation, and the files as it finds them. -/
structure Turn where
  world : World
  deed : Deed

namespace Turn

def next (h : History) (t : Turn) : History :=
  match t.deed with
  | .push line => h.push line
  | .transfer x file => (runHistory h t.world (.transfer x file)).history

/-- The transfer that succeeds in a turn. -/
def done (t : Turn) : Option Transfer :=
  match t.deed with
  | .push _ => none
  | .transfer x file => if x.succeeds t.world file then some x else none

/-- The bytes that a successful append puts behind what its file holds. -/
def output (h : History) (t : Turn) : Bytes :=
  if t.done = some .append then Bytes.ofText (fileText h.pending) else []

/-- After a load or an append nothing is left to be appended. -/
def settles (t : Turn) : Bool :=
  t.done = some .read ∨ t.done = some .append

end Turn

def after (h : History) (turns : List Turn) : History :=
  turns.foldl Turn.next h

theorem after_append (h : History) (turns later : List Turn) :
    h.after (turns ++ later) = (h.after turns).after later :=
  List.foldl_append

/-- All that the appends of some turns write, in order of time. -/
def outputs (h : History) : List Turn → Bytes
  | [] => []
  | t :: later => t.output h ++ outputs (t.next h) later

def pushed (turns : List Turn) : List String :=
  turns.filterMap fun t =>
    match t.deed with
    | .push line => some line
    | .transfer _ _ => none

/-- Of all the turns that settle what is pending, an append comes first. -/
def appendsFirst (turns : List Turn) : Bool :=
  (turns.find? Turn.settles).any fun t => t.done = some .append

/-- The pushed lines that meet an append before a load. -/
def due : List Turn → List String
  | [] => []
  | t :: later =>
      match t.deed with
      | .push line => if appendsFirst later then line :: due later else due later
      | .transfer _ _ => due later

/-- All that a turn can come to. -/
inductive Turn.Comes (h : History) (t : Turn) : History → Prop
  | pushes (line : String) (hd : t.deed = .push line) : Comes h t (h.push line)
  | loads (text : String) (hd : t.done = some .read) : Comes h t (h.absorb text)
  | saves (hd : t.done = some .append) : Comes h t { h with saved := h.entries.length }
  | stays {x : Transfer} {file : String} (hd : t.deed = .transfer x file)
      (hs : t.settles = false) : Comes h t h

theorem Turn.comes_next (h : History) (t : Turn) : t.Comes h (t.next h) := by
  obtain ⟨w, deed⟩ := t
  cases deed with
  | push line => exact .pushes line rfl
  | transfer x file =>
      cases hx : x.succeeds w file with
      | false =>
          simp only [next, Builtin.history_runHistory_of_fails h hx]
          exact .stays rfl (by simp [settles, done, hx])
      | true =>
          cases x with
          | read =>
              obtain ⟨text, ht⟩ := Transfer.succeeds_read_iff.mp hx
              simp only [next, Builtin.history_runHistory_read h ht]
              exact .loads text (by simp [done, hx])
          | write =>
              simp only [next, Builtin.history_runHistory_write]
              exact .stays rfl (by simp [settles, done, hx])
          | append =>
              simp only [next, Builtin.history_runHistory_append h hx]
              exact .saves (by simp [done, hx])

theorem saved_next_le {h : History} (hs : h.saved ≤ h.entries.length) (t : Turn) :
    (t.next h).saved ≤ (t.next h).entries.length := by
  generalize hn : t.next h = h'
  cases hn ▸ t.comes_next h with
  | pushes line _ => simp only [push, List.length_append]; omega
  | loads text _ => exact Nat.le_refl _
  | saves _ => exact Nat.le_refl _
  | stays _ _ => exact hs

theorem saved_after_le {h : History} (hs : h.saved ≤ h.entries.length) (turns : List Turn) :
    (h.after turns).saved ≤ (h.after turns).entries.length := by
  induction turns generalizing h with
  | nil => exact hs
  | cons t later ih => exact ih (saved_next_le hs t)

theorem fileText_append (es es' : List String) :
    fileText (es ++ es') = fileText es ++ fileText es' := by
  simp [fileText, String.join_append]

theorem pending_push {h : History} (hs : h.saved ≤ h.entries.length) (line : String) :
    (h.push line).pending = h.pending ++ [line] := by
  simp [pending, push, List.drop_append_of_le_length hs]

theorem pending_absorb (h : History) (text : String) : (h.absorb text).pending = [] := by
  simp [pending, absorb]

theorem pending_saved (h : History) : { h with saved := h.entries.length }.pending = [] := by
  simp [pending]

theorem appendsFirst_cons_of_settles {t : Turn} (hs : t.settles = true) (later : List Turn) :
    appendsFirst (t :: later) = decide (t.done = some .append) := by
  simp [appendsFirst, hs]

theorem appendsFirst_cons_of_not_settles {t : Turn} (hs : t.settles = false)
    (later : List Turn) : appendsFirst (t :: later) = appendsFirst later := by
  simp [appendsFirst, hs]

theorem due_cons_of_done {t : Turn} {x : Transfer} (hd : t.done = some x) (later : List Turn) :
    due (t :: later) = due later := by
  obtain ⟨w, deed⟩ := t
  cases deed with
  | push line => cases hd
  | transfer _ _ => rfl

/-- What is pending now is written with the first append to come, unless a load is before it.
The induction is on the turns; the checkpoint in range makes a new line the last pending one. -/
theorem outputs_eq {h : History} (hs : h.saved ≤ h.entries.length) (turns : List Turn) :
    h.outputs turns =
      Bytes.ofText (fileText ((if appendsFirst turns then h.pending else []) ++ due turns)) := by
  induction turns generalizing h with
  | nil => rfl
  | cons t later ih =>
      have ih := ih (saved_next_le hs t)
      simp only [outputs, ih]
      generalize hn : t.next h = h'
      cases hn ▸ t.comes_next h with
      | pushes line hd =>
          have hdone : t.done = none := by simp [Turn.done, hd]
          have hset : t.settles = false := by simp [Turn.settles, hdone]
          simp only [Turn.output, hdone, appendsFirst_cons_of_not_settles hset, due, hd,
            pending_push hs, reduceCtorEq, if_false, List.nil_append]
          split <;> simp
      | loads text hd =>
          have hset : t.settles = true := by simp [Turn.settles, hd]
          simp [Turn.output, hd, appendsFirst_cons_of_settles hset, due_cons_of_done hd,
            pending_absorb]
      | saves hd =>
          have hset : t.settles = true := by simp [Turn.settles, hd]
          simp [Turn.output, hd, appendsFirst_cons_of_settles hset, due_cons_of_done hd,
            pending_saved, fileText_append, Bytes.ofText_append]
      | @stays x file hd hset =>
          have hdone : t.done ≠ some .append := fun he => by simp [Turn.settles, he] at hset
          simp [Turn.output, hdone, appendsFirst_cons_of_not_settles hset, due, hd]

theorem due_sublist (turns : List Turn) : (due turns).Sublist (pushed turns) := by
  induction turns with
  | nil => exact List.Sublist.refl _
  | cons t later ih =>
      obtain ⟨w, deed⟩ := t
      cases deed with
      | push line =>
          simp only [due, pushed, List.filterMap_cons]
          split
          · exact ih.cons_cons line
          · exact ih.cons line
      | transfer x file => exact ih

/-- The turn that the segments of a line give to the history of the session. -/
def asked (w : World) : List (List String) → List Turn
  | [args] => (Builtin.transferOf? args).toList.map fun x => ⟨w, .transfer x.1 x.2⟩
  | _ => []

theorem history_execute (m : Machine) (setting : Setting) (h : History) (c : Console)
    (segs : List (List String)) :
    (execute m setting h c segs).history = h.after (asked c.world segs) := by
  match segs with
  | [] => rfl
  | _ :: _ :: _ => rfl
  | [args] =>
      rw [execute, history_runCommand, asked]
      cases Builtin.transferOf? args with
      | none => rfl
      | some x => rfl

/-- The history that a session is left with when it has executed some segments, each time on
streams and files of its own. -/
def handedOn (m : Machine) (setting : Setting) (h : History)
    (jobs : List (Console × List (List String))) : History :=
  jobs.foldl (fun h job => (execute m setting h job.1 job.2).history) h

theorem handedOn_eq (m : Machine) (setting : Setting) (h : History)
    (jobs : List (Console × List (List String))) :
    handedOn m setting h jobs = h.after (jobs.flatMap fun job => asked job.1.world job.2) := by
  induction jobs generalizing h with
  | nil => rfl
  | cons job later ih =>
      rw [handedOn, List.foldl_cons, history_execute, List.flatMap_cons, after_append]
      exact ih _

theorem done_eq_some_iff (h : History) (w : World) (x : Transfer) (file : String) :
    (Turn.mk w (.transfer x file)).done = some x ↔
      (runHistory h w (.transfer x file)).result.isOk = true := by
  simp [Turn.done, Builtin.isOk_runHistory]

theorem fails_or_keeps (h : History) (w : World) (x : Transfer) (file : String) :
    ((runHistory h w (.transfer x file)).result.isOk = true ∧ x ≠ .write) ∨
      (runHistory h w (.transfer x file)).history = h := by
  by_cases hx : x = .write
  · subst hx
    exact Or.inr (Builtin.history_runHistory_write h w file)
  · cases hs : x.succeeds w file with
    | true => exact Or.inl ⟨(Builtin.isOk_runHistory h w x file).trans hs, hx⟩
    | false => exact Or.inr (Builtin.history_runHistory_of_fails h hs)

/-- The output of an append goes behind what the file holds; an append that fails writes
nothing. -/
theorem world_runHistory_append (h : History) (w : World) (file : String) :
    (runHistory h w (.transfer .append file)).world =
      match w.openFile file with
      | .ok (id, w') => w'.appendTo id (Turn.output h ⟨w, .transfer .append file⟩)
      | .error _ => w := by
  simp only [runHistory, appendTo, World.appendFile]
  cases ho : w.openFile file with
  | error _ => rfl
  | ok opened =>
      have hd : (Turn.mk w (.transfer .append file)).done = some .append := by
        simp [Turn.done, Transfer.succeeds_append_iff.mpr ⟨opened, ho⟩]
      simp [Turn.output, hd]

/-- From a new history on, the appends write the pushed lines that meet an append before a
load, and nothing else; the checkpoint stays in range. What fails and what only writes leaves
the history alone. The history of a session goes the way of the transfers that it executes on
their own: what the stages of its pipelines do to their copies is not handed on. -/
theorem appends_write_pushes_once :
    (∀ turns : List Turn,
      (after {} turns).saved ≤ (after {} turns).entries.length ∧
      outputs {} turns = Bytes.ofText (fileText (due turns)) ∧
      (due turns).Sublist (pushed turns)) ∧
    (∀ (h : History) (w : World) (x : Transfer) (file : String),
      let e := runHistory h w (.transfer x file)
      ((Turn.mk w (.transfer x file)).done = some x ↔ e.result.isOk = true) ∧
      ((e.result.isOk = true ∧ x ≠ .write) ∨ e.history = h)) ∧
    (∀ (h : History) (w : World) (file : String),
      (runHistory h w (.transfer .append file)).world =
        match w.openFile file with
        | .ok (id, w') => w'.appendTo id (Turn.output h ⟨w, .transfer .append file⟩)
        | .error _ => w) ∧
    ∀ (m : Machine) (setting : Setting) (h : History) (jobs : List (Console × List (List String))),
      handedOn m setting h jobs = h.after (jobs.flatMap fun job => asked job.1.world job.2) := by
  refine ⟨fun turns => ⟨?_, ?_, due_sublist turns⟩, fun h w x file => ⟨?_, ?_⟩,
    world_runHistory_append, handedOn_eq⟩
  · exact saved_after_le (Nat.le_refl 0) turns
  · have ho := outputs_eq (h := {}) (Nat.le_refl 0) turns
    simpa [pending] using ho
  · exact done_eq_some_iff h w x file
  · exact fails_or_keeps h w x file

/-- An append that fails, one that comes after a load and one that has nothing to add. -/
theorem outputs_around_load :
    let empty : World := ⟨Tree.empty, Tree.root⟩
    let turns : List Turn := [⟨empty, .push "a"⟩, ⟨empty, .transfer .append "/"⟩,
      ⟨empty, .transfer .append "f"⟩, ⟨empty, .push "b"⟩,
      ⟨⟨⟨#[.directory [("g", 1)] 0, .file [99, 10] 0o644]⟩, Tree.root⟩, .transfer .read "g"⟩,
      ⟨empty, .push "d"⟩, ⟨empty, .transfer .write "f"⟩, ⟨empty, .transfer .append "f"⟩,
      ⟨empty, .transfer .append "f"⟩]
    outputs {} turns = Bytes.ofText "a\nd\n" := by
  intro empty turns
  have hdue : due turns = ["a", "d"] := by decide +kernel
  rw [(appends_write_pushes_once.1 turns).2.1, hdue]
  decide +kernel

end History

end LineShell
