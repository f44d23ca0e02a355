import LineShell.Pipeline.Launch
import Mathlib.Logic.Relation

/-!
The stages of a pipeline side by side. The shell starts them one after the other, releases
the ends it still holds and waits; every started stage is a process that reads and writes
through the two ends it was handed. A pipe holds a bounded number of bytes: who reads an
empty pipe waits while there is a writer, who writes a full one while there is a reader. The
files and the working directory are there for all, and what one stage makes of them the others
find.
-/

namespace LineShell

namespace Feed

/-- What the next read finds, nothing at the end. -/
def front (f : Feed) : Bytes :=
  if f.head = [] then f.cycle else f.head

/-- What is left behind so many bytes of the front. -/
def behind (n : Nat) (f : Feed) : Feed :=
  { f with head := f.front.drop n }

end Feed

namespace Pipeline

inductive Act
  | read (most : Nat)
  | write (b : Bytes)
  /-- A write to the error stream, which all stages share. -/
  | complain (b : Bytes)
  /-- A look at the files and the working directory, and what is made of them at that moment. -/
  | visit (change : World → World)
  | closeInlet
  | closeOutlet
  | exit

inductive Reply
  /-- The bytes read, none at the end of the stream. -/
  | got (b : Bytes)
  | wrote
  /-- Nobody reads what was to be written. -/
  | broken
  /-- The files and the working directory as they were before the change. -/
  | saw (w : World)
  | done
  deriving DecidableEq, Repr

/-- What a process does next, given how its acts went so far, the latest first. -/
abbrev Conduct := List Reply → Act

/-- A builtin does its work on what it finds, writes its text or complains of its error, then
closes both its ends. -/
def Conduct.ofBuiltin (setting : Setting) (h : History) (b : Builtin)
    (arguments : List String) : Conduct
  | [] => .visit fun w => (b.run setting h w arguments).world
  | [.saw w] =>
      match (b.run setting h w arguments).result with
      | .ok s => .write (Bytes.ofText s)
      | .error e => .complain (Bytes.ofText e.line)
  | [_, _] => .closeOutlet
  | [_, _, _] => .closeInlet
  | _ => .exit

/-- The conduct of a process that has a working directory of its own: the shell's stays. -/
def Conduct.inPlace (k : Conduct) : Conduct := fun replies =>
  match k replies with
  | .visit change => .visit fun w => { change w with cwd := w.cwd }
  | act => act

/-- A started stage. An end that it has closed is none. -/
structure Process where
  conduct : Conduct
  replies : List Reply := []
  /-- How many bytes of the present write have been taken. -/
  sent : Nat := 0
  inlet : Option StreamEnd
  outlet : Option StreamEnd
  ended : Bool := false

namespace Process

def act (p : Process) : Act :=
  p.conduct p.replies

def answered (p : Process) (r : Reply) : Process :=
  { p with replies := r :: p.replies, sent := 0 }

def ends (p : Process) : List StreamEnd :=
  p.inlet.toList ++ p.outlet.toList

end Process

structure Traffic where
  pipes : Nat → Bytes
  /-- The session's streams and the files. -/
  console : Console
  /-- What has been written to the session's output. -/
  output : Bytes

namespace Traffic

def start (c : Console) : Traffic :=
  ⟨fun _ => [], c, []⟩

def setPipe (t : Traffic) (pipe : Nat) (b : Bytes) : Traffic :=
  { t with pipes := fun i => if i = pipe then b else t.pipes i }

def front (t : Traffic) : StreamEnd → Bytes
  | .reader pipe => t.pipes pipe
  | .input => t.console.input.front
  | _ => []

def consume (t : Traffic) (n : Nat) : StreamEnd → Traffic
  | .reader pipe => t.setPipe pipe ((t.pipes pipe).drop n)
  | .input => { t with console := { t.console with input := t.console.input.behind n } }
  | _ => t

def deliver (t : Traffic) (b : Bytes) : StreamEnd → Traffic
  | .writer pipe => t.setPipe pipe (t.pipes pipe ++ b)
  | .output => { t with console := t.console.write .out b, output := t.output ++ b }
  | _ => t

def visited (t : Traffic) (change : World → World) : Traffic :=
  { t with console := { t.console with world := change t.console.world } }

end Traffic

/-- What the run of a pipeline depends on beside its stages. -/
structure Circumstances where
  setting : Setting
  history : History
  programs : Nat → Conduct
  capacity : Nat → Nat
  /-- Somebody reads the session's output. -/
  outputRead : Bool

namespace Circumstances

variable (κ : Circumstances)

def conduct (stage : Nat) : Work → Conduct
  | .builtin b arguments => .ofBuiltin κ.setting κ.history b arguments
  | .program _ => (κ.programs stage).inPlace

def process (stage : Nat) (task : Task) : Process :=
  { conduct := κ.conduct stage task.work, inlet := some task.inlet, outlet := some task.outlet }

def Fits (t : Traffic) (n : Nat) : StreamEnd → Prop
  | .writer pipe => (t.pipes pipe).length + n ≤ κ.capacity pipe
  | _ => True

/-- Somebody reads what is written through an end, while these ends are open. -/
def Read (opened : List StreamEnd) : StreamEnd → Prop
  | .writer pipe => .reader pipe ∈ opened
  | _ => κ.outputRead = true

instance (t : Traffic) (n : Nat) : DecidablePred (κ.Fits t n)
  | .writer pipe => inferInstanceAs (Decidable ((t.pipes pipe).length + n ≤ κ.capacity pipe))
  | .input | .output | .reader _ => inferInstanceAs (Decidable True)

instance (opened : List StreamEnd) : DecidablePred (κ.Read opened)
  | .writer pipe => inferInstanceAs (Decidable (.reader pipe ∈ opened))
  | .input | .output | .reader _ => inferInstanceAs (Decidable (κ.outputRead = true))

end Circumstances

/-- More may come through an end, while these ends are open. The session's input never
keeps a reader waiting. -/
def Fed (opened : List StreamEnd) : StreamEnd → Prop
  | .reader pipe => .writer pipe ∈ opened
  | _ => False

inductive Move (κ : Circumstances) (opened : List StreamEnd) (p : Process) (t : Traffic) :
    Process → Traffic → Prop
  | take {most n : Nat} {e : StreamEnd} (ha : p.act = .read most) (hi : p.inlet = some e)
      (hn : 0 < n) (hm : n ≤ most) (hf : n ≤ (t.front e).length) :
      Move κ opened p t (p.answered (.got ((t.front e).take n))) (t.consume n e)
  | finish {most : Nat} {e : StreamEnd} (ha : p.act = .read most) (hi : p.inlet = some e)
      (hf : t.front e = []) (hw : ¬Fed opened e) :
      Move κ opened p t (p.answered (.got [])) t
  | readNothing {most : Nat} (ha : p.act = .read most) (h : most = 0 ∨ p.inlet = none) :
      Move κ opened p t (p.answered (.got [])) t
  | send {b : Bytes} {n : Nat} {e : StreamEnd} (ha : p.act = .write b) (ho : p.outlet = some e)
      (hr : κ.Read opened e) (hn : 0 < n) (hb : p.sent + n ≤ b.length) (hf : κ.Fits t n e) :
      Move κ opened p t { p with sent := p.sent + n }
        (t.deliver ((b.drop p.sent).take n) e)
  | sent {b : Bytes} (ha : p.act = .write b) (hb : b.length ≤ p.sent) :
      Move κ opened p t (p.answered .wrote) t
  | broken {b : Bytes} (ha : p.act = .write b) (hb : p.sent < b.length)
      (hr : ∀ e, p.outlet = some e → ¬κ.Read opened e) :
      Move κ opened p t (p.answered .broken) t
  | complain {b : Bytes} (ha : p.act = .complain b) :
      Move κ opened p t (p.answered .done) { t with console := t.console.write .err b }
  | visit {change : World → World} (ha : p.act = .visit change) :
      Move κ opened p t (p.answered (.saw t.console.world)) (t.visited change)
  | closeInlet (ha : p.act = .closeInlet) :
      Move κ opened p t { p.answered .done with inlet := none } t
  | closeOutlet (ha : p.act = .closeOutlet) :
      Move κ opened p t { p.answered .done with outlet := none } t
  | exit (ha : p.act = .exit) :
      Move κ opened p t { p with inlet := none, outlet := none, ended := true } t

inductive Phase
  /-- Starting the next stage, or giving up at one that cannot be started. -/
  | starting
  /-- Releasing the ends that no stage was handed. -/
  | releasing (left : List StreamEnd)
  /-- Waiting for the stages of these numbers, one after the other. -/
  | waiting (left : List Nat)
  | returned
  deriving DecidableEq, Repr

structure System where
  phase : Phase
  processes : List Process
  traffic : Traffic

end Pipeline

def Work.isBuiltin : Work → Bool
  | .builtin _ _ => true
  | .program _ => false

namespace Launch

/-- The ends of the tasks that are still to be started when so many are, and those that the
shell will release itself. -/
def remaining (l : Launch) (started : Nat) : List StreamEnd :=
  (l.started.drop started).flatMap (fun t => [t.inlet, t.outlet]) ++ l.released

/-- The numbers of the started stages, the builtins first, as the shell waits for them. -/
def awaited (l : Launch) : List Nat :=
  let builtin (i : Nat) : Bool := l.started[i]?.any (·.work.isBuiltin)
  let numbers := List.range l.started.length
  numbers.filter builtin ++ numbers.filter (!builtin ·)

end Launch

namespace Pipeline.System

def start (c : Console) : System :=
  ⟨.starting, [], .start c⟩

def held (l : Launch) (s : System) : List StreamEnd :=
  match s.phase with
  | .starting => l.remaining s.processes.length
  | .releasing left => left
  | .waiting _ | .returned => []

/-- All the ends that are open, whoever holds them. -/
def opened (l : Launch) (s : System) : List StreamEnd :=
  s.held l ++ s.processes.flatMap Process.ends

inductive Step (κ : Circumstances) (l : Launch) : System → System → Prop
  | launch {s : System} {task : Task} (hp : s.phase = .starting)
      (ht : l.started[s.processes.length]? = some task) :
      Step κ l s { s with processes := s.processes ++ [κ.process s.processes.length task] }
  | launched {s : System} (hp : s.phase = .starting) (hn : l.started.length ≤ s.processes.length) :
      Step κ l s { s with phase := .releasing l.released }
  | release {s : System} {e : StreamEnd} {left : List StreamEnd}
      (hp : s.phase = .releasing (e :: left)) :
      Step κ l s { s with phase := .releasing left }
  | await {s : System} (hp : s.phase = .releasing []) :
      Step κ l s { s with phase := .waiting l.awaited }
  | join {s : System} {i : Nat} {p : Process} {left : List Nat}
      (hp : s.phase = .waiting (i :: left)) (hi : s.processes[i]? = some p)
      (he : p.ended = true) :
      Step κ l s { s with phase := .waiting left }
  | back {s : System} (hp : s.phase = .waiting []) :
      Step κ l s { s with phase := .returned }
  | move {s : System} {i : Nat} {p p' : Process} {t : Traffic} (hi : s.processes[i]? = some p)
      (he : p.ended = false) (hm : Move κ (s.opened l) p s.traffic p' t) :
      Step κ l s { s with processes := s.processes.set i p', traffic := t }

/-- What the shell and the stages can come to, in any order of their steps. -/
def Reachable (κ : Circumstances) (l : Launch) (c : Console) : System → Prop :=
  Relation.ReflTransGen (Step κ l) (start c)

variable {κ : Circumstances} {l : Launch} {s s' : System} {i : Nat} {p q : Process}

theorem getElem?_launch (h : (s.processes ++ [q])[i]? = some p) :
    s.processes[i]? = some p ∨ i = s.processes.length ∧ p = q := by
  rw [List.getElem?_append] at h
  split at h
  · exact .inl h
  · obtain ⟨hlast, rfl⟩ := List.getElem?_eq_some_iff.mp h
    rw [List.length_singleton] at hlast
    exact .inr ⟨by omega, by simp⟩

theorem getElem?_move {j : Nat} (h : (s.processes.set j q)[i]? = some p) :
    s.processes[i]? = some p ∨ i = j ∧ p = q := by
  rw [List.getElem?_set] at h
  split at h
  · rename_i hj
    split at h
    · exact .inr ⟨hj.symm, (Option.some.inj h).symm⟩
    · cases h
  · exact .inl h

/-- After a step a process is what it was, has been started or has moved. -/
theorem Step.process (hs : Step κ l s s') (hi : s'.processes[i]? = some q) :
    s.processes[i]? = some q ∨
    (∃ task, l.started[i]? = some task ∧ q = κ.process i task) ∨
    ∃ p, s.processes[i]? = some p ∧ Move κ (s.opened l) p s.traffic q s'.traffic := by
  cases hs with
  | @launch task hp ht =>
      obtain hi | ⟨rfl, rfl⟩ := getElem?_launch hi
      · exact .inl hi
      · exact .inr (.inl ⟨task, ht, rfl⟩)
  | launched | release | await | join | back => exact .inl hi
  | @move j p p' t hj he hm =>
      obtain hi | ⟨rfl, rfl⟩ := getElem?_move hi
      · exact .inl hi
      · exact .inr (.inr ⟨p, hj, hm⟩)

end Pipeline.System

end LineShell
