import LineShell.Proofs.Pipeline.Closing
import LineShell.Proofs.Pipeline.Course
import LineShell.Proofs.Pipeline.Dataflow
import LineShell.Proofs.Pipeline.Progress

/-!
What the order of steps does not change. However the stages of a pipeline take turns and
however little its pipes hold, when the shell has returned, the session's output has received
what comes out of the stages one after the other.
-/

namespace LineShell

theorem Feed.front_eq_head {f : Feed} (h : f.cycle = []) : f.front = f.head := by
  rw [front, h]
  split
  · rename_i hnil
    exact hnil.symm
  · rfl

namespace Launch

theorem start_ofStages (m : Machine) (found : Nat → Console) (i : Nat) (stages : List Stage)
    (ins outs : List StreamEnd) :
    ∀ (k : Nat) (task : Task), (ofStages m found i stages ins outs).started[k]? = some task →
      ∃ stage, stages[k]? = some stage ∧
        stage.start m (i + k) (found (i + k)) = .ok task.work := by
  fun_induction ofStages m found i stages ins outs with
  | case1 | case2 | case4 => simp
  | case3 i stage rest inlet ins outlet outs _ work hw l ih =>
      intro k task h
      cases k with
      | zero =>
          cases h
          exact ⟨stage, rfl, hw⟩
      | succ k =>
          obtain ⟨next, hnext, hwork⟩ := ih k task h
          exact ⟨next, hnext, by rwa [Nat.succ_add_eq_add_succ] at hwork⟩

theorem length_ofStages (m : Machine) (found : Nat → Console) (i : Nat) (stages : List Stage)
    (ins outs : List StreamEnd) (hi : stages.length ≤ ins.length)
    (ho : stages.length ≤ outs.length)
    (hl : (ofStages m found i stages ins outs).failure = none) :
    (ofStages m found i stages ins outs).started.length = stages.length := by
  fun_induction ofStages m found i stages ins outs with
  | case1 | case2 => cases hl
  | case3 i stage rest inlet ins outlet outs _ work hw l ih =>
      exact congrArg (· + 1) (ih (Nat.le_of_succ_le_succ hi) (Nat.le_of_succ_le_succ ho) hl)
  | case4 stages i ins outs hno =>
      cases stages with
      | nil => rfl
      | cons stage rest =>
          cases ins with
          | nil => cases hi
          | cons inlet ins =>
              cases outs with
              | nil => cases ho
              | cons outlet outs => exact absurd rfl (hno stage rest inlet ins outlet outs rfl rfl)

variable {m : Machine} {found : Nat → Console} {stages : List Stage}

theorem start_ofPipeline {k : Nat} {task : Task}
    (h : (ofPipeline m found stages).started[k]? = some task) :
    ∃ stage, stages[k]? = some stage ∧ stage.start m k (found k) = .ok task.work := by
  simp only [ofPipeline] at h
  split at h
  · simp at h
  · simpa only [Nat.zero_add] using start_ofStages m found 0 stages _ _ k task h

theorem length_ofPipeline (hl : (ofPipeline m found stages).failure = none) :
    (ofPipeline m found stages).started.length = stages.length := by
  simp only [ofPipeline] at hl ⊢
  split at hl
  · cases hl
  · refine length_ofStages m found 0 stages _ _ ?_ ?_ hl
    · simp [inlets]
      omega
    · simp [outlets]
      omega

/-- Where every stage has been started, the last one writes on the session's output and each
other one into the pipe behind it. -/
theorem outlet_ofPipeline (hl : (ofPipeline m found stages).failure = none) {k : Nat} {task : Task}
    (h : (ofPipeline m found stages).started[k]? = some task) :
    task.outlet =
      if k + 1 = (ofPipeline m found stages).started.length then .output else .writer k := by
  have hlen := length_ofPipeline hl
  have hk : k < stages.length := hlen ▸ (List.getElem?_eq_some_iff.mp h).1
  have hout := (started_ofPipeline h).2
  rw [hlen]
  rw [outlets, List.getElem?_append] at hout
  split at hout
  · rename_i hlt
    rw [List.length_map, List.length_range] at hlt
    rw [if_neg (by omega)]
    simpa [hlt] using hout.symm
  · rename_i hge
    rw [List.length_map, List.length_range] at hge
    rw [if_pos (by omega)]
    have hzero : k - ((List.range (stages.length - 1)).map StreamEnd.writer).length = 0 := by
      simp
      omega
    rw [hzero] at hout
    exact (Option.some.inj hout).symm

end Launch

namespace Pipeline

namespace System

variable {κ : Circumstances} {l : Launch} {s s' : System}

/-- Some bytes of the process of this number, none if it has not been started. -/
def bytesOf (s : System) (g : Process → Bytes) (i : Nat) : Bytes :=
  (s.processes[i]?).elim [] g

def takenAt (s : System) : Nat → Bytes :=
  s.bytesOf fun p => taken p.replies

def deliveredAt (s : System) : Nat → Bytes :=
  s.bytesOf Process.delivered

theorem bytesOf_eq {i : Nat} {p : Process} (hi : s.processes[i]? = some p) (g : Process → Bytes) :
    s.bytesOf g i = g p := by
  rw [bytesOf, hi]
  rfl

theorem bytesOf_launch (s : System) {q : Process} {g : Process → Bytes} (hg : g q = []) (i : Nat) :
    bytesOf { s with processes := s.processes ++ [q] } g i = s.bytesOf g i := by
  simp only [bytesOf, List.getElem?_append]
  split
  · rfl
  · rename_i hge
    rw [List.getElem?_eq_none (Nat.le_of_not_lt hge)]
    cases i - s.processes.length with
    | zero => exact hg
    | succ _ => rfl

theorem bytesOf_set {i : Nat} {p : Process} (hi : s.processes[i]? = some p) (p' : Process)
    (t : Traffic) (g : Process → Bytes) (j : Nat) :
    bytesOf { s with processes := s.processes.set i p', traffic := t } g j =
      if j = i then g p' else s.bytesOf g j := by
  have hlt : i < s.processes.length := (List.getElem?_eq_some_iff.mp hi).1
  by_cases hj : j = i
  · subst hj
    simp [bytesOf, hlt]
  · simp [bytesOf, hj, List.getElem?_set_ne (Ne.symm hj)]

/-- Somebody reads, or may come to read, what the process of this number writes. -/
def Wanted (l : Launch) (s : System) (i : Nat) : Prop :=
  i + 1 = l.started.length ∨ .reader i ∈ s.opened l

/-- Every stage has been started, and computes a function of what the one before it writes. -/
structure Determined (κ : Circumstances) (l : Launch) (calm : World → Prop)
    (f : Nat → Bytes → Bytes) (x : Nat → Bytes) : Prop where
  wired : l.Wired
  outlet {i : Nat} {task : Task} : l.started[i]? = some task →
    task.outlet = if i + 1 = l.started.length then .output else .writer i
  computes {i : Nat} {task : Task} : l.started[i]? = some task →
    (κ.conduct i task.work).Computes calm (f i)
  next (i : Nat) : x (i + 1) = f i (x i)
  outputRead : κ.outputRead = true

/-- A pipe holds what its writer has delivered and its reader has not yet taken, as long as
there is a reader. -/
structure Balanced (l : Launch) (x : Nat → Bytes) (s : System) : Prop where
  pipe {i : Nat} : i + 1 < l.started.length → .reader i ∈ s.opened l →
    s.takenAt (i + 1) ++ s.traffic.pipes i = s.deliveredAt i
  input : s.takenAt 0 ++ s.traffic.console.input.head = x 0 ∧
    s.traffic.console.input.cycle = []
  output {i : Nat} : i + 1 = l.started.length → s.traffic.output = s.deliveredAt i

/-- The processes are on their courses and so are the bytes. A process whose writing is lost
may do anything, but then its reader is gone for good. -/
structure Flowing (κ : Circumstances) (l : Launch) (calm : World → Prop) (x : Nat → Bytes)
    (s : System) : Prop extends Balanced l x s where
  conduct {i : Nat} {p : Process} : s.processes[i]? = some p →
    p.Tidy ∧ ∃ task, l.started[i]? = some task ∧ p.conduct = κ.conduct i task.work
  plays {i : Nat} {p : Process} : s.processes[i]? = some p → s.Wanted l i →
    p.conduct.Plays calm (x i) p.replies

variable {calm : World → Prop}

theorem flowing_start {x : Nat → Bytes} {c : Console} (hx : x 0 = c.input.head)
    (hcycle : c.input.cycle = []) : (start c).Flowing κ l calm x where
  conduct h := by simp [start] at h
  plays h := by simp [start] at h
  pipe _ _ := rfl
  input := ⟨hx.symm, hcycle⟩
  output _ := rfl

/-- A step that moves no byte leaves as true what the processes were and did. -/
theorem Flowing.of_still {x : Nat → Bytes} (h : s.Flowing κ l calm x) (hs : Step κ l s s')
    (htraffic : s'.traffic = s.traffic) (htaken : s'.takenAt = s.takenAt)
    (hdelivered : s'.deliveredAt = s.deliveredAt)
    (hnew : ∀ i p, s'.processes[i]? = some p → s.processes[i]? = some p ∨
      ∃ task, l.started[i]? = some task ∧ p = κ.process i task) :
    s'.Flowing κ l calm x where
  conduct {i p} hi := by
    obtain hi | ⟨task, ht, rfl⟩ := hnew i p hi
    · exact h.conduct hi
    · exact ⟨Process.tidy_process κ i task, task, ht, rfl⟩
  plays {i p} hi hw := by
    obtain hi | ⟨task, ht, rfl⟩ := hnew i p hi
    · exact h.plays hi (hw.imp_right hs.mem_opened)
    · exact .start
  pipe hi hr := by
    rw [htaken, hdelivered, htraffic]
    exact h.pipe hi (hs.mem_opened hr)
  input := by
    rw [htaken, htraffic]
    exact h.input
  output hi := by
    rw [hdelivered, htraffic]
    exact h.output hi

theorem Flowing.of_processes_eq {x : Nat → Bytes} (h : s.Flowing κ l calm x)
    (hs : Step κ l s s') (hp : s'.processes = s.processes) (ht : s'.traffic = s.traffic) :
    s'.Flowing κ l calm x := by
  have hbytes (g : Process → Bytes) : s'.bytesOf g = s.bytesOf g := by
    funext i
    simp only [bytesOf, hp]
  refine h.of_still hs ht (hbytes _) (hbytes _) fun i p hi => .inl ?_
  rw [← hp]
  exact hi

theorem Flowing.launch {x : Nat → Bytes} (h : s.Flowing κ l calm x) {task : Task}
    (hp : s.phase = .starting) (ht : l.started[s.processes.length]? = some task) :
    Flowing κ l calm x
      { s with processes := s.processes ++ [κ.process s.processes.length task] } := by
  refine h.of_still (.launch hp ht) rfl ?_ ?_ fun i p hi => ?_
  · funext i
    exact bytesOf_launch s rfl i
  · funext i
    exact bytesOf_launch s (Process.delivered_of_sent_eq_zero rfl) i
  · obtain hi | ⟨rfl, rfl⟩ := getElem?_launch hi
    · exact .inl hi
    · exact .inr ⟨task, ht, rfl⟩

variable {f : Nat → Bytes → Bytes} {x : Nat → Bytes} {i : Nat} {p : Process} {e : StreamEnd}

theorem mem_opened_of_end (hi : s.processes[i]? = some p) (he : e ∈ p.ends) : e ∈ s.opened l :=
  List.mem_append_right _ (List.mem_flatMap.mpr ⟨p, List.mem_of_getElem? hi, he⟩)

theorem Determined.outlet_eq (hd : Determined κ l calm f x) (hs : s.Sound l)
    (hi : s.processes[i]? = some p) (he : p.outlet = some e) :
    e = if i + 1 = l.started.length then .output else .writer i := by
  obtain ⟨task, ht, hp⟩ := hs.own hi
  rw [hp.outlet he, hd.outlet ht]

theorem Flowing.computes (hd : Determined κ l calm f x) (h : s.Flowing κ l calm x)
    (hi : s.processes[i]? = some p) : p.Tidy ∧ p.conduct.Computes calm (f i) := by
  obtain ⟨htidy, task, ht, hp⟩ := h.conduct hi
  exact ⟨htidy, hp ▸ hd.computes ht⟩

/-- What a process has read and what it finds go on as its input does, and at the end of the
stream it has read all of it. -/
theorem Flowing.finds (hd : Determined κ l calm f x) (hs : s.Sound l)
    (h : s.Flowing κ l calm x) (hi : s.processes[i]? = some p) (he : p.inlet = some e) :
    taken p.replies ++ s.traffic.front e <+: x i ∧
      (s.traffic.front e = [] → ¬Fed (s.opened l) e → taken p.replies = x i) := by
  have htaken : s.takenAt i = taken p.replies := bytesOf_eq hi _
  obtain ⟨rfl, rfl⟩ | ⟨k, rfl, rfl⟩ := hs.inlet_eq hd.wired (hs.running_of_end hi (.inl he)) he
  · obtain ⟨hinput, hcycle⟩ := h.input
    have hfront : s.traffic.front .input = s.traffic.console.input.head := Feed.front_eq_head hcycle
    rw [hfront, ← htaken, hinput]
    refine ⟨List.prefix_rfl, fun hnil _ => ?_⟩
    rw [hnil, List.append_nil] at hinput
    exact hinput
  · have hlen := (List.getElem?_eq_some_iff.mp hi).1
    have hopened : .reader k ∈ s.opened l :=
      mem_opened_of_end hi (List.mem_append_left _ (by rw [he]; exact List.mem_singleton_self _))
    have hq : s.processes[k]? = some s.processes[k] := List.getElem?_eq_getElem (by omega)
    obtain ⟨htidy, hcomputes⟩ := h.computes hd hq
    have hplays := h.plays hq (.inr hopened)
    have hpipe := h.pipe (Nat.lt_of_lt_of_le hlen hs.length_le) hopened
    rw [htaken, deliveredAt, bytesOf_eq hq] at hpipe
    rw [show s.traffic.front (.reader k) = s.traffic.pipes k from rfl, hpipe, hd.next]
    refine ⟨Process.delivered_prefix htidy hcomputes hplays, fun hnil hfed => ?_⟩
    -- Nobody has the other end open, so the process before has closed its output or ended.
    have hnone : s.processes[k].outlet = none := by
      cases ho : s.processes[k].outlet with
      | none => rfl
      | some e =>
          have he := hd.outlet_eq hs hq ho
          rw [if_neg (Nat.ne_of_lt (Nat.lt_of_lt_of_le hlen hs.length_le))] at he
          refine absurd (mem_opened_of_end hq (List.mem_append_right _ ?_)) hfed
          rw [ho, he]
          exact List.mem_singleton_self _
    rw [hnil, List.append_nil] at hpipe
    rw [hpipe]
    exact Process.delivered_eq htidy hcomputes hplays hnone

/-- Somebody reads what a process writes whose reader is not gone. -/
theorem Determined.isRead (hd : Determined κ l calm f x) (hs : s.Sound l)
    (hi : s.processes[i]? = some p) (hw : s.Wanted l i) (he : p.outlet = some e) :
    κ.Read (s.opened l) e := by
  rw [hd.outlet_eq hs hi he]
  split
  · exact hd.outputRead
  · rename_i hne
    exact hw.resolve_left hne

/-- Taking bytes from a pipe or from the session's input. -/
theorem Balanced.consume (h : s.Balanced l x) (hopened : ∀ e, e ∈ s'.opened l → e ∈ s.opened l)
    {n : Nat} (he : (i = 0 ∧ e = .input) ∨ ∃ k, i = k + 1 ∧ e = .reader k)
    (htraffic : s'.traffic = s.traffic.consume n e)
    (htaken : ∀ j, s'.takenAt j =
      if j = i then s.takenAt i ++ (s.traffic.front e).take n else s.takenAt j)
    (hdelivered : s'.deliveredAt = s.deliveredAt) : s'.Balanced l x := by
  obtain ⟨hinput, hcycle⟩ := h.input
  obtain ⟨rfl, rfl⟩ | ⟨k, rfl, rfl⟩ := he
  · have hfront : s.traffic.console.input.front = s.traffic.console.input.head :=
      Feed.front_eq_head hcycle
    refine ⟨fun {j} hj hr => ?_, ?_, fun hj => ?_⟩
    · rw [htaken, if_neg (Nat.succ_ne_zero j), hdelivered, htraffic]
      exact h.pipe hj (hopened _ hr)
    · rw [htaken, if_pos rfl, htraffic]
      simp only [Traffic.front, Traffic.consume, Feed.behind, hfront, List.append_assoc,
        List.take_append_drop]
      exact ⟨hinput, hcycle⟩
    · rw [htraffic, hdelivered]
      exact h.output hj
  · refine ⟨fun {j} hj hr => ?_, ?_, fun hj => ?_⟩
    · rw [htaken, hdelivered, htraffic]
      by_cases hk : j = k
      · subst hk
        rw [if_pos rfl]
        simp only [Traffic.front, Traffic.consume, Traffic.setPipe, if_pos, List.append_assoc,
          List.take_append_drop]
        exact h.pipe hj (hopened _ hr)
      · rw [if_neg (by omega)]
        simp only [Traffic.consume, Traffic.setPipe, if_neg hk]
        exact h.pipe hj (hopened _ hr)
    · rw [htaken, if_neg (Nat.succ_ne_zero k).symm, htraffic]
      exact ⟨hinput, hcycle⟩
    · rw [htraffic, hdelivered]
      exact h.output hj

/-- Leaving bytes in a pipe or on the session's output. -/
theorem Balanced.deliver (h : s.Balanced l x) (hopened : ∀ e, e ∈ s'.opened l → e ∈ s.opened l)
    {b : Bytes} (he : e = if i + 1 = l.started.length then .output else .writer i)
    (htraffic : s'.traffic = s.traffic.deliver b e) (htaken : s'.takenAt = s.takenAt)
    (hdelivered : ∀ j, s'.deliveredAt j =
      if j = i then s.deliveredAt i ++ b else s.deliveredAt j) : s'.Balanced l x := by
  by_cases hlast : i + 1 = l.started.length
  · rw [if_pos hlast] at he
    subst he
    refine ⟨fun {j} hj hr => ?_, ?_, fun {j} hj => ?_⟩
    · rw [htaken, hdelivered, if_neg (by omega), htraffic]
      exact h.pipe hj (hopened _ hr)
    · rw [htaken, htraffic]
      exact h.input
    · rw [hdelivered, if_pos (by omega), htraffic, ← h.output hlast]
      rfl
  · rw [if_neg hlast] at he
    subst he
    refine ⟨fun {j} hj hr => ?_, ?_, fun {j} hj => ?_⟩
    · rw [htaken, hdelivered, htraffic]
      by_cases hji : j = i
      · subst hji
        rw [if_pos rfl, ← h.pipe hj (hopened _ hr)]
        simp only [Traffic.deliver, Traffic.setPipe, if_pos, List.append_assoc]
      · rw [if_neg hji]
        simp only [Traffic.deliver, Traffic.setPipe, if_neg hji]
        exact h.pipe hj (hopened _ hr)
    · rw [htaken, htraffic]
      exact h.input
    · rw [hdelivered, if_neg (by omega), htraffic]
      exact h.output hj

theorem Balanced.keep (h : s.Balanced l x) (hopened : ∀ e, e ∈ s'.opened l → e ∈ s.opened l)
    (hpipes : s'.traffic.pipes = s.traffic.pipes)
    (hinput : s'.traffic.console.input = s.traffic.console.input)
    (houtput : s'.traffic.output = s.traffic.output) (htaken : s'.takenAt = s.takenAt)
    (hdelivered : ∀ j, s.Wanted l j → s'.deliveredAt j = s.deliveredAt j) :
    s'.Balanced l x where
  pipe {j} hj hr := by
    rw [htaken, hpipes, hdelivered j (.inr (hopened _ hr))]
    exact h.pipe hj (hopened _ hr)
  input := by
    rw [htaken, hinput]
    exact h.input
  output {j} hj := by
    rw [houtput, hdelivered j (.inl hj)]
    exact h.output hj

theorem Flowing.balanced_of_move (hd : Determined κ l calm f x) (hs : s.Sound l)
    (h : s.Flowing κ l calm x) (hi : s.processes[i]? = some p) (hrunning : p.ended = false)
    {p' : Process} {t : Traffic} (hm : Move κ (s.opened l) p s.traffic p' t) :
    Balanced l x { s with processes := s.processes.set i p', traffic := t } := by
  have hstep : Step κ l s _ := .move hi hrunning hm
  have hopened := fun e => hstep.mem_opened (e := e)
  have hbytes (g : Process → Bytes) := bytesOf_set hi p' t g
  have hsame (g : Process → Bytes) (hg : g p' = g p) :
      bytesOf { s with processes := s.processes.set i p', traffic := t } g = s.bytesOf g := by
    funext j
    rw [hbytes]
    split
    · rename_i hj
      rw [hj, bytesOf_eq hi, hg]
    · rfl
  obtain ⟨n, e, he, htaken, hdelivered, rfl⟩ | ⟨b, e, he, htaken, hdelivered, rfl⟩ |
    ⟨htaken, hdelivered, hpipes, hinput, houtput⟩ := hm.effect (h.computes hd hi).1
  · refine h.toBalanced.consume hopened (hs.inlet_eq hd.wired ⟨hi, hrunning⟩ he) rfl
      (fun j => ?_) (hsame _ hdelivered)
    rw [takenAt, hbytes, htaken, takenAt, bytesOf_eq hi]
  · refine h.toBalanced.deliver hopened (hd.outlet_eq hs hi he) rfl (hsame _ htaken) fun j => ?_
    rw [deliveredAt, hbytes, hdelivered, deliveredAt, bytesOf_eq hi]
  · refine h.toBalanced.keep hopened hpipes hinput houtput (hsame _ htaken) fun j hw => ?_
    rw [deliveredAt, hbytes]
    split
    · rename_i hj
      subst hj
      rw [deliveredAt, bytesOf_eq hi]
      refine hdelivered.resolve_right ?_
      rintro ⟨e, he, hlost⟩
      exact hlost (hd.isRead hs hi hw he)
    · rfl

theorem Flowing.move (hd : Determined κ l calm f x) (hs : s.Sound l)
    (hcalm : calm s.traffic.console.world) (h : s.Flowing κ l calm x)
    (hi : s.processes[i]? = some p) (hrunning : p.ended = false) {p' : Process} {t : Traffic}
    (hm : Move κ (s.opened l) p s.traffic p' t) :
    Flowing κ l calm x { s with processes := s.processes.set i p', traffic := t } := by
  have hstep : Step κ l s _ := .move hi hrunning hm
  refine
    { toBalanced := h.balanced_of_move hd hs hi hrunning hm
      conduct := fun hq => ?_
      plays := fun hq hw => ?_ }
  · obtain hq | ⟨rfl, rfl⟩ := getElem?_move hq
    · exact h.conduct hq
    · obtain ⟨htidy, task, ht, hp⟩ := h.conduct hi
      exact ⟨hm.tidy htidy, task, ht, hm.conduct_eq.trans hp⟩
  · have hwanted : s.Wanted l _ := hw.imp_right hstep.mem_opened
    obtain hq | ⟨rfl, rfl⟩ := getElem?_move hq
    · exact h.plays hq hwanted
    · exact hm.plays (h.conduct hi).1 (h.plays hi hwanted) hcalm
        (fun e he => h.finds hd hs hi he) fun e he => hd.isRead hs hi hwanted he

theorem Flowing.step (hd : Determined κ l calm f x) (hs : s.Sound l)
    (hcalm : calm s.traffic.console.world) (h : s.Flowing κ l calm x) (hstep : Step κ l s s') :
    s'.Flowing κ l calm x := by
  cases hstep with
  | launch hp ht => exact h.launch hp ht
  | launched hp hn => exact h.of_processes_eq (.launched hp hn) rfl rfl
  | release hp => exact h.of_processes_eq (.release hp) rfl rfl
  | await hp => exact h.of_processes_eq (.await hp) rfl rfl
  | join hp hi he => exact h.of_processes_eq (.join hp hi he) rfl rfl
  | back hp => exact h.of_processes_eq (.back hp) rfl rfl
  | move hi he hm => exact h.move hd hs hcalm hi he hm

/-- Nothing that is done to the files takes them to where they should not be: neither what the
processes do nor what is written on the session's streams. -/
structure Keeps (κ : Circumstances) (l : Launch) (c : Console) (calm : World → Prop) : Prop where
  start : calm c.world
  visit {i : Nat} {task : Task} {replies : List Reply} {change : World → World} {w : World} :
    l.started[i]? = some task → κ.conduct i task.work replies = .visit change → calm w →
    calm (change w)
  write {sink : Sink} {w : World} (b : Bytes) :
    sink.target? = c.out.target? ∨ sink.target? = c.err.target? → calm w →
    calm (sink.write w b).2

/-- The files are as they should be, and the streams go where they went. -/
structure Calm (calm : World → Prop) (c : Console) (s : System) : Prop where
  world : calm s.traffic.console.world
  out : s.traffic.console.out.target? = c.out.target?
  err : s.traffic.console.err.target? = c.err.target?

variable {c : Console}

theorem Calm.move (hk : Keeps κ l c calm) (h : s.Calm calm c) {task : Task}
    (ht : l.started[i]? = some task) (hconduct : p.conduct = κ.conduct i task.work)
    {opened : List StreamEnd} {p' : Process} {t : Traffic} (hm : Move κ opened p s.traffic p' t)
    (processes : List Process) : Calm calm c { s with processes := processes, traffic := t } := by
  cases hm with
  | @take _ _ e => cases e <;> exact ⟨h.world, h.out, h.err⟩
  | @send _ _ e =>
      cases e with
      | output =>
          refine ⟨hk.write _ (.inl h.out) h.world, ?_, h.err⟩
          simpa only [Traffic.deliver, Console.write, Sink.fst_write, Sink.target?_wrote]
            using h.out
      | input | reader _ | writer _ => exact ⟨h.world, h.out, h.err⟩
  | complain ha =>
      refine ⟨hk.write _ (.inr h.err) h.world, h.out, ?_⟩
      simpa only [Console.write, Sink.fst_write, Sink.target?_wrote] using h.err
  | visit ha =>
      rw [Process.act, hconduct] at ha
      exact ⟨hk.visit ht ha h.world, h.out, h.err⟩
  | finish | readNothing | sent | broken | closeInlet | closeOutlet | exit =>
      exact ⟨h.world, h.out, h.err⟩

theorem calm_of_reachable (hk : Keeps κ l c calm) (h : Reachable κ l c s) : s.Calm calm c := by
  induction h with
  | refl => exact ⟨hk.start, rfl, rfl⟩
  | tail h hs ih =>
      cases hs with
      | launch | launched | release | await | join | back => exact ⟨ih.world, ih.out, ih.err⟩
      | move hi _ hm =>
          obtain ⟨task, ht, hconduct⟩ := conduct_of_reachable h hi
          exact ih.move hk ht hconduct hm _

theorem flowing_of_reachable (hd : Determined κ l calm f x) (hk : Keeps κ l c calm)
    (hx : x 0 = c.input.head) (hcycle : c.input.cycle = []) (h : Reachable κ l c s) :
    s.Flowing κ l calm x := by
  induction h with
  | refl => exact flowing_start hx hcycle
  | tail h hstep ih =>
      exact ih.step hd (sound_of_reachable h) (calm_of_reachable hk h).world hstep

/-- The shell returns when all that it waited for have ended. -/
structure Joined (l : Launch) (s : System) : Prop where
  waiting {left : List Nat} : s.phase = .waiting left → ∀ i < l.started.length, i ∉ left →
    ∃ p, s.processes[i]? = some p ∧ p.ended = true
  returned : s.phase = .returned → ∀ i < l.started.length,
    ∃ p, s.processes[i]? = some p ∧ p.ended = true

theorem mem_awaited (hi : i < l.started.length) : i ∈ l.awaited := by
  simp only [Launch.awaited, List.mem_append, List.mem_filter, List.mem_range, hi, true_and,
    Bool.not_eq_true']
  cases l.started[i]?.any fun task => task.work.isBuiltin with
  | true => exact .inl rfl
  | false => exact .inr rfl

theorem Joined.step (h : s.Joined l) (hstep : Step κ l s s') : s'.Joined l := by
  cases hstep with
  | launch hp ht =>
      exact ⟨fun hw => (nomatch hp.symm.trans hw), fun hr => (nomatch hp.symm.trans hr)⟩
  | launched | release => exact ⟨nofun, nofun⟩
  | await hp =>
      refine ⟨fun hw i hi hn => ?_, nofun⟩
      cases hw
      exact absurd (mem_awaited hi) hn
  | @join i p left hp hi he =>
      refine ⟨fun hw j hj hn => ?_, nofun⟩
      cases hw
      by_cases hji : j = i
      · exact ⟨p, hji ▸ hi, he⟩
      · exact h.waiting hp j hj fun hmem => (List.mem_cons.mp hmem).elim hji hn
  | back hp => exact ⟨nofun, fun _ i hi => h.waiting hp i hi List.not_mem_nil⟩
  | @move i p p' t hi he hm =>
      have still {j : Nat} (hended : ∃ q, s.processes[j]? = some q ∧ q.ended = true) :
          ∃ q, (s.processes.set i p')[j]? = some q ∧ q.ended = true := by
        obtain ⟨q, hq, hqe⟩ := hended
        refine ⟨q, ?_, hqe⟩
        rw [List.getElem?_set_ne, hq]
        rintro rfl
        cases hq.symm.trans hi
        cases he.symm.trans hqe
      exact ⟨fun hw j hj hn => still (h.waiting hw j hj hn),
        fun hr j hj => still (h.returned hr j hj)⟩

theorem joined_of_reachable (h : Reachable κ l c s) : s.Joined l := by
  induction h with
  | refl => exact ⟨nofun, nofun⟩
  | tail _ hstep ih => exact ih.step hstep

theorem ended_of_returned (h : Reachable κ l c s) (hr : s.phase = .returned) :
    s.processes.length = l.started.length ∧ ∀ p ∈ s.processes, p.ended = true := by
  have hlength := (sound_of_reachable h).complete (by rw [hr]; nofun)
  refine ⟨hlength, fun p hp => ?_⟩
  obtain ⟨i, hi⟩ := List.mem_iff_getElem?.mp hp
  have hlt : i < l.started.length := hlength ▸ (List.getElem?_eq_some_iff.mp hi).1
  obtain ⟨q, hq, hended⟩ := (joined_of_reachable h).returned hr i hlt
  cases hi.symm.trans hq
  exact hended

/-- When the shell has returned, the last process has delivered all of its output. -/
theorem output_of_returned (hd : Determined κ l calm f x) (hk : Keeps κ l c calm)
    (hx : x 0 = c.input.head) (hcycle : c.input.cycle = []) (hl : l.started ≠ [])
    (h : Reachable κ l c s) (hr : s.phase = .returned) :
    s.traffic.output = x l.started.length := by
  have hflow := flowing_of_reachable hd hk hx hcycle h
  obtain ⟨n, hn⟩ : ∃ n, l.started.length = n + 1 :=
    Nat.exists_eq_succ_of_ne_zero (mt List.length_eq_zero_iff.mp hl)
  obtain ⟨p, hp, hended⟩ := (joined_of_reachable h).returned hr n (by omega)
  obtain ⟨htidy, hcomputes⟩ := hflow.computes hd hp
  obtain ⟨task, -, hown⟩ := (sound_of_reachable h).own hp
  rw [hflow.output hn.symm, deliveredAt, bytesOf_eq hp, hn, hd.next]
  exact Process.delivered_eq htidy hcomputes (hflow.plays hp (.inl hn.symm)) (hown.ended hended).2

end System

variable {m : Machine} {found : Nat → Console} {c : Console} {stages : List Stage} {tool : Tool}
  {κ : Circumstances} {calm : World → Prop}

/-- The programs compute functions of their input, no stage changes what another one finds, and
somebody reads the session's output. -/
structure Circumstances.Steady (κ : Circumstances) (c : Console) (stages : List Stage)
    (tool : Tool) (calm : World → Prop) : Prop where
  start : calm c.world
  program {i : Nat} {path name : String} {arguments : List String} :
    stages[i]? = some (.program path name arguments) →
    (κ.programs i).inPlace.Computes calm (tool path (name :: arguments)) ∧
    ∀ replies change w, (κ.programs i).inPlace replies = .visit change → calm w → calm (change w)
  builtin {b : Builtin} {arguments : List String} {w : World} :
    .builtin b arguments ∈ stages → calm w →
    (b.run κ.setting κ.history w arguments).result =
        (b.run κ.setting κ.history c.world arguments).result ∧
      calm (b.run κ.setting κ.history w arguments).world
  write {sink : Sink} {w : World} (b : Bytes) :
    sink.target? = c.out.target? ∨ sink.target? = c.err.target? → calm w →
    calm (sink.write w b).2
  outputRead : κ.outputRead = true

/-- Stage `i` computes `output`, from what comes out of the stages before it. -/
theorem Circumstances.Steady.determined (hκ : κ.Steady c stages tool calm)
    (hstarted : (Launch.ofPipeline m found stages).failure = none) :
    System.Determined κ (Launch.ofPipeline m found stages) calm
      (fun i input => (stages[i]?).elim input
        (Stage.output κ.setting κ.history c.world tool input))
      fun i => Stage.flow κ.setting κ.history c.world tool (stages.take i) c.input.head where
  wired := Launch.wired_ofPipeline m found stages
  outlet h := Launch.outlet_ofPipeline hstarted h
  computes {i task} h := by
    obtain ⟨stage, hstage, hw⟩ := Launch.start_ofPipeline h
    obtain ⟨work, inlet, outlet⟩ := task
    rw [hstage]
    cases stage with
    | builtin b arguments =>
        cases hw
        exact Conduct.computes_ofBuiltin fun w hcalm =>
          (hκ.builtin (List.mem_of_getElem? hstage) hcalm).1
    | program path name arguments =>
        obtain ⟨p, -, rfl⟩ := Stage.exists_of_start hw
        exact (hκ.program hstage).1
  next i := by
    rw [Stage.flow, List.take_add_one, List.foldl_append]
    cases stages[i]? with
    | none => rfl
    | some stage => rfl
  outputRead := hκ.outputRead

theorem Circumstances.Steady.keeps (hκ : κ.Steady c stages tool calm) :
    System.Keeps κ (Launch.ofPipeline m found stages) c calm where
  start := hκ.start
  visit {i task replies change w} h hvisit hcalm := by
    obtain ⟨stage, hstage, hw⟩ := Launch.start_ofPipeline h
    obtain ⟨work, inlet, outlet⟩ := task
    cases stage with
    | builtin b arguments =>
        cases hw
        obtain ⟨-, rfl⟩ := Conduct.nil_of_ofBuiltin_visit hvisit
        exact (hκ.builtin (List.mem_of_getElem? hstage) hcalm).2
    | program path name arguments =>
        obtain ⟨p, -, rfl⟩ := Stage.exists_of_start hw
        exact (hκ.program hstage).2 replies change w hvisit hcalm
  write := hκ.write

/-- Whatever order the steps are taken in, what has been written on the session's output when
the shell returns is what comes out of the stages, each reading what the one before it writes. -/
theorem output_eq_flow (hκ : κ.Steady c stages tool calm) (hn : stages ≠ [])
    (hstarted : (Launch.ofPipeline m found stages).failure = none) (hcycle : c.input.cycle = [])
    {s : System} (h : System.Reachable κ (Launch.ofPipeline m found stages) c s)
    (hr : s.phase = .returned) :
    s.traffic.output = Stage.flow κ.setting κ.history c.world tool stages c.input.head := by
  have hlen := Launch.length_ofPipeline hstarted
  have hne : (Launch.ofPipeline m found stages).started ≠ [] := by
    intro hnil
    rw [hnil] at hlen
    exact hn (List.length_eq_zero_iff.mp hlen.symm)
  rw [System.output_of_returned (hκ.determined hstarted) hκ.keeps rfl hcycle hne h hr, hlen,
    List.take_length]

/-- Stages carried out one after the other leave on the session's output what the same stages
leave there side by side. -/
theorem out_finish_eq (k : Contract) (hk : k.Kept m κ.setting κ.history c stages)
    (hκ : κ.Steady c stages k.tool calm) (hn : stages ≠ [])
    (hstarted : (Launch.ofPipeline m (fun _ => c) stages).failure = none)
    (hcycle : c.input.cycle = []) {s : System}
    (h : System.Reachable κ (Launch.ofPipeline m (fun _ => c) stages) c s)
    (hr : s.phase = .returned) :
    (finish κ.setting κ.history c (Launch.ofPipeline m (fun _ => c) stages)).out =
      c.out.wrote s.traffic.output := by
  obtain ⟨ws, said, hsame, hout, -⟩ := hk.finish hn hstarted fun _ _ _ _ _ => hcycle
  rw [hsame.out, Console.out_writes, hout, output_eq_flow hκ hn hstarted hcycle h hr]

end Pipeline

end LineShell
