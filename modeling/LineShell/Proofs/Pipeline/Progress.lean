import LineShell.Proofs.Pipeline.System

/-!
No pipeline gets stuck. Each pipe has its writer in one stage and its reader in the next, so
a stage that waits to read waits for one on its left and a stage that waits to write for one
on its right. Neither chain of waiting stages has an end to rest on.
-/

namespace LineShell

namespace Launch

theorem started_ofStages (m : Machine) (found : Nat → Console) (i : Nat) (stages : List Stage)
    (ins outs : List StreamEnd) :
    ∀ (k : Nat) (task : Task), (ofStages m found i stages ins outs).started[k]? = some task →
      ins[k]? = some task.inlet ∧ outs[k]? = some task.outlet := by
  fun_induction ofStages m found i stages ins outs with
  | case1 | case2 | case4 => simp
  | case3 i stage rest inlet ins outlet outs _ work _ l ih =>
      intro k task h
      cases k with
      | zero =>
          cases h
          exact ⟨rfl, rfl⟩
      | succ k => exact ih k task h

theorem started_ofPipeline {m : Machine} {found : Nat → Console} {stages : List Stage} {k : Nat}
    {task : Task} (h : (ofPipeline m found stages).started[k]? = some task) :
    (inlets (stages.length - 1))[k]? = some task.inlet ∧
      (outlets (stages.length - 1))[k]? = some task.outlet := by
  simp only [ofPipeline] at h
  split at h
  · simp at h
  · exact started_ofStages m found 0 stages _ _ k task h

/-- The ends of a started stage: it reads from the pipe before it and writes into the pipe
behind it, if it is not the first and not the last. -/
structure Wired (l : Launch) : Prop where
  first {task : Task} : l.started[0]? = some task → task.inlet = .input
  later {k : Nat} {task : Task} : l.started[k + 1]? = some task → task.inlet = .reader k
  outlet {k : Nat} {task : Task} :
    l.started[k]? = some task → task.outlet = .writer k ∨ task.outlet = .output

theorem wired_ofPipeline (m : Machine) (found : Nat → Console) (stages : List Stage) :
    (ofPipeline m found stages).Wired where
  first h := by simpa [inlets] using (started_ofPipeline h).1.symm
  later {k task} h := by
    obtain ⟨j, hj, htask⟩ : ∃ j, (List.range (stages.length - 1))[k]? = some j ∧
        StreamEnd.reader j = task.inlet := by
      simpa [inlets] using (started_ofPipeline h).1
    obtain ⟨hk, rfl⟩ := List.getElem?_eq_some_iff.mp hj
    rw [← htask, List.getElem_range]
  outlet {k task} h := by
    have hout := (started_ofPipeline h).2
    rw [outlets, List.getElem?_append] at hout
    split at hout
    · obtain ⟨j, hj, htask⟩ : ∃ j, (List.range (stages.length - 1))[k]? = some j ∧
          StreamEnd.writer j = task.outlet := by simpa using hout
      obtain ⟨hk, rfl⟩ := List.getElem?_eq_some_iff.mp hj
      exact .inl (by rw [← htask, List.getElem_range])
    · obtain ⟨hk, hlast⟩ := List.getElem?_eq_some_iff.mp hout
      exact .inr (by rw [← hlast]; simp)

end Launch

namespace Pipeline

def Process.WaitsToRead (p : Process) (opened : List StreamEnd) (t : Traffic) (pipe : Nat) :
    Prop :=
  p.inlet = some (.reader pipe) ∧ t.pipes pipe = [] ∧ .writer pipe ∈ opened

def Process.WaitsToWrite (κ : Circumstances) (p : Process) (opened : List StreamEnd)
    (t : Traffic) (pipe : Nat) : Prop :=
  p.outlet = some (.writer pipe) ∧ κ.capacity pipe ≤ (t.pipes pipe).length ∧
    .reader pipe ∈ opened

theorem read_or_waits (κ : Circumstances) (p : Process) (opened : List StreamEnd) (t : Traffic)
    {most : Nat} (ha : p.act = .read most) :
    (∃ p' t', Move κ opened p t p' t') ∨ ∃ pipe, p.WaitsToRead opened t pipe := by
  by_cases hm : most = 0
  · exact .inl ⟨_, _, .readNothing ha (.inl hm)⟩
  cases hi : p.inlet with
  | none => exact .inl ⟨_, _, .readNothing ha (.inr hi)⟩
  | some e =>
      by_cases hf : t.front e = []
      · by_cases hw : Fed opened e
        · cases e with
          | reader pipe => exact .inr ⟨pipe, hi, hf, hw⟩
          | input | output | writer _ => exact hw.elim
        · exact .inl ⟨_, _, .finish ha hi hf hw⟩
      · have hlen : 1 ≤ (t.front e).length := List.length_pos_iff.mpr hf
        exact .inl ⟨_, _, .take ha hi Nat.one_pos (Nat.one_le_iff_ne_zero.mpr hm) hlen⟩

theorem write_or_waits (κ : Circumstances) (p : Process) (opened : List StreamEnd) (t : Traffic)
    {b : Bytes} (ha : p.act = .write b) :
    (∃ p' t', Move κ opened p t p' t') ∨ ∃ pipe, p.WaitsToWrite κ opened t pipe := by
  by_cases hb : b.length ≤ p.sent
  · exact .inl ⟨_, _, .sent ha hb⟩
  by_cases hr : ∃ e, p.outlet = some e ∧ κ.Read opened e
  · obtain ⟨e, ho, hread⟩ := hr
    by_cases hf : κ.Fits t 1 e
    · exact .inl ⟨_, _, .send ha ho hread Nat.one_pos (by omega) hf⟩
    · cases e with
      | writer pipe =>
          have hfull : ¬(t.pipes pipe).length + 1 ≤ κ.capacity pipe := hf
          exact .inr ⟨pipe, ho, by omega, hread⟩
      | input | output | reader _ => exact absurd trivial hf
  · refine .inl ⟨_, _, .broken ha (by omega) fun e ho hread => hr ⟨e, ho, hread⟩⟩

/-- A process can do what it is about to do, or waits at one of the pipes beside it. -/
theorem move_or_waits (κ : Circumstances) (p : Process) (opened : List StreamEnd)
    (t : Traffic) :
    (∃ p' t', Move κ opened p t p' t') ∨ (∃ pipe, p.WaitsToRead opened t pipe) ∨
      ∃ pipe, p.WaitsToWrite κ opened t pipe := by
  cases ha : p.act with
  | read most => exact (read_or_waits κ p opened t ha).imp_right .inl
  | write b => exact (write_or_waits κ p opened t ha).imp_right .inr
  | complain b => exact .inl ⟨_, _, .complain ha⟩
  | visit change => exact .inl ⟨_, _, .visit ha⟩
  | closeInlet => exact .inl ⟨_, _, .closeInlet ha⟩
  | closeOutlet => exact .inl ⟨_, _, .closeOutlet ha⟩
  | exit => exact .inl ⟨_, _, .exit ha⟩

/-- A process that carries out a task: it has the ends of the task or has closed them, and
none is open when it has ended. -/
structure Process.CarriesOut (p : Process) (task : Task) : Prop where
  inlet {e : StreamEnd} : p.inlet = some e → e = task.inlet
  outlet {e : StreamEnd} : p.outlet = some e → e = task.outlet
  ended : p.ended = true → p.inlet = none ∧ p.outlet = none

theorem carriesOut_process (κ : Circumstances) (i : Nat) (task : Task) :
    (κ.process i task).CarriesOut task where
  inlet h := (Option.some.inj h).symm
  outlet h := (Option.some.inj h).symm
  ended h := nomatch h

theorem Move.carriesOut {κ : Circumstances} {opened : List StreamEnd} {p p' : Process}
    {t t' : Traffic} {task : Task} (h : Move κ opened p t p' t') (hp : p.CarriesOut task) :
    p'.CarriesOut task := by
  cases h with
  | take | finish | readNothing | send | sent | broken | complain | visit =>
      exact ⟨hp.inlet, hp.outlet, hp.ended⟩
  | closeInlet =>
      exact ⟨fun he => (nomatch he), hp.outlet, fun he => ⟨rfl, (hp.ended he).2⟩⟩
  | closeOutlet =>
      exact ⟨hp.inlet, fun he => (nomatch he), fun he => ⟨(hp.ended he).1, rfl⟩⟩
  | exit => exact ⟨fun he => (nomatch he), fun he => (nomatch he), fun _ => ⟨rfl, rfl⟩⟩

namespace System

/-- What holds of the shell and its stages at every moment. After the last start the shell
waits for processes that there are. -/
structure Sound (l : Launch) (s : System) : Prop where
  own {i : Nat} {p : Process} : s.processes[i]? = some p →
    ∃ task, l.started[i]? = some task ∧ p.CarriesOut task
  complete : s.phase ≠ .starting → s.processes.length = l.started.length
  awaited {left : List Nat} : s.phase = .waiting left → ∀ i ∈ left, i < l.started.length

theorem Sound.length_le {l : Launch} {s : System} (h : s.Sound l) :
    s.processes.length ≤ l.started.length := by
  refine Nat.le_of_not_lt fun hlt => ?_
  obtain ⟨task, htask, -⟩ := h.own (List.getElem?_eq_getElem hlt)
  exact Nat.lt_irrefl _ (List.getElem?_eq_some_iff.mp htask).1

theorem lt_of_mem_awaited {l : Launch} {i : Nat} (h : i ∈ l.awaited) : i < l.started.length := by
  simp only [Launch.awaited, List.mem_append, List.mem_filter, List.mem_range] at h
  obtain ⟨h, -⟩ | ⟨h, -⟩ := h <;> exact h

theorem sound_start (l : Launch) (c : Console) : (start c).Sound l where
  own h := by simp [start] at h
  complete h := absurd rfl h
  awaited h := nomatch h

theorem Sound.step {κ : Circumstances} {l : Launch} {s s' : System} (h : s.Sound l)
    (hs : Step κ l s s') : s'.Sound l := by
  have hown {i : Nat} {q : Process} (hi : s'.processes[i]? = some q) :
      ∃ task, l.started[i]? = some task ∧ q.CarriesOut task := by
    obtain hi | ⟨task, ht, rfl⟩ | ⟨p, hi, hm⟩ := hs.process hi
    · exact h.own hi
    · exact ⟨task, ht, carriesOut_process κ i task⟩
    · obtain ⟨task, ht, hp⟩ := h.own hi
      exact ⟨task, ht, hm.carriesOut hp⟩
  cases hs with
  | launch hp ht => exact ⟨hown, fun hne => absurd hp hne, fun hw => nomatch hp.symm.trans hw⟩
  | launched hp hn =>
      exact ⟨hown, fun _ => Nat.le_antisymm h.length_le hn, fun hw => nomatch hw⟩
  | release hp =>
      exact ⟨hown, fun _ => h.complete (by rw [hp]; nofun), fun hw => nomatch hw⟩
  | await hp =>
      refine ⟨hown, fun _ => h.complete (by rw [hp]; nofun), fun hw i hi => ?_⟩
      cases hw
      exact lt_of_mem_awaited hi
  | join hp hi he =>
      refine ⟨hown, fun _ => h.complete (by rw [hp]; nofun), fun hw j hj => ?_⟩
      cases hw
      exact h.awaited hp j (List.mem_cons_of_mem _ hj)
  | back hp =>
      exact ⟨hown, fun _ => h.complete (by rw [hp]; nofun), fun hw => nomatch hw⟩
  | move hi he hm =>
      refine ⟨hown, fun hne => ?_, h.awaited⟩
      rw [List.length_set]
      exact h.complete hne

theorem sound_of_reachable {κ : Circumstances} {l : Launch} {c : Console} {s : System}
    (h : Reachable κ l c s) : s.Sound l := by
  induction h with
  | refl => exact sound_start l c
  | tail _ hs ih => exact ih.step hs

variable {κ : Circumstances} {l : Launch} {s : System}

def Running (s : System) (i : Nat) (p : Process) : Prop :=
  s.processes[i]? = some p ∧ p.ended = false

theorem Sound.running_of_end (h : s.Sound l) {i : Nat} {p : Process} {e : StreamEnd}
    (hi : s.processes[i]? = some p) (he : p.inlet = some e ∨ p.outlet = some e) :
    s.Running i p := by
  obtain ⟨task, -, hp⟩ := h.own hi
  refine ⟨hi, Bool.eq_false_iff.mpr fun hend => ?_⟩
  obtain ⟨hin, hout⟩ := hp.ended hend
  cases he with
  | inl he => cases hin.symm.trans he
  | inr he => cases hout.symm.trans he

/-- Once the shell holds no end, an open end is held by a running process. -/
theorem Sound.exists_holder (h : s.Sound l) (hheld : s.held l = []) {e : StreamEnd}
    (he : e ∈ s.opened l) :
    ∃ i p, s.Running i p ∧ (p.inlet = some e ∨ p.outlet = some e) := by
  rw [opened, hheld, List.nil_append, List.mem_flatMap] at he
  obtain ⟨p, hp, he⟩ := he
  obtain ⟨i, hi⟩ := List.mem_iff_getElem?.mp hp
  have hends : p.inlet = some e ∨ p.outlet = some e := by simpa [Process.ends] using he
  exact ⟨i, p, h.running_of_end hi hends, hends⟩

/-- The number of the stage that an open end of a process belongs to. -/
theorem Sound.inlet_eq (h : s.Sound l) (hl : l.Wired) {i : Nat} {p : Process} {e : StreamEnd}
    (hi : s.Running i p) (he : p.inlet = some e) :
    (i = 0 ∧ e = .input) ∨ ∃ k, i = k + 1 ∧ e = .reader k := by
  obtain ⟨task, htask, hp⟩ := h.own hi.1
  rw [hp.inlet he]
  cases i with
  | zero => exact .inl ⟨rfl, hl.first htask⟩
  | succ k => exact .inr ⟨k, rfl, hl.later htask⟩

theorem Sound.outlet_eq (h : s.Sound l) (hl : l.Wired) {i : Nat} {p : Process} {e : StreamEnd}
    (hi : s.Running i p) (he : p.outlet = some e) : e = .writer i ∨ e = .output := by
  obtain ⟨task, htask, hp⟩ := h.own hi.1
  rw [hp.outlet he]
  exact hl.outlet htask

theorem Sound.exists_writer (h : s.Sound l) (hl : l.Wired) (hheld : s.held l = []) {pipe : Nat}
    (he : .writer pipe ∈ s.opened l) :
    ∃ p, s.Running pipe p ∧ p.outlet = some (.writer pipe) := by
  obtain ⟨i, p, hi, hin | hout⟩ := h.exists_holder hheld he
  · obtain ⟨-, h'⟩ | ⟨_, -, h'⟩ := h.inlet_eq hl hi hin <;> cases h'
  · obtain h' | h' := h.outlet_eq hl hi hout <;> cases h'
    exact ⟨p, hi, hout⟩

theorem Sound.exists_reader (h : s.Sound l) (hl : l.Wired) (hheld : s.held l = []) {pipe : Nat}
    (he : .reader pipe ∈ s.opened l) :
    ∃ p, s.Running (pipe + 1) p ∧ p.inlet = some (.reader pipe) := by
  obtain ⟨i, p, hi, hin | hout⟩ := h.exists_holder hheld he
  · obtain ⟨-, h'⟩ | ⟨k, hk, h'⟩ := h.inlet_eq hl hi hin
    · cases h'
    · cases h'
      exact ⟨p, hk ▸ hi, hin⟩
  · obtain h' | h' := h.outlet_eq hl hi hout <;> cases h'

def Stuck (κ : Circumstances) (l : Launch) (s : System) : Prop :=
  ∀ s', ¬Step κ l s s'

theorem Stuck.waits (hstuck : s.Stuck κ l) {i : Nat} {p : Process} (hi : s.Running i p) :
    (∃ pipe, p.WaitsToRead (s.opened l) s.traffic pipe) ∨
      ∃ pipe, p.WaitsToWrite κ (s.opened l) s.traffic pipe := by
  obtain ⟨p', t', hm⟩ | hwaits := move_or_waits κ p (s.opened l) s.traffic
  · exact absurd (.move hi.1 hi.2 hm) (hstuck _)
  · exact hwaits

/-- The first of the stages that wait to read would wait for a stage that waits to write
into the same empty pipe. -/
theorem Stuck.not_waitsToRead (hstuck : s.Stuck κ l) (h : s.Sound l) (hl : l.Wired)
    (hcap : ∀ pipe, 0 < κ.capacity pipe) (hheld : s.held l = []) {i : Nat} {p : Process}
    (hi : s.Running i p) (pipe : Nat) : ¬p.WaitsToRead (s.opened l) s.traffic pipe := by
  -- The writer of a pipe stands to the left of its reader: the chain runs towards stage 0,
  -- which reads from no pipe.
  induction i using Nat.strongRecOn generalizing p pipe with
  | ind i ih =>
      rintro ⟨hin, hempty, hwriter⟩
      obtain ⟨q, hq, hout⟩ := h.exists_writer hl hheld hwriter
      have hlt : pipe < i := by
        obtain ⟨-, h'⟩ | ⟨k, rfl, h'⟩ := h.inlet_eq hl hi hin <;> cases h'
        exact Nat.lt_succ_self pipe
      obtain ⟨other, hread⟩ | ⟨other, hown, hfull, -⟩ := hstuck.waits hq
      · exact ih pipe hlt hq other hread
      · cases hout.symm.trans hown
        rw [hempty] at hfull
        exact Nat.not_lt.mpr hfull (hcap pipe)

/-- The last of the stages that wait to write would wait for a stage that does not wait. -/
theorem Stuck.not_waitsToWrite (hstuck : s.Stuck κ l) (h : s.Sound l) (hl : l.Wired)
    (hcap : ∀ pipe, 0 < κ.capacity pipe) (hheld : s.held l = []) {i : Nat} {p : Process}
    (hi : s.Running i p) (pipe : Nat) : ¬p.WaitsToWrite κ (s.opened l) s.traffic pipe := by
  -- The reader of a pipe stands to the right of its writer: the induction is on how many
  -- stages there are to the right.
  induction hn : s.processes.length - i using Nat.strongRecOn generalizing i p pipe with
  | ind n ih =>
      rintro ⟨hout, -, hreader⟩
      obtain ⟨q, hq, hin⟩ := h.exists_reader hl hheld hreader
      have hpipe : pipe = i := by
        obtain h' | h' := h.outlet_eq hl hi hout <;> cases h'
        rfl
      have hlt : i + 1 < s.processes.length := hpipe ▸ (List.getElem?_eq_some_iff.mp hq.1).1
      obtain ⟨other, hread⟩ | ⟨other, hwrite⟩ := hstuck.waits hq
      · exact hstuck.not_waitsToRead h hl hcap hheld hq other hread
      · exact ih (s.processes.length - (pipe + 1)) (by omega) hq other rfl hwrite

theorem Stuck.not_running (hstuck : s.Stuck κ l) (h : s.Sound l) (hl : l.Wired)
    (hcap : ∀ pipe, 0 < κ.capacity pipe) (hheld : s.held l = []) (i : Nat) (p : Process) :
    ¬s.Running i p := by
  intro hi
  cases hstuck.waits hi with
  | inl hread =>
      obtain ⟨pipe, hread⟩ := hread
      exact hstuck.not_waitsToRead h hl hcap hheld hi pipe hread
  | inr hwrite =>
      obtain ⟨pipe, hwrite⟩ := hwrite
      exact hstuck.not_waitsToWrite h hl hcap hheld hi pipe hwrite

/-- The shell waits for nothing but processes. -/
theorem Stuck.phase (hstuck : s.Stuck κ l) (h : s.Sound l) :
    s.phase = .returned ∨
      ∃ i left p, s.phase = .waiting (i :: left) ∧ s.Running i p := by
  cases hp : s.phase with
  | starting =>
      cases ht : l.started[s.processes.length]? with
      | some task => exact absurd (.launch hp ht) (hstuck _)
      | none => exact absurd (.launched hp (List.getElem?_eq_none_iff.mp ht)) (hstuck _)
  | releasing left =>
      cases left with
      | nil => exact absurd (.await hp) (hstuck _)
      | cons e left => exact absurd (.release hp) (hstuck _)
  | waiting left =>
      cases left with
      | nil => exact absurd (.back hp) (hstuck _)
      | cons i left =>
          have hlt : i < s.processes.length := by
            rw [h.complete (by rw [hp]; nofun)]
            exact h.awaited hp i List.mem_cons_self
          cases he : s.processes[i].ended with
          | true => exact absurd (.join hp (List.getElem?_eq_getElem hlt) he) (hstuck _)
          | false => exact .inr ⟨i, left, _, rfl, List.getElem?_eq_getElem hlt, he⟩
  | returned => exact .inl rfl

end System

/-- While a started stage has not ended or the shell has not returned, somebody can go on:
whatever the programs do, wherever a start fails and in whatever order all have gone on so
far, as long as each pipe holds a byte. -/
theorem exists_step_of_unfinished (m : Machine) (found : Nat → Console) (c : Console)
    (stages : List Stage) (κ : Circumstances) (hcap : ∀ pipe, 0 < κ.capacity pipe) {s : System}
    (hs : System.Reachable κ (Launch.ofPipeline m found stages) c s)
    (hu : (∃ p ∈ s.processes, p.ended = false) ∨ s.phase ≠ .returned) :
    ∃ s', System.Step κ (Launch.ofPipeline m found stages) s s' := by
  have hl := Launch.wired_ofPipeline m found stages
  have h := System.sound_of_reachable hs
  refine Classical.byContradiction fun hnone => ?_
  -- In both cases that are left the shell holds no end any more, so only processes do.
  have hstuck : s.Stuck κ (Launch.ofPipeline m found stages) := fun s' hs' => hnone ⟨s', hs'⟩
  have hidle : ∀ i p, s.held (Launch.ofPipeline m found stages) = [] → ¬s.Running i p :=
    fun i p hheld => hstuck.not_running h hl hcap hheld i p
  obtain hp | ⟨i, left, p, hp, hi⟩ := hstuck.phase h
  · obtain ⟨p, hmem, hend⟩ := hu.resolve_right fun hne => hne hp
    obtain ⟨i, hi⟩ := List.mem_iff_getElem?.mp hmem
    exact hidle i p (by rw [System.held, hp]) ⟨hi, hend⟩
  · exact hidle i p (by rw [System.held, hp]) hi

/-- A machine on which the third stage cannot be started. -/
def thirdRefused : Machine where
  start _ _ _ _ := .ok id
  pipeFault _ := none
  shareFault i := if i = 2 then some .tooManyLinks else none

/-- Programs that write without end, and pipes that hold one byte. -/
def endless : Circumstances where
  setting := ⟨none, SearchPath.empty⟩
  history := {}
  programs _ _ := .write [121, 10]
  capacity _ := 1
  outputRead := true

/-- Two programs have filled their pipes and wait, the second one at a pipe whose reader the
shell still holds, since the third stage cannot be started. -/
theorem exists_step_both_waiting :
    let c : Console := ⟨⟨Tree.empty, Tree.root⟩, {}, .keep {}, .keep {}⟩
    let stages : List Stage := [.program "yes" "yes" [], .program "yes" "yes" [], .builtin .pwd []]
    let l := Launch.ofPipeline thirdRefused (fun _ => c) stages
    ∃ s, (∀ pipe, 0 < endless.capacity pipe) ∧ System.Reachable endless l c s ∧
      ((∃ p ∈ s.processes, p.ended = false) ∨ s.phase ≠ .returned) ∧
      (∀ p ∈ s.processes, ∃ pipe, p.WaitsToWrite endless (s.opened l) s.traffic pipe) ∧
      s.processes.length = 2 ∧ ∃ s', System.Step endless l s s' := by
  intro c stages l
  have h0 : System.Reachable endless l c (.start c) := .refl
  have h1 := Relation.ReflTransGen.tail h0 (.launch rfl rfl)
  have h2 := Relation.ReflTransGen.tail h1 (.launch rfl rfl)
  have h3 := Relation.ReflTransGen.tail h2 (.move (i := 0) rfl rfl
    (.send (n := 1) rfl rfl (by decide) (by decide) (by decide) (by decide)))
  have h4 := Relation.ReflTransGen.tail h3 (.move (i := 1) rfl rfl
    (.send (n := 1) rfl rfl (by decide) (by decide) (by decide) (by decide)))
  refine ⟨_, fun _ => Nat.one_pos, h4, .inl ⟨_, List.mem_cons_self, rfl⟩, ?_, rfl,
    exists_step_of_unfinished thirdRefused (fun _ => c) c stages endless (fun _ => Nat.one_pos) h4
      (.inl ⟨_, List.mem_cons_self, rfl⟩)⟩
  intro p hp
  obtain rfl | hp := List.mem_cons.mp hp
  · exact ⟨0, rfl, by decide, by decide⟩
  · rw [List.mem_singleton.mp hp]
    exact ⟨1, rfl, by decide, by decide⟩

end Pipeline

end LineShell
