import LineShell.Proofs.Pipeline.Determinacy
import Mathlib.Data.List.Nodup

/-!
Who owns the ends of the streams. While it starts the stages the shell keeps the ends in places
of their own and empties a place for the stage that the end is for. Wherever a start fails, an
end has been handed to one stage or is dropped by the shell, no stage finds an empty place, and
when the shell begins to wait it has no end left. From there on every end is closed once.
-/

namespace LineShell

namespace Pipeline

/-- The places in which the shell keeps ends. Where an end has been taken there is none. -/
structure Store where
  input : Option StreamEnd := some .input
  output : Option StreamEnd := some .output
  readers : List (Option StreamEnd) := []
  writers : List (Option StreamEnd) := []

namespace Store

def bare : Store :=
  ⟨none, none, [], []⟩

def ends (s : Store) : List StreamEnd :=
  (s.input.toList ++ s.readers.filterMap id) ++ (s.writers.filterMap id ++ s.output.toList)

def withPipe (s : Store) (pipe : Nat) : Store :=
  { s with
    readers := s.readers ++ [some (.reader pipe)]
    writers := s.writers ++ [some (.writer pipe)] }

/-- Takes the end that a stage reads from, none if there is none in its place. -/
def takeInlet (s : Store) : Nat → Option StreamEnd × Store
  | 0 => (s.input, { s with input := none })
  | pipe + 1 => (s.readers[pipe]?.join, { s with readers := s.readers.set pipe none })

/-- Takes the end that a stage writes to: of a pipe if there is one behind the stage. -/
def takeOutlet (s : Store) (stage : Nat) : Option StreamEnd × Store :=
  match s.writers[stage]? with
  | some writer => (writer, { s with writers := s.writers.set stage none })
  | none => (s.output, { s with output := none })

def take (s : Store) (stage : Nat) : Option StreamEnd × Option StreamEnd × Store :=
  let (inlet, s) := s.takeInlet stage
  let (outlet, s) := s.takeOutlet stage
  (inlet, outlet, s)

end Store

/-- A started stage and what it was handed. For an end that was missing it has the null
stream. -/
structure Handover where
  work : Work
  inlet : Option StreamEnd
  outlet : Option StreamEnd

def Handover.ofTask (task : Task) : Handover :=
  ⟨task.work, some task.inlet, some task.outlet⟩

inductive Point
  | making
  | choosing (stage : Nat)
  /-- The ends for the stage of this number have been taken, and it is not started yet. -/
  | handing (stage : Nat) (inlet outlet : Option StreamEnd)
  | clearing
  | waiting
  /-- A pipe could not be made, and nothing has been started. -/
  | refused

namespace Point

def hands : Point → List StreamEnd
  | .handing _ inlet outlet => inlet.toList ++ outlet.toList
  | _ => []

def isFinal : Point → Prop
  | .waiting | .refused => True
  | _ => False

end Point

/-- The shell while it starts the stages of a pipeline. -/
structure Starter where
  point : Point := .making
  pipes : Nat := 0
  store : Store := {}
  started : List Handover := []
  dropped : List StreamEnd := []
  failure : Option ShellError := none

namespace Starter

def held (s : Starter) : List StreamEnd :=
  s.store.ends ++ s.point.hands

def handed (s : Starter) : List StreamEnd :=
  s.started.filterMap Handover.inlet ++ s.started.filterMap Handover.outlet

/-- Gives up at the stage whose ends have been taken. -/
def abandon (s : Starter) (e : ShellError) : Starter :=
  { s with point := .clearing, dropped := s.dropped ++ s.point.hands, failure := some e }

inductive Step (m : Machine) (found : Nat → Console) (stages : List Stage) :
    Starter → Starter → Prop
  | pipe {s : Starter} (hp : s.point = .making) (hn : s.pipes < stages.length - 1)
      (hf : m.pipeFault s.pipes = none) :
      Step m found stages s { s with pipes := s.pipes + 1, store := s.store.withPipe s.pipes }
  | noPipe {s : Starter} {fault : Fault} (hp : s.point = .making)
      (hn : s.pipes < stages.length - 1) (hf : m.pipeFault s.pipes = some fault) :
      Step m found stages s
        { s with
          point := .refused
          store := .bare
          dropped := s.dropped ++ s.store.ends
          failure := some (.pipe fault) }
  | piped {s : Starter} (hp : s.point = .making) (hn : stages.length - 1 ≤ s.pipes) :
      Step m found stages s { s with point := .choosing 0 }
  | take {s : Starter} {i : Nat} {inlet outlet : Option StreamEnd} {store : Store}
      (hp : s.point = .choosing i) (hi : i < stages.length)
      (ht : s.store.take i = (inlet, outlet, store)) :
      Step m found stages s { s with point := .handing i inlet outlet, store := store }
  | notShared {s : Starter} {i : Nat} {inlet outlet : Option StreamEnd} {fault : Fault}
      (hp : s.point = .handing i inlet outlet) (hf : m.shareFault i = some fault) :
      Step m found stages s (s.abandon (.pipe fault))
  | notStarted {s : Starter} {i : Nat} {inlet outlet : Option StreamEnd} {stage : Stage}
      {e : ShellError} (hp : s.point = .handing i inlet outlet) (hf : m.shareFault i = none)
      (hi : stages[i]? = some stage) (he : stage.start m i (found i) = .error e) :
      Step m found stages s (s.abandon e)
  | start {s : Starter} {i : Nat} {inlet outlet : Option StreamEnd} {stage : Stage} {work : Work}
      (hp : s.point = .handing i inlet outlet) (hf : m.shareFault i = none)
      (hi : stages[i]? = some stage) (hw : stage.start m i (found i) = .ok work) :
      Step m found stages s
        { s with
          point := .choosing (i + 1)
          started := s.started ++ [⟨work, inlet, outlet⟩] }
  | started {s : Starter} {i : Nat} (hp : s.point = .choosing i) (hi : stages.length ≤ i) :
      Step m found stages s { s with point := .clearing }
  | clear {s : Starter} (hp : s.point = .clearing) :
      Step m found stages s
        { s with point := .waiting, store := .bare, dropped := s.dropped ++ s.store.ends }

def Reachable (m : Machine) (found : Nat → Console) (stages : List Stage) : Starter → Prop :=
  Relation.ReflTransGen (Step m found stages) {}

end Starter

/-! The places that are empty -/

/-- The end that stage `i` is to read from, and the one that it is to write to when there are so
many stages. -/
def inletOf (i : Nat) : StreamEnd :=
  if i = 0 then .input else .reader (i - 1)

def outletOf (stages i : Nat) : StreamEnd :=
  if i + 1 = stages then .output else .writer i

theorem getElem?_inlets {pipes i : Nat} (h : i ≤ pipes) :
    (inlets pipes)[i]? = some (inletOf i) := by
  cases i with
  | zero => rfl
  | succ i => simp [inlets, inletOf, Nat.lt_of_succ_le h]

theorem getElem?_outlets {pipes i : Nat} (h : i ≤ pipes) :
    (outlets pipes)[i]? = some (outletOf (pipes + 1) i) := by
  obtain h | rfl := Nat.lt_or_eq_of_le h
  · rw [outlets, List.getElem?_append_left (by simpa using h), outletOf, if_neg (by omega)]
    simp [h]
  · rw [outlets, List.getElem?_append_right (by simp), outletOf, if_pos rfl]
    simp

theorem length_inlets (pipes : Nat) : (inlets pipes).length = pipes + 1 := by
  simp [inlets]

theorem length_outlets (pipes : Nat) : (outlets pipes).length = pipes + 1 := by
  simp [outlets]

theorem nodup_ends (pipes : Nat) : (inlets pipes ++ outlets pipes).Nodup := by
  have hr : ((List.range pipes).map StreamEnd.reader).Nodup :=
    List.nodup_range.map fun _ _ h => StreamEnd.reader.inj h
  have hw : ((List.range pipes).map StreamEnd.writer).Nodup :=
    List.nodup_range.map fun _ _ h => StreamEnd.writer.inj h
  simp only [inlets, outlets, List.nodup_append, List.nodup_cons, List.mem_cons, List.mem_append,
    List.mem_map, List.mem_range]
  grind

/-- Places for so many ends, the first of which have been emptied. -/
def places (g : Nat → StreamEnd) (n taken : Nat) : List (Option StreamEnd) :=
  (List.range n).map fun i => if i < taken then none else some (g i)

section places

variable (g : Nat → StreamEnd) {n taken : Nat}

theorem places_succ : places g (n + 1) 0 = places g n 0 ++ [some (g n)] := by
  simp [places, List.range_succ]

theorem getElem?_places (h : taken < n) : (places g n taken)[taken]? = some (some (g taken)) := by
  simp [places, h]

theorem getElem?_places_length : (places g n n)[n]? = none := by
  simp [places]

theorem set_places (n taken : Nat) :
    (places g n taken).set taken none = places g n (taken + 1) := by
  apply List.ext_getElem (by simp [places])
  intro i hi hi'
  simp only [places, List.getElem_set, List.getElem_map, List.getElem_range]
  by_cases hp : taken = i
  · rw [if_pos hp, if_pos (by omega)]
  · by_cases hlt : i < taken
    · rw [if_neg hp, if_pos hlt, if_pos (by omega)]
    · rw [if_neg hp, if_neg hlt, if_neg (by omega)]

theorem places_length : places g n n = places g n (n + 1) := by
  rw [← set_places]
  exact (List.set_eq_of_length_le (by simp [places])).symm

theorem filterMap_places (n taken : Nat) :
    (places g n taken).filterMap id = ((List.range n).map g).drop taken := by
  induction n with
  | zero => simp [places]
  | succ n ih =>
      have hplaces : places g (n + 1) taken =
          places g n taken ++ [if n < taken then none else some (g n)] := by
        simp [places, List.range_succ]
      rw [hplaces, List.filterMap_append, ih, List.range_succ, List.map_append, List.drop_append]
      simp only [List.map_singleton, List.length_map, List.length_range]
      by_cases h : n < taken
      · have hnil : [g n].drop (taken - n) = [] :=
          List.drop_eq_nil_of_le (by rw [List.length_singleton]; omega)
        rw [if_pos h, hnil]
        rfl
      · rw [if_neg h, Nat.sub_eq_zero_of_le (Nat.le_of_not_lt h)]
        rfl

end places

namespace Store

/-- The places when this stage is the next one to take its ends out of them. -/
def before (pipes stage : Nat) : Store where
  input := if stage = 0 then some .input else none
  output := if stage ≤ pipes then some .output else none
  readers := places .reader pipes (stage - 1)
  writers := places .writer pipes stage

theorem withPipe_before (pipes : Nat) : (before pipes 0).withPipe pipes = before (pipes + 1) 0 := by
  simp [before, withPipe, places_succ]

theorem ends_before {pipes stage : Nat} (h : stage ≤ pipes + 1) :
    (before pipes stage).ends = (inlets pipes).drop stage ++ (outlets pipes).drop stage := by
  have hin : (if stage = 0 then some StreamEnd.input else none).toList ++
      ((List.range pipes).map .reader).drop (stage - 1) = (inlets pipes).drop stage := by
    cases stage <;> simp [inlets]
  have hout : ((List.range pipes).map StreamEnd.writer).drop stage ++
      (if stage ≤ pipes then some StreamEnd.output else none).toList =
        (outlets pipes).drop stage := by
    rw [outlets, List.drop_append]
    simp only [List.length_map, List.length_range]
    obtain h | rfl := Nat.lt_or_eq_of_le h
    · rw [if_pos (Nat.le_of_lt_succ h), Nat.sub_eq_zero_of_le (Nat.le_of_lt_succ h)]
      rfl
    · simp
  rw [ends, before]
  simp only [filterMap_places]
  rw [hin, hout]

theorem takeInlet_before {pipes stage : Nat} (h : stage ≤ pipes) :
    (before pipes stage).takeInlet stage =
      (some (inletOf stage),
        { before pipes stage with input := none, readers := places .reader pipes stage }) := by
  cases stage with
  | zero => rfl
  | succ pipe => simp [takeInlet, before, inletOf, getElem?_places _ h, set_places]

theorem takeOutlet_eq {s : Store} {pipes stage : Nat} (h : stage ≤ pipes)
    (hs : s.writers = places .writer pipes stage) (ho : s.output = some .output) :
    s.takeOutlet stage =
      (some (outletOf (pipes + 1) stage),
        { s with
          output := if stage + 1 ≤ pipes then some .output else none
          writers := places .writer pipes (stage + 1) }) := by
  obtain hlt | rfl := Nat.lt_or_eq_of_le h
  · have hle : stage + 1 ≤ pipes := hlt
    simp [takeOutlet, hs, ho, getElem?_places _ hlt, set_places, outletOf, Nat.ne_of_lt hlt, hle]
  · have hnone : ¬stage + 1 ≤ stage := Nat.not_succ_le_self stage
    simp only [takeOutlet, hs, getElem?_places_length, ho, outletOf, if_pos, if_neg hnone]
    rw [← places_length, ← hs]

/-- The places that a stage takes its ends from are not empty. -/
theorem take_before {pipes stage : Nat} (h : stage ≤ pipes) :
    (before pipes stage).take stage =
      (some (inletOf stage), some (outletOf (pipes + 1) stage), before pipes (stage + 1)) := by
  have houtput : (before pipes stage).output = some .output := if_pos h
  simp only [take, takeInlet_before h]
  rw [takeOutlet_eq (s := { before pipes stage with
    input := none, readers := places .reader pipes stage }) h rfl houtput]
  rfl

end Store

end Pipeline

/-! The launch, stage by stage -/

namespace Launch

open Pipeline

def behind (tasks : List Task) (l : Launch) : Launch :=
  { l with started := tasks ++ l.started }

/-- The launch of the stages from this one on, with the ends that are left for them. -/
def ofStage (m : Machine) (found : Nat → Console) (stages : List Stage) (i : Nat) : Launch :=
  ofStages m found i (stages.drop i) ((inlets (stages.length - 1)).drop i)
    ((outlets (stages.length - 1)).drop i)

def pipesMade (m : Machine) (stages : Nat) : Nat :=
  (missingPipe? m (stages - 1)).elim (stages - 1) Prod.fst

theorem missingPipe?_eq_none {m : Machine} {pipes : Nat} (h : ∀ i < pipes, m.pipeFault i = none) :
    missingPipe? m pipes = none := by
  rw [missingPipe?, List.findSome?_eq_none_iff]
  intro i hi
  rw [h i (List.mem_range.mp hi)]
  rfl

theorem missingPipe?_eq_some {m : Machine} {pipes made : Nat} {fault : Fault}
    (h : ∀ i < made, m.pipeFault i = none) (hn : made < pipes)
    (hf : m.pipeFault made = some fault) : missingPipe? m pipes = some (made, fault) := by
  obtain ⟨more, rfl⟩ := Nat.exists_eq_add_of_lt hn
  rw [missingPipe?, List.findSome?_eq_some_iff]
  refine ⟨List.range made, made, (List.range more).map (made + 1 + ·), ?_, ?_, ?_⟩
  · rw [Nat.add_right_comm, List.range_add, List.range_succ]
    simp
  · rw [hf]
    rfl
  · intro i hi
    rw [h i (List.mem_range.mp hi)]
    rfl

section ofStage

variable {m : Machine} {found : Nat → Console} {stages : List Stage} {i : Nat}

theorem ofPipeline_eq (h : ∀ i < stages.length - 1, m.pipeFault i = none) :
    ofPipeline m found stages = ofStage m found stages 0 := by
  simp only [ofPipeline, missingPipe?_eq_none h]
  rfl

theorem ofStage_of_le (h : stages.length ≤ i) :
    ofStage m found stages i =
      ⟨[], (inlets (stages.length - 1)).drop i ++ (outlets (stages.length - 1)).drop i, none⟩ := by
  rw [ofStage, List.drop_eq_nil_of_le h]
  rfl

theorem drop_inlets {pipes : Nat} (h : i ≤ pipes) :
    (inlets pipes).drop i = inletOf i :: (inlets pipes).drop (i + 1) := by
  have hlt : i < (inlets pipes).length := by rw [length_inlets]; omega
  rw [List.drop_eq_getElem_cons hlt]
  congr 1
  exact (List.getElem?_eq_some_iff.mp (getElem?_inlets h)).2

theorem drop_outlets {pipes : Nat} (h : i ≤ pipes) :
    (outlets pipes).drop i = outletOf (pipes + 1) i :: (outlets pipes).drop (i + 1) := by
  have hlt : i < (outlets pipes).length := by rw [length_outlets]; omega
  rw [List.drop_eq_getElem_cons hlt]
  congr 1
  exact (List.getElem?_eq_some_iff.mp (getElem?_outlets h)).2

variable {stage : Stage}

theorem ofStage_eq (h : stages[i]? = some stage) :
    ofStage m found stages i =
      ofStages m found i (stage :: stages.drop (i + 1))
        (inletOf i :: (inlets (stages.length - 1)).drop (i + 1))
        (outletOf stages.length i :: (outlets (stages.length - 1)).drop (i + 1)) := by
  obtain ⟨hlt, rfl⟩ := List.getElem?_eq_some_iff.mp h
  have hle : i ≤ stages.length - 1 := by omega
  have hout := drop_outlets hle
  rw [Nat.sub_add_cancel (by omega)] at hout
  rw [ofStage, drop_inlets hle, hout, List.drop_eq_getElem_cons hlt]

theorem ofStage_of_not_shared (h : stages[i]? = some stage) {fault : Fault}
    (hf : m.shareFault i = some fault) :
    ofStage m found stages i =
      ⟨[], inletOf i :: (inlets (stages.length - 1)).drop (i + 1) ++
        outletOf stages.length i :: (outlets (stages.length - 1)).drop (i + 1),
        some (.pipe fault)⟩ := by
  rw [ofStage_eq h, ofStages, hf]

theorem ofStage_of_not_started (h : stages[i]? = some stage) (hf : m.shareFault i = none)
    {e : ShellError} (he : stage.start m i (found i) = .error e) :
    ofStage m found stages i =
      ⟨[], inletOf i :: (inlets (stages.length - 1)).drop (i + 1) ++
        outletOf stages.length i :: (outlets (stages.length - 1)).drop (i + 1), some e⟩ := by
  rw [ofStage_eq h, ofStages, hf, he]

theorem ofStage_of_started (h : stages[i]? = some stage) (hf : m.shareFault i = none)
    {work : Work} (hw : stage.start m i (found i) = .ok work) :
    ofStage m found stages i =
      (ofStage m found stages (i + 1)).behind [⟨work, inletOf i, outletOf stages.length i⟩] := by
  rw [ofStage_eq h, ofStages, hf, hw]
  rfl

/-- Where no further stage is started the launch ends with what there is. -/
theorem eq_of_behind {l : Launch} {tasks : List Task} {released : List StreamEnd}
    {failure : Option ShellError} (hl : l = (ofStage m found stages i).behind tasks)
    (he : ofStage m found stages i = ⟨[], released, failure⟩) : l = ⟨tasks, released, failure⟩ := by
  rw [hl, he, behind, List.append_nil]

end ofStage

end Launch

namespace Pipeline

open Launch

/-- The states that the shell comes to, by how far it has come. Behind the tasks that have been
started stands the launch of the stages that are left. -/
inductive Tracks (m : Machine) (found : Nat → Console) (stages : List Stage) : Starter → Prop
  | making {pipes : Nat} (hn : pipes ≤ stages.length - 1)
      (hf : ∀ i < pipes, m.pipeFault i = none) :
      Tracks m found stages ⟨.making, pipes, .before pipes 0, [], [], none⟩
  | choosing {tasks : List Task} (hn : ∀ i < stages.length - 1, m.pipeFault i = none)
      (hi : tasks.length ≤ stages.length)
      (hl : ofPipeline m found stages = (ofStage m found stages tasks.length).behind tasks) :
      Tracks m found stages
        ⟨.choosing tasks.length, stages.length - 1, .before (stages.length - 1) tasks.length,
          tasks.map .ofTask, [], none⟩
  | handing {tasks : List Task} (hn : ∀ i < stages.length - 1, m.pipeFault i = none)
      (hi : tasks.length < stages.length)
      (hl : ofPipeline m found stages = (ofStage m found stages tasks.length).behind tasks) :
      Tracks m found stages
        ⟨.handing tasks.length (some (inletOf tasks.length))
            (some (outletOf stages.length tasks.length)),
          stages.length - 1, .before (stages.length - 1) (tasks.length + 1),
          tasks.map .ofTask, [], none⟩
  | clearing {store : Store} {dropped released : List StreamEnd} {tasks : List Task}
      {failure : Option ShellError} (hn : ∀ i < stages.length - 1, m.pipeFault i = none)
      (hl : ofPipeline m found stages = ⟨tasks, released, failure⟩)
      (hd : (dropped ++ store.ends).Perm released) :
      Tracks m found stages
        ⟨.clearing, stages.length - 1, store, tasks.map .ofTask, dropped, failure⟩
  | waiting {dropped released : List StreamEnd} {tasks : List Task}
      {failure : Option ShellError} (hn : ∀ i < stages.length - 1, m.pipeFault i = none)
      (hl : ofPipeline m found stages = ⟨tasks, released, failure⟩) (hd : dropped.Perm released) :
      Tracks m found stages
        ⟨.waiting, stages.length - 1, .bare, tasks.map .ofTask, dropped, failure⟩
  | refused {pipes : Nat} {fault : Fault}
      (hm : missingPipe? m (stages.length - 1) = some (pipes, fault)) :
      Tracks m found stages
        ⟨.refused, pipes, .bare, [], inlets pipes ++ outlets pipes, some (.pipe fault)⟩

namespace Starter

variable {m : Machine} {found : Nat → Console} {stages : List Stage} {s s' : Starter}

/-- The ends of the stage that is given up are dropped with those that are left. -/
theorem tracks_abandon {tasks : List Task} {e : ShellError}
    (hn : ∀ i < stages.length - 1, m.pipeFault i = none) (hi : tasks.length < stages.length)
    (hl : ofPipeline m found stages = (ofStage m found stages tasks.length).behind tasks)
    (he : ofStage m found stages tasks.length =
      ⟨[], inletOf tasks.length :: (inlets (stages.length - 1)).drop (tasks.length + 1) ++
        outletOf stages.length tasks.length ::
          (outlets (stages.length - 1)).drop (tasks.length + 1), some e⟩) :
    Tracks m found stages
      ⟨.clearing, stages.length - 1, .before (stages.length - 1) (tasks.length + 1),
        tasks.map .ofTask, [inletOf tasks.length, outletOf stages.length tasks.length],
        some e⟩ := by
  refine .clearing hn (eq_of_behind hl he) ?_
  rw [Store.ends_before (by omega)]
  simp only [List.cons_append, List.nil_append]
  exact .cons _ List.perm_middle.symm

theorem Step.tracks (hs : Step m found stages s s') (h : Tracks m found stages s) :
    Tracks m found stages s' := by
  cases hs with
  | pipe hp hn hf =>
      cases h with
      | @making pipes _ hmade =>
          refine Store.withPipe_before pipes ▸ .making hn fun i hi => ?_
          obtain hi | rfl := Nat.lt_succ_iff_lt_or_eq.mp hi
          · exact hmade i hi
          · exact hf
      | _ => cases hp
  | noPipe hp hn hf =>
      cases h with
      | making _ hmade =>
          rw [List.nil_append, Store.ends_before (Nat.zero_le _)]
          exact .refused (missingPipe?_eq_some hmade hn hf)
      | _ => cases hp
  | piped hp hn =>
      cases h with
      | @making pipes hle hmade =>
          obtain rfl := Nat.le_antisymm hle hn
          exact @Tracks.choosing m found stages [] hmade (Nat.zero_le _) (ofPipeline_eq hmade)
      | _ => cases hp
  | take hp hi ht =>
      cases h with
      | @choosing tasks hn _ hl =>
          cases hp
          have htake := Store.take_before (show tasks.length ≤ stages.length - 1 by omega)
          rw [Nat.sub_add_cancel (by omega)] at htake
          cases htake.symm.trans ht
          exact .handing hn hi hl
      | _ => cases hp
  | notShared hp hf =>
      cases h with
      | @handing tasks hn hi hl =>
          cases hp
          have hstage := List.getElem?_eq_getElem hi
          exact tracks_abandon hn hi hl (ofStage_of_not_shared hstage hf)
      | _ => cases hp
  | notStarted hp hf hstage he =>
      cases h with
      | @handing tasks hn hi hl =>
          cases hp
          exact tracks_abandon hn hi hl (ofStage_of_not_started hstage hf he)
      | _ => cases hp
  | @start i inlet outlet stage work hp hf hstage hw =>
      cases h with
      | @handing tasks hn hi hl =>
          cases hp
          let task : Task := ⟨work, inletOf tasks.length, outletOf stages.length tasks.length⟩
          have hlen : (tasks ++ [task]).length = tasks.length + 1 := List.length_append
          have hlaunch : ofPipeline m found stages =
              (ofStage m found stages (tasks ++ [task]).length).behind (tasks ++ [task]) := by
            rw [hl, ofStage_of_started hstage hf hw, hlen]
            simp [behind, task]
          have htracks := Tracks.choosing hn (by omega) hlaunch
          rw [hlen, List.map_append] at htracks
          exact htracks
      | _ => cases hp
  | started hp hi =>
      cases h with
      | @choosing tasks hn hle hl =>
          cases hp
          refine .clearing hn (eq_of_behind hl (ofStage_of_le hi)) ?_
          rw [Store.ends_before (by omega)]
          exact List.Perm.refl _
      | _ => cases hp
  | clear hp =>
      cases h with
      | clearing hn hl hd => exact .waiting hn hl hd
      | _ => cases hp

theorem tracks_of_reachable (h : Reachable m found stages s) : Tracks m found stages s := by
  induction h with
  | refl => exact .making (Nat.zero_le _) nofun
  | tail _ hs ih => exact hs.tracks ih

end Starter

end Pipeline

end LineShell
