import LineShell.Host.Image
import LineShell.Host.Utility
import LineShell.Host.Script.Command
import LineShell.Host.Script.Pattern

/-!
The state of a running script: what it has written so far, its variables and arguments, and
where its streams lead.
-/

namespace LineShell.Script

/-- How a script goes on. -/
inductive Course
  | on
  /-- Nothing runs any more. -/
  | left
  /-- The function that runs is left. -/
  | returning
  /-- So many loops are left. -/
  | breaking (loops : Nat)
  /-- The loop of this number from the inside goes on with its next round. -/
  | continuing (loops : Nat)
  deriving DecidableEq, Repr

namespace Course

/-- Behind a round of a loop. -/
def afterRound : Course → Course
  | .continuing 1 => .on
  | c => c

/-- Behind a loop. -/
def afterLoop : Course → Course
  | .breaking 1 => .on
  | .breaking (n + 1) => .breaking n
  | .continuing (n + 1) => .continuing n
  | c => c

/-- Behind a function. -/
def afterCall : Course → Course
  | .left => .left
  | _ => .on

end Course

structure State where
  world : World
  /-- What is open for output, the streams that the script was started with first. -/
  sinks : List Sink
  /-- The streams for output, each with the number of its sink. A stream that is not among them
  is closed. -/
  outlets : List (Nat × Nat) := [(1, 0), (2, 1)]
  feed : Feed
  /-- The file that the input is, if it is one. -/
  source : Option NodeId := none
  /-- The arguments, the script's name first. -/
  arguments : List Bytes := []
  /-- The variables that a started program gets. -/
  environment : List (String × Bytes) := []
  locals : List (String × Bytes) := []
  functions : List (String × Command) := []
  /-- The letters of the options that are set. -/
  options : List Char := []
  /-- The path of the working directory by the way it was reached. -/
  place : String := ""
  /-- The line of the command that runs. -/
  line : Nat := 0
  status : Nat := 0
  /-- The status of the last script whose output was filled into the command that runs. -/
  inner : Nat := 0
  course : Course := .on
  /-- How many loops run. -/
  loops : Nat := 0
  /-- What runs at the end of the script. -/
  farewell : List Char := []
  /-- Writing where nobody reads fails, instead of stopping the writer. -/
  shielded : Bool := false

def setIn (name : String) (b : Bytes) (l : List (String × Bytes)) : List (String × Bytes) :=
  (name, b) :: l.filter (·.1 ≠ name)

/-- The stream for what is written on a channel. -/
def streamOf : Channel → Nat
  | .out => 1
  | .err => 2

namespace State

/-- A variable of the environment stays one when it is set. -/
def assign (s : State) (name : String) (b : Bytes) : State :=
  if (s.environment.lookup name).isSome then
    { s with environment := setIn name b s.environment }
  else { s with locals := setIn name b s.locals }

/-- Sets a variable that started programs get. -/
def pass (s : State) (name : String) (b : Bytes) : State :=
  { s with
    environment := setIn name b s.environment, locals := s.locals.filter (·.1 ≠ name) }

def unassign (s : State) (name : String) : State :=
  { s with
    environment := s.environment.filter (·.1 ≠ name), locals := s.locals.filter (·.1 ≠ name) }

/-- Takes back what some variables have become. -/
def restore (old : State) (names : List String) (s : State) : State :=
  { s with
    environment := s.environment.filter (!names.contains ·.1) ++
      old.environment.filter (names.contains ·.1)
    locals := s.locals.filter (!names.contains ·.1) ++
      old.locals.filter (names.contains ·.1) }

def value? (s : State) (name : String) : Option Bytes :=
  (s.locals.lookup name).or (s.environment.lookup name)

def value (s : State) (name : String) : Bytes :=
  (s.value? name).getD []

/-- The bytes that part fields. -/
def separators (s : State) : Bytes :=
  (s.value? "IFS").getD [32, 9, 10]

def sink (s : State) (number : Nat) : Sink :=
  s.sinks[number]?.getD .refuse

/-- The sink that a stream leads to. -/
def sinkOf (s : State) (stream : Nat) : Sink :=
  ((s.outlets.lookup stream).map s.sink).getD .refuse

/-- Opens a sink for a stream. -/
def withSink (s : State) (stream : Nat) (sink : Sink) : State :=
  { s with
    sinks := s.sinks ++ [sink]
    outlets := (stream, s.sinks.length) :: s.outlets.filter (·.1 ≠ stream) }

/-- The files that are open for writing. -/
def targets (s : State) : List NodeId :=
  s.sinks.filterMap Sink.target?

/-- Writes to a stream. -/
def send (s : State) (stream : Nat) (b : Bytes) : State :=
  match s.outlets.lookup stream with
  | none => s
  | some number =>
      let (sink, w) := (s.sink number).write s.world b
      { s with world := w, sinks := s.sinks.set number sink }

/-- The status of a program that wrote where nobody reads. -/
def brokenStatus : Nat := 141

/-- Writing this to a stream stops the writer. -/
def stops (s : State) (stream : Nat) (b : Bytes) : Bool :=
  (s.sinkOf stream).stops b && !s.shielded

/-- Why something that is written to a stream is lost, if it is. -/
def lost? (s : State) (stream : Nat) (b : Bytes) : Option Fault :=
  let sink := s.sinkOf stream
  if b = [] then none
  else if sink = .refuse then some .notWritable
  else if sink.stops b then some .brokenPipe
  else none

/-- The interpreter writes something itself, which may stop it where nobody reads. -/
def tell (s : State) (stream : Nat) (b : Bytes) : State :=
  if s.stops stream b then { s with status := brokenStatus, course := .left, farewell := [] }
  else if (s.lost? stream b).isSome then s
  else s.send stream b

/-- An error line of the script itself, about something that has a name. -/
def complainOf (s : State) (before : String) (name : Bytes) (after : String) : State :=
  s.tell 2
    (s.arguments.headD [] ++ Bytes.ofText (": " ++ toString s.line ++ ": " ++ before) ++ name ++
      Bytes.ofText (after ++ "\n"))

/-- An error line of the script itself. -/
def complain (s : State) (message : String) : State :=
  s.complainOf message [] ""

/-- An error line after which nothing runs any more. -/
def abort (s : State) (message : String) : State :=
  { ({ s with status := 2 }).complain message with course := .left }

/-- The output of a command that the interpreter carries out itself. -/
def print (s : State) (command : String) (b : Bytes) : State :=
  if (s.lost? 1 b).isSome ∧ !s.stops 1 b then
    { s with status := 1 }.complain (command ++ ": " ++ command ++ ": I/O error")
  else { s with status := 0 }.tell 1 b

/-- Carries out the writes of a utility, and says whether it came to the end of them. -/
def deliver (s : State) : List (Channel × Bytes) → Bool × State
  | [] => (true, s)
  | (channel, b) :: rest =>
      let stream := streamOf channel
      if s.stops stream b then (false, { s with status := brokenStatus })
      else if (s.lost? stream b).isSome then s.deliver rest
      else (s.send stream b).deliver rest

/-- Why output of this deed is lost, if it is. -/
def lostOf? (s : State) (d : Deed) : Option Fault :=
  ((d.endless :: (d.writes.filter (·.1 = .out)).map (·.2)).findSome? fun b => s.lost? 1 b)

/-- Takes over what the utility of a name has done. -/
def record (s : State) (name : String) (d : Deed) : State :=
  let lost? := s.lostOf? d
  match { s with feed := d.rest, status := d.status }.deliver d.writes with
  | (false, s) => s
  | (true, s) =>
      if s.stops 1 d.endless then { s with status := brokenStatus }
      else
        match lost? with
        | some fault => (({ s with status := 1 }).deliver [Utility.writeComplaint name fault]).2
        | none =>
            if d.endless = [] then s
            else
              let sinks := match s.outlets.lookup 1 with
                | some number => s.sinks.set number ((s.sink number).flood d.endless)
                | none => s.sinks
              { s with sinks := sinks, status := brokenStatus }

/-- What a child leaves to the state that started it: the files, what it wrote, the input it
left and its status. All else was its own. -/
def after (s child : State) : State :=
  { s with
    world := { child.world with cwd := s.world.cwd }
    sinks := child.sinks.take s.sinks.length
    feed := child.feed
    status := child.status }

/-- Some streams as they were before a command. What has been opened for others stays open. -/
def withStreamsOf (s old : State) (streams : List Nat) : State :=
  let outlets := old.outlets.filter (streams.contains ·.1) ++
    s.outlets.filter (!streams.contains ·.1)
  let count := outlets.foldl (fun n outlet => max n (outlet.2 + 1)) old.sinks.length
  let s := { s with sinks := s.sinks.take count, outlets := outlets }
  if streams.contains 0 then { s with feed := old.feed, source := old.source } else s

/-- The state that a program starts from on a console. -/
def ofConsole (c : Console) (environment : List (String × Bytes)) : State :=
  { world := c.world, sinks := [c.out, c.err], feed := c.input, environment := environment }

/-- The console as a program leaves it. -/
def console (c : Console) (s : State) : Console :=
  ⟨s.world, s.feed, s.sinks[0]?.getD c.out, s.sinks[1]?.getD c.err⟩

end State

/-- Sends a stream of a script somewhere else. -/
def Redirection.opened (s : State) (r : Redirection) (target : Bytes) : Except Fault State :=
  let path := target.textOrEmpty
  match r.direction with
  | .here => .ok { s with feed := { head := target }, source := none }
  | .read =>
      match s.world.readFile path with
      | .error fault => .error fault
      | .ok content =>
          if r.stream = 0 then
            .ok { s with
              feed := .ofFile content, source := (s.world.locate path).toOption }
          else .ok s
  | .copy =>
      let others := s.outlets.filter (·.1 ≠ r.stream)
      if path = "-" then
        .ok { s with outlets := others, feed := if r.stream = 0 then {} else s.feed }
      else
        match (Text.count? path).bind (s.outlets.lookup ·) with
        | some number => .ok { s with outlets := (r.stream, number) :: others }
        | none => if r.stream = 0 then .ok s else .error .notWritable
  | .write | .append =>
      let append := r.direction = .append
      match if append then s.world.openFile path else s.world.openNew path with
      | .error fault => .error fault
      | .ok (id, w) => .ok ({ s with world := w }.withSink r.stream (.file id append 0))

/-- Why a file cannot be opened, in the words of a script. -/
def Redirection.reason (direction : Direction) (fault : Fault) : String :=
  let missing := [.notFound, .notDirectory].contains fault
  match direction with
  | .copy => Utility.reason fault
  | .read | .here => if missing then "No such file" else Utility.reason fault
  | .write | .append => if missing then "Directory nonexistent" else Utility.reason fault

/-- Reports a redirection that fails. -/
def Redirection.complaint (r : Redirection) (target : Bytes) (fault : Fault) (s : State) : State :=
  let deed := match r.direction with
    | .copy => ""
    | .read | .here => "cannot open "
    | .write | .append => "cannot create "
  s.complainOf deed target (": " ++ reason r.direction fault)

end LineShell.Script
