import LineShell.Host.Script.Arithmetic
import LineShell.Host.Script.Own

/-!
Running a script, and the programs that it starts, from one state to the next. Loops take a
bounded number of rounds, and scripts run within scripts to a bounded depth.
-/

namespace LineShell.Script

/-- What a started interpreter runs: the script, its arguments and the input left to it. -/
inductive Errand
  | script (text : List Char) (arguments : List Bytes) (feed : Feed)
  /-- There is no script after the option that announces one. -/
  | missing
  /-- The file of the script cannot be opened. -/
  | unopened (name : Bytes) (fault : Fault)
  | illegal (option : Char)

namespace Errand

/-- The letters of the options of an interpreter. -/
def letters : List Char :=
  ['a', 'b', 'c', 'e', 'f', 'i', 'l', 'm', 'n', 'p', 's', 'u', 'v', 'x', 'C', 'E', 'I', 'V']

/-- The options in front of other words. -/
def options : List Bytes → Except Char (List Char × List Bytes)
  | [] => .ok ([], [])
  | word :: words =>
      match word.chars with
      | ['-'] | ['-', '-'] => .ok ([], words)
      | '-' :: given =>
          match given.find? (!letters.contains ·), options words with
          | some c, _ => .error c
          | none, .error c => .error c
          | none, .ok (later, rest) => .ok (given ++ later, rest)
      | _ => .ok ([], word :: words)

/-- What the words after the options ask for. -/
def ofWords (w : World) (feed : Feed) (name : Bytes) (given : List Char) : List Bytes → Errand
  | [] =>
      if given.contains 'c' then .missing
      else .script feed.head.chars [name] (feed.drop feed.head.length)
  | word :: words =>
      if given.contains 'c' then .script word.chars (if words = [] then [name] else words) feed
      else if given.contains 's' then
        .script feed.head.chars (name :: word :: words) (feed.drop feed.head.length)
      else
        match w.readFile word.textOrEmpty with
        | .ok content => .script content.chars (word :: words) feed
        | .error fault => .unopened word fault

/-- The options that an interpreter is started with, and its errand. -/
def ofArguments (w : World) (feed : Feed) : List Bytes → List Char × Errand
  | [] => ([], .script [] [] feed)
  | name :: words =>
      match options words with
      | .error c => ([], .illegal c)
      | .ok (given, words) => (given, ofWords w feed name given words)

end Errand

/-- An interpreter finds its place. It misses a working directory that has been removed. -/
def State.placed (s : State) : State :=
  match s.world.workingPath with
  | .ok path => { s with place := path }.pass "PWD" (Bytes.ofText path)
  | .error fault =>
      { s with place := "" }.tell 2
        (Bytes.ofText ("sh: 0: getcwd() failed: " ++ Utility.reason fault ++ "\n"))

/-- The status of a command that the system does not start. -/
def startStatus (fault : Fault) : Nat :=
  if [.notFound, .notDirectory, .nameTooLong, .tooManyLinks].contains fault then 127 else 126

/-- Why the system does not start a command, in the words of a script. -/
def startFault (fault : Fault) : String :=
  if [.notFound, .notDirectory].contains fault then "not found" else Utility.reason fault

/-- A command that failed may end the script, unless its failure is looked at. -/
def State.checked (s : State) (tested : Bool) : State :=
  if s.options.contains 'e' ∧ !tested ∧ s.status ≠ 0 ∧ s.course = .on then
    { s with course := .left }
  else s

/-- A child that runs no loop yet. -/
def State.child (s : State) : State :=
  { s with loops := 0 }

/-- A command that is nothing succeeds; any other sees the status of the one before it. -/
def State.before (s : State) : Command → State
  | .nothing => { s with status := 0 }
  | _ => s

/-- The streams that are sent somewhere else. -/
def streamsOf (redirections : List Redirection) : List Nat :=
  redirections.map (·.stream)

/-- How commands and words are run that are known only while a script runs: those of
functions, of scripts within scripts and of what is filled in. -/
structure Runner where
  /-- Runs a command, whose failure may be looked at. -/
  run : Bool → Command → State → State
  /-- Fills in a word, which may be split into fields. -/
  expand : Bool → State → Fields → Word → Fields × State
  /-- The most rounds of a loop. -/
  rounds : Nat

/-- What a word comes to as one. -/
def expandWhole (i : Runner) (s : State) (w : Word) : List Mark × State :=
  let (f, s) := i.expand false s {} w
  (f.joined, s)

/-- Fills in a parameter with a choice. -/
def fillInChosen (i : Runner) (splits : Bool) (s : State) (f : Fields) (p : Parameter)
    (choice : Choice) (emptyToo : Bool) (word : List Char) (quoted : Bool) : Fields × State :=
  let filling := Filling.of splits quoted
  let missing := match p.value? s with
    | none => true
    | some b => emptyToo && b == []
  let opened := if quoted then f.add [] else f
  let inner := innerWord quoted word
  match choice, missing with
  | .otherwise, true | .instead, false => i.expand splits s opened inner
  | .instead, true => (opened, s)
  | .assign, true =>
      let (marks, s) := expandWhole i s inner
      (f.addValue s filling (Mark.bytes marks), s.assign p.name (Mark.bytes marks))
  | .refuse, true =>
      let (marks, s) := expandWhole i s inner
      (f, s.abort (p.name ++ ": " ++
        if word = [] then "parameter not set" else (Mark.bytes marks).textOrEmpty))
  | .without atEnd longest, _ =>
      let (marks, s) := expandWhole i s inner
      let b := (Pattern.ofMarks marks).strip atEnd longest ((p.value? s).getD [])
      (f.addValue s filling b, s)
  | _, false => (f.addParameter s filling p, s)

/-- Fills in a piece. -/
def fillIn (i : Runner) (splits : Bool) (s : State) (f : Fields) : Piece → Fields × State
  | .text b .firm => (f.addFirm b, s)
  | .text b .plain => (f.add (b.map (·, false)), s)
  | .text b .loose => (f.addValue s (.of splits false) b, s)
  | .parameter p quoted =>
      if (p.value? s).isNone ∧ s.options.contains 'u' ∧ p ≠ .each ∧ p ≠ .joined then
        (f, s.abort (p.name ++ ": parameter not set"))
      else (f.addParameter s (.of splits quoted) p, s)
  | .length p quoted =>
      let n := ((p.value? s).getD []).length
      (f.addValue s (.of splits quoted) (Bytes.ofText (toString n)), s)
  | .chosen p choice emptyToo word quoted =>
      fillInChosen i splits s f p choice emptyToo word quoted
  | .output script quoted =>
      let child := i.run false (commandOf script) (s.child.withSink 1 (.keep {}))
      let b := withoutEndNewlines ((child.sink s.sinks.length).feed.head.filter (· ≠ 0))
      (f.addValue s (.of splits quoted) b,
        { s.after child with status := s.status, inner := child.status })
  | .value term quoted =>
      let (marks, s) := expandWhole i s (innerWord true term)
      match reckon s.value (Mark.bytes marks).chars with
      | .error message => (f, s.abort message)
      | .ok (n, settings) =>
          let text (n : Int64) : Bytes := Bytes.ofText (toString n.toInt)
          (f.addValue s (.of splits quoted) (text n),
            settings.foldr (fun (name, n) s => s.assign name (text n)) s)
  | .faulty => (f, s.abort "Bad substitution")

/-- Fills in the pieces of a word. -/
def expand (i : Runner) (splits : Bool) (s : State) (f : Fields) (w : Word) : Fields × State :=
  w.foldl (fun (f, s) piece => fillIn i splits s f piece) (f, s)

/-- The fields that words come to. -/
def expandAll (i : Runner) (s : State) : List Word → List Bytes × State
  | [] => ([], s)
  | w :: ws =>
      let (f, s) := i.expand true s {} w
      let (rest, s) := expandAll i s ws
      (s.filled f ++ rest, s)

/-- Sets the variables of some assignments, which started programs may get too. -/
def assignAll (i : Runner) (passed : Bool) (s : State) (assigned : List (String × Word)) : State :=
  assigned.foldl
    (fun s (name, w) =>
      let (marks, s) := expandWhole i s w
      let b := Mark.bytes marks
      if passed then s.pass name b else s.assign name b)
    s

/-- Opens the targets of some redirections, up to one that fails, which is reported. -/
def redirectAll (i : Runner) (s : State) : List Redirection → Bool × State
  | [] => (true, s)
  | r :: rest =>
      let (marks, s) := expandWhole i s r.target
      match r.opened s (Mark.bytes marks) with
      | .ok s => redirectAll i s rest
      | .error fault => (false, r.complaint (Mark.bytes marks) fault { s with status := 2 })

/-- One of the patterns stands for these bytes. -/
def fitsAny (i : Runner) (b : Bytes) (s : State) : List Word → Bool × State
  | [] => (false, s)
  | w :: ws =>
      let (marks, s) := expandWhole i s w
      if (Pattern.ofMarks marks).fits b then (true, s) else fitsAny i b s ws

/-- Takes steps while the step asks for one more, which ends it all if there are too many. -/
def rounds (step : State × Nat → Bool × State × Nat) : Nat → State × Nat → State
  | 0, (s, _) => { s with course := .left }
  | n + 1, s =>
      match step s with
      | (true, s) => rounds step n s
      | (false, s, _) => s

/-- Runs a program of the machine itself: the script interpreter or a utility. -/
def native (i : Runner) (s : State) (program : String) (arguments : List Bytes) : State :=
  if program = "sh" then
    let (options, errand) := Errand.ofArguments s.world s.feed arguments
    let started := { s.placed with
      arguments := arguments, options := options, locals := [], functions := [], line := 0
      status := 0, loops := 0, farewell := [] }
    s.after (match errand with
      | .missing => started.abort "-c requires an argument"
      | .illegal c => started.abort (String.ofList ("Illegal option -".toList ++ [c]))
      | .unopened name fault =>
          { started with status := 2 }.complainOf "cannot open " name
            (": " ++ Redirection.reason .read fault)
      | .script text own feed =>
          let c := if options.contains 'n' then (commandOf text).refusal else commandOf text
          let done := i.run false c { started with feed := feed, arguments := own }
          let last := i.run false (commandOf done.farewell) { done with course := .on }
          { last with status := done.status })
  else
    let sink := s.sinkOf 1
    let vain := sink = .discard ∨ (sink.target?.bind s.world.tree.node?) = some .null
    match Utility.named? program (arguments.drop 1) s.world ⟨s.source, sink.target?, vain⟩ s.feed with
    | some deed => s.record program deed
    | none => s

/-- Starts the program of a name and waits for it. A file that the system cannot start is
taken for a script. -/
def invoke (i : Runner) (before : String) (s : State) (name : Bytes) (arguments : List Bytes) :
    State :=
  match pathOf? s name.textOrEmpty with
  | none => { s with status := 127 }.complainOf before name ": not found"
  | some path =>
      match s.world.load s.targets interpreterLimit path (name :: arguments) with
      | .ok (program, arguments) => native i s program arguments
      | .error .notExecutable =>
          native i s "sh" (Bytes.ofText "sh" :: Bytes.ofText path :: arguments)
      | .error fault =>
          { s with status := startStatus fault }.complainOf before name (": " ++ startFault fault)

/-- Carries out a command of the interpreter's own or a program. -/
def performPlain (i : Runner) (s : State) (name : Bytes) (arguments : List Bytes) : State :=
  (own? s name.textOrEmpty arguments).getD (invoke i "" s name arguments)

/-- Runs a file as a part of this script. -/
def performFile (i : Runner) (tested : Bool) (s : State) (path : Bytes) : State :=
  match s.world.readFile path.textOrEmpty with
  | .error fault =>
      { ({ s with status := 2 }.complainOf ".: cannot open " path
          (": " ++ Redirection.reason .read fault)) with
        course := .left }
  | .ok content =>
      let c := commandOf content.chars
      let done := i.run tested c (s.before c)
      { done with course := done.course.afterCall }

/-- Runs a function. -/
def call (i : Runner) (tested : Bool) (s : State) (body : Command) (arguments : List Bytes) :
    State :=
  let done := i.run tested body
    { s with arguments := s.arguments.take 1 ++ arguments, loops := 0 }
  { done with arguments := s.arguments, loops := s.loops, course := done.course.afterCall }

/-- Carries out a command: a function, one of the interpreter's own, or a program. -/
def perform (i : Runner) (tested : Bool) (s : State) (name : Bytes) (arguments : List Bytes) :
    State :=
  match name.textOrEmpty, arguments with
  | "eval", words =>
      let c := commandOf (Bytes.chars (List.intercalate [32] words))
      i.run tested c (s.before c)
  | ".", [] => s.abort ".: filename argument required"
  | ".", path :: _ => performFile i tested s path
  | "exec", [] => { s with status := 0 }
  | "exec", name :: arguments => { invoke i "exec: " s name arguments with course := .left }
  | text, words =>
      match if specialNames.contains text then none else s.functions.lookup text with
      | some body => call i tested s body words
      | none =>
          match text, words with
          | "command", option :: words =>
              if option = Bytes.ofText "-v" ∨ option = Bytes.ofText "-V" then
                s.tellMeanings text (option = Bytes.ofText "-V") (words.map Bytes.textOrEmpty)
              else performPlain i s option words
          | _, words => performPlain i s name words

/-- Runs a simple command. -/
def runSimple (i : Runner) (tested : Bool) (words : List Word) (redirections : List Redirection)
    (s : State) : State :=
  let (assigned, words) := assignments words
  let (fields, s) := expandAll i s words
  let name := (fields.headD []).textOrEmpty
  if s.course ≠ .on then s
  else
    match redirectAll i s redirections with
    | (false, failed) =>
        let failed := failed.withStreamsOf s (streamsOf redirections)
        if specialNames.contains name then { failed with course := .left } else failed
    | (true, opened) =>
        match fields with
        | [] =>
            let done := assignAll i false opened assigned
            { done.withStreamsOf s (streamsOf redirections) with
              status := if done.course = .on then done.inner else done.status }
        | command :: arguments =>
            let done := perform i tested (assignAll i true opened assigned) command arguments
            let done :=
              if name = "exec" ∧ arguments = [] then done
              else done.withStreamsOf s (streamsOf redirections)
            if specialNames.contains name then done
            else s.restore (assigned.map (·.1)) done

mutual

/-- Runs a command, whose failure may be looked at. -/
def run (i : Runner) (tested : Bool) (c : Command) (s : State) : State :=
  if s.course ≠ .on then s
  else
    match c with
    | .nothing => s
    | .sequence first second => run i tested second (run i tested first s)
    | .both first second =>
        let s := run i true first s
        if s.status = 0 then run i tested second s else s
    | .either first second =>
        let s := run i true first s
        if s.status = 0 then s else run i tested second s
    | .negated c =>
        let s := run i true c s
        { s with status := if s.status = 0 then 1 else 0 }
    | .pipe first second =>
        let writer := run i tested first (s.child.withSink 1 (.keep {}))
        let between := s.after writer
        let reader := run i tested second
          { between.child with
            feed := (writer.sink s.sinks.length).feed, source := none, status := 0 }
        State.checked { between.after reader with feed := between.feed } tested
    | .beside c =>
        { s.after (run i false c { s.child with feed := {}, source := none }) with
          feed := s.feed, status := 0 }
    | .group body => (s.after (run i tested body s.child)).checked tested
    | .redirected line body redirections =>
        match redirectAll i { s with line := line } redirections with
        | (false, failed) => (failed.withStreamsOf s (streamsOf redirections)).checked tested
        | (true, opened) =>
            (run i tested body opened).withStreamsOf s (streamsOf redirections)
    | .choice test yes no =>
        let s := run i true test s
        if s.course ≠ .on then s
        else if s.status = 0 then run i tested yes s
        else run i tested no (s.before no)
    | .each name words body =>
        let (fields, s) := expandAll i s words
        let done := fields.foldl
          (fun s b =>
            if s.course ≠ .on then s
            else
              let s := run i tested body (s.assign name b)
              { s with course := s.course.afterRound })
          { s with status := if fields = [] then 0 else s.status, loops := s.loops + 1 }
        { done with course := done.course.afterLoop, loops := s.loops }
    | .repeated truth test body =>
        let round := fun (s, last) =>
          let s := run i true test s
          let s : State := { s with course := s.course.afterRound }
          if s.course ≠ .on then (false, s, last)
          else if (s.status == 0) ≠ truth then (false, { s with status := last }, last)
          else
            let s := run i tested body s
            let s : State := { s with course := s.course.afterRound }
            (s.course == .on, s, s.status)
        let done := rounds round i.rounds ({ s with loops := s.loops + 1 }, 0)
        { done with course := done.course.afterLoop, loops := s.loops }
    | .select w arms =>
        let (marks, s) := expandWhole i s w
        if s.course ≠ .on then s else runArm i tested (Mark.bytes marks) arms s
    | .arm _ _ _ => s
    | .define name body =>
        { s with functions := (name, body) :: s.functions.filter (·.1 ≠ name), status := 0 }
    | .refused line message => { s with line := line }.abort ("Syntax error: " ++ message)
    | .simple line words redirections =>
        (runSimple i tested words redirections { s with line := line, inner := 0 }).checked tested

/-- Runs the first arm that has a pattern for some bytes. -/
def runArm (i : Runner) (tested : Bool) (b : Bytes) (arms : Command) (s : State) : State :=
  match arms with
  | .arm patterns body later =>
      match fitsAny i b s patterns with
      | (true, s) => run i tested body (s.before body)
      | (false, s) => runArm i tested b later s
  | _ => { s with status := 0 }

end

/-- The most rounds that a loop of a script may take. -/
def roundLimit : Nat := 20000

/-- Runs scripts within scripts so many levels deep. -/
def Runner.deep : Nat → Runner
  | 0 =>
      { run := fun _ _ s => { s with course := .left }
        expand := fun _ s f _ => (f, s)
        rounds := roundLimit }
  | depth + 1 =>
      { run := fun tested c s => Script.run (deep depth) tested c s
        expand := fun splits s f w => Script.expand (deep depth) splits s f w
        rounds := roundLimit }

/-- What a script writes on its two streams. -/
def written (feed : Feed) (script : String) (arguments : List String) : Bytes × Bytes :=
  let c : Console := ⟨⟨Tree.empty, Tree.root⟩, feed, .keep {}, .keep {}⟩
  let c := State.console c
    (native (.deep 8) (.ofConsole c []) "sh" (("sh" :: "-c" :: script :: arguments).map Bytes.ofText))
  (c.out.kept?.getD [], c.err.kept?.getD [])

example : written {} "for a in \"$@\"; do printf '[%s]' \"$a\"; done" ["me", "b c", "d"] =
    (Bytes.ofText "[b c][d]", []) := by
  decide +kernel

example : written (Feed.ofText "p q  r \nz") "read a b; echo \"<$b>\" >&2; none || echo $?" [] =
    (Bytes.ofText "127\n", Bytes.ofText "<q  r>\nsh: 1: none: not found\n") := by
  decide +kernel

example : written (Feed.ofText "a\\\nb \\ c\n") "read a; echo $a" [] = (Bytes.ofText "ab c\n", []) := by
  decide +kernel

example : written {} "echo a\necho b; echo c (d\necho e" [] =
    (Bytes.ofText "a\n", Bytes.ofText "sh: 2: Syntax error: \"(\" unexpected\n") := by
  decide +kernel

example : written {} "echo a; echo b > f; echo c | cat >> f; cat < f" [] =
    (Bytes.ofText "a\n", Bytes.ofText "sh: 1: cat: not found\nsh: 1: cat: not found\n") := by
  decide +kernel

example :
    written {} "i=0; while [ $i -lt 3 ]; do i=$((i+1)); case $i in 2) continue;; esac; echo $i; done"
      [] = (Bytes.ofText "1\n3\n", []) := by
  decide +kernel

example : written {} "f() \x7b echo $1 >&2; return 3; \x7d; if ! f 'a  b' 2>&1; then echo $?; fi" [] =
    (Bytes.ofText "a b\n0\n", []) := by
  decide +kernel

end LineShell.Script
