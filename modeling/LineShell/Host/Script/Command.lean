import LineShell.Host.Script.Token

/-!
The commands of a script, read from its tokens. A script is read line by line, and what
cannot be read spoils the commands from the last end of a line on.
-/

namespace LineShell.Script

/-- A stream of a command sent somewhere else. -/
structure Redirection where
  stream : Nat
  direction : Direction
  target : Word
  deriving DecidableEq, Repr

/-- What a script runs. Some commands know their line, for their error lines. -/
inductive Command
  | nothing
  | simple (line : Nat) (words : List Word) (redirections : List Redirection)
  | sequence (first second : Command)
  /-- The second runs if the first succeeds. -/
  | both (first second : Command)
  /-- The second runs if the first fails. -/
  | either (first second : Command)
  | negated (c : Command)
  | pipe (first second : Command)
  /-- The command runs without input in a child that nobody waits for. -/
  | beside (c : Command)
  /-- The body runs in a child. -/
  | group (body : Command)
  | redirected (line : Nat) (body : Command) (redirections : List Redirection)
  | choice (test yes no : Command)
  /-- The body runs once for each field that the words come to. -/
  | each (name : String) (words : List Word) (body : Command)
  /-- The body runs as long as the test comes to this. -/
  | repeated (truth : Bool) (test body : Command)
  /-- The first arm runs that has a pattern for the word. -/
  | select (w : Word) (arms : Command)
  | arm (patterns : List Word) (body later : Command)
  | define (name : String) (body : Command)
  /-- The script cannot be read on from this line. -/
  | refused (line : Nat) (message : String)
  deriving Repr

/-- Only what a script is refused for. -/
def Command.refusal : Command → Command
  | .sequence _ later => later.refusal
  | .refused line message => .refused line message
  | _ => .nothing

/-- Why and on which line a script cannot be read on. -/
structure Refusal where
  line : Nat
  message : String
  deriving DecidableEq, Repr

/-- What is left of a script. -/
abbrev Source := List (Nat × Token)

/-- The word is this text and nothing that is quoted or filled in. -/
def isText (s : String) (w : Word) : Bool :=
  w == [.text (Bytes.ofText s) .plain]

def keywords : List String :=
  ["!", "\x7b", "\x7d", "case", "do", "done", "elif", "else", "esac", "fi", "for", "if", "in",
    "then", "until", "while"]

def keyword? (w : Word) : Option String :=
  keywords.find? (isText · w)

/-- How a script spells a token that does not belong where it stands. -/
def spelling : Token → String
  | .word w => ((keyword? w).map fun s => "\"" ++ s ++ "\"").getD "word"
  | .newline => "newline"
  | .finish => "end of file"
  | .redirect _ _ => "redirection"
  | .opening => "\"(\""
  | .closing => "\")\""
  | .bar => "\"|\""
  | .both => "\"&&\""
  | .either => "\"||\""
  | .beside => "\"&\""
  | .caseEnd => "\";;\""
  | .separator => "\";\""
  | .unended message => message

namespace Source

def skipBreaks : Source → Source
  | (_, .newline) :: r => skipBreaks r
  | r => r

/-- The next token does not belong here, where another may be expected. -/
def refuse (expected : Option String) : Source → Refusal
  | (line, .unended message) :: _ => ⟨line, message⟩
  | (line, t) :: _ =>
      ⟨line, spelling t ++ " unexpected" ++
        ((expected.map fun s => " (expecting \"" ++ s ++ "\")").getD "")⟩
  | [] => ⟨0, ""⟩

/-- Passes over a keyword that has to come next. -/
def expect (s : String) : Source → Except Refusal Source
  | (line, .word w) :: r => if isText s w then .ok r else .error (refuse (some s) ((line, .word w) :: r))
  | r => .error (refuse (some s) r)

def keyword? : Source → Option String
  | (_, .word w) :: _ => Script.keyword? w
  | _ => none

/-- The next token closes what another has opened. -/
def closes (r : Source) : Bool :=
  match r with
  | (_, .closing) :: _ | (_, .caseEnd) :: _ | (_, .finish) :: _ => true
  | r => (r.keyword?.map ["do", "done", "elif", "else", "esac", "fi", "then", "\x7d"].contains).getD
      false

end Source

/-- The words and redirections of a simple command, and what follows it. -/
def simpleParts : Source → Except Refusal ((List Word × List Redirection) × Source)
  | (_, .redirect stream direction) :: (_, .word w) :: r => do
      let ((words, redirections), rest) ← simpleParts r
      .ok ((words, ⟨stream, direction, w⟩ :: redirections), rest)
  | (_, .redirect _ _) :: r => .error (Source.refuse none r)
  | (_, .word w) :: r => do
      let ((words, redirections), rest) ← simpleParts r
      .ok ((w :: words, redirections), rest)
  | r => .ok (([], []), r)

/-- The words in front, and what follows them. -/
def wordsInFront : Source → List Word × Source
  | (_, .word w) :: r => let (words, rest) := wordsInFront r; (w :: words, rest)
  | r => ([], r)

/-- A compound command with the redirections that follow it. -/
def withRedirections (body : Command) (r : Source) : Except Refusal (Command × Source) :=
  match r with
  | (line, .redirect _ _) :: _ => do
      match ← simpleParts r with
      | (([], redirections), rest) => .ok (.redirected line body redirections, rest)
      | _ => .error (Source.refuse none (r.drop 2))
  | r => .ok (body, r)

/-- A name that a variable or a function can have. -/
def nameOf? : Word → Option String
  | [.text b .plain] =>
      match b.chars with
      | c :: cs => if nameStart c && cs.all nameRest then some b.textOrEmpty else none
      | [] => none
  | _ => none

/-- The words that a loop goes over, and what follows them. -/
def loopWords (r : Source) : Except Refusal (List Word × Source) :=
  match Source.skipBreaks r with
  | (line, .word w) :: rest =>
      if isText "in" w then
        match wordsInFront rest with
        | (words, (_, .newline) :: r) | (words, (_, .separator) :: r) => .ok (words, r)
        | (_, r) => .error (Source.refuse none r)
      else .ok ([[.parameter .each true]], (line, .word w) :: rest)
  | (_, .separator) :: r => .ok ([[.parameter .each true]], r)
  | r => .ok ([[.parameter .each true]], r)

/-- The patterns up to the parenthesis behind them, and what follows it. -/
def armPatterns : Source → Except Refusal (List Word × Source)
  | (_, .word w) :: (_, .bar) :: r => do
      let (ws, rest) ← armPatterns r
      .ok (w :: ws, rest)
  | (_, .word w) :: (_, .closing) :: r => .ok ([w], r)
  | (_, .word _) :: r => .error (Source.refuse (some ")") r)
  | r => .error (Source.refuse (some ")") r)

mutual

/-- The commands up to the end of a line. The fuel of all readers bounds the tokens read. -/
def readLine : Nat → Source → Except Refusal (Command × Source)
  | 0, r => .error (Source.refuse none r)
  | _, (_, .newline) :: r => .ok (.nothing, r)
  | _, (line, .finish) :: r => .ok (.nothing, (line, .finish) :: r)
  | fuel + 1, r => do
      let (c, r) ← readChain fuel r
      match r with
      | (_, .separator) :: r =>
          let (later, r) ← readLine fuel r
          .ok (.sequence c later, r)
      | (_, .beside) :: r =>
          let (later, r) ← readLine fuel r
          .ok (.sequence (.beside c) later, r)
      | (_, .newline) :: r => .ok (c, r)
      | (line, .finish) :: r => .ok (c, (line, .finish) :: r)
      | r => .error (Source.refuse none r)

/-- The commands up to the token that closes them. There may be none only after others. -/
def readList : Nat → Bool → Source → Except Refusal (Command × Source)
  | 0, _, r => .error (Source.refuse none r)
  | fuel + 1, started, r =>
      match Source.skipBreaks r with
      | (line, .finish) :: r => .ok (.nothing, (line, .finish) :: r)
      | r =>
          if started ∧ r.closes then .ok (.nothing, r)
          else do
            let (c, r) ← readChain fuel r
            match r with
            | (_, .separator) :: r =>
                let (later, r) ← readList fuel true r
                .ok (.sequence c later, r)
            | (_, .beside) :: r =>
                let (later, r) ← readList fuel true r
                .ok (.sequence (.beside c) later, r)
            | (_, .newline) :: r =>
                let (later, r) ← readList fuel true r
                .ok (.sequence c later, r)
            | r => .ok (c, r)

/-- Commands that are joined by conditions. -/
def readChain : Nat → Source → Except Refusal (Command × Source)
  | 0, r => .error (Source.refuse none r)
  | fuel + 1, r => do
      let (first, r) ← readPipe fuel r
      readJoined fuel first r

/-- The commands that are joined to the first by conditions. -/
def readJoined : Nat → Command → Source → Except Refusal (Command × Source)
  | fuel + 1, first, (_, .both) :: r => do
      let (second, r) ← readPipe fuel (Source.skipBreaks r)
      readJoined fuel (.both first second) r
  | fuel + 1, first, (_, .either) :: r => do
      let (second, r) ← readPipe fuel (Source.skipBreaks r)
      readJoined fuel (.either first second) r
  | _, first, r => .ok (first, r)

/-- A row of commands, perhaps negated, each reading what the one before it writes. -/
def readPipe : Nat → Source → Except Refusal (Command × Source)
  | 0, r => .error (Source.refuse none r)
  | fuel + 1, r => do
      let negated := r.keyword? = some "!"
      let (c, r) ← readStages fuel (if negated then r.drop 1 else r)
      .ok (if negated then .negated c else c, r)

def readStages : Nat → Source → Except Refusal (Command × Source)
  | 0, r => .error (Source.refuse none r)
  | fuel + 1, r => do
      let (first, r) ← readCommand fuel r
      match r with
      | (_, .bar) :: r =>
          let (second, r) ← readStages fuel (Source.skipBreaks r)
          .ok (.pipe first second, r)
      | r => .ok (first, r)

/-- A compound command, a function or a simple command. -/
def readCommand : Nat → Source → Except Refusal (Command × Source)
  | 0, r => .error (Source.refuse none r)
  | fuel + 1, r => do
      match r, r.keyword? with
      | (_, .opening) :: r, _ =>
          match ← readList fuel false r with
          | (body, (_, .closing) :: r) => withRedirections (.group body) r
          | (_, r) => .error (Source.refuse (some ")") r)
      | _ :: rest, some "\x7b" =>
          let (body, r) ← readList fuel false rest
          withRedirections body (← Source.expect "\x7d" r)
      | _ :: rest, some "if" =>
          let (c, r) ← readChoice fuel rest
          withRedirections c r
      | _ :: rest, some "while" => readLoop fuel (.repeated true) rest
      | _ :: rest, some "until" => readLoop fuel (.repeated false) rest
      | _ :: rest, some "for" =>
          match rest with
          | (line, .word v) :: r =>
              match nameOf? v with
              | some name =>
                  let (words, r) ← loopWords r
                  let r ← Source.expect "do" (Source.skipBreaks r)
                  let (body, r) ← readList fuel false r
                  withRedirections (.each name words body) (← Source.expect "done" r)
              | none => .error ⟨line, "Bad for loop variable"⟩
          | (line, _) :: _ => .error ⟨line, "Bad for loop variable"⟩
          | [] => .error (Source.refuse none rest)
      | _ :: rest, some "case" =>
          match rest with
          | (_, .word w) :: r =>
              let r ← Source.expect "in" (Source.skipBreaks r)
              let (arms, r) ← readArms fuel r
              withRedirections (.select w arms) r
          | r => .error (Source.refuse (some "word") r)
      | r, some _ => .error (Source.refuse none r)
      | (line, .word w) :: (_, .opening) :: rest, none =>
          match rest, nameOf? w with
          | (_, .closing) :: r, some name =>
              let (body, r) ← readCommand fuel (Source.skipBreaks r)
              .ok (.define name body, r)
          | (_, .closing) :: _, none => .error ⟨line, "Bad function name"⟩
          | r, _ => .error (Source.refuse (some ")") r)
      | (line, .word w) :: rest, none =>
          let ((words, redirections), r) ← simpleParts ((line, .word w) :: rest)
          .ok (.simple line words redirections, r)
      | (line, .redirect stream direction) :: rest, none =>
          let ((words, redirections), r) ← simpleParts ((line, .redirect stream direction) :: rest)
          .ok (.simple line words redirections, r)
      | r, none => .error (Source.refuse none r)

/-- A loop after its first word. -/
def readLoop : Nat → (Command → Command → Command) → Source → Except Refusal (Command × Source)
  | 0, _, r => .error (Source.refuse none r)
  | fuel + 1, loop, r => do
      let (test, r) ← readList fuel false r
      let r ← Source.expect "do" r
      let (body, r) ← readList fuel false r
      withRedirections (loop test body) (← Source.expect "done" r)

/-- A choice after its first word, up to its last. -/
def readChoice : Nat → Source → Except Refusal (Command × Source)
  | 0, r => .error (Source.refuse none r)
  | fuel + 1, r => do
      let (test, r) ← readList fuel false r
      let r ← Source.expect "then" r
      let (yes, r) ← readList fuel false r
      match r.keyword? with
      | some "elif" =>
          let (no, r) ← readChoice fuel (r.drop 1)
          .ok (.choice test yes no, r)
      | some "else" =>
          let (no, r) ← readList fuel false (r.drop 1)
          .ok (.choice test yes no, ← Source.expect "fi" r)
      | _ => .ok (.choice test yes .nothing, ← Source.expect "fi" r)

/-- The arms of a choice among patterns, up to its last word. -/
def readArms : Nat → Source → Except Refusal (Command × Source)
  | 0, r => .error (Source.refuse none r)
  | fuel + 1, r => do
      let r := Source.skipBreaks r
      if r.keyword? = some "esac" then .ok (.nothing, r.drop 1)
      else
        let (patterns, r) ← armPatterns (match r with | (_, .opening) :: r => r | r => r)
        let (body, r) ← readList fuel true r
        match Source.skipBreaks r with
        | (_, .caseEnd) :: r =>
            let (later, r) ← readArms fuel r
            .ok (.arm patterns body later, r)
        | r =>
            if r.keyword? = some "esac" then .ok (.arm patterns body .nothing, r.drop 1)
            else .error (Source.refuse (some ";;") r)

end

/-- The command that tokens spell, read line by line. The fuel bounds the lines. -/
def readLines : Nat → Source → Command
  | 0, _ => .nothing
  | _, [] | _, [(_, .finish)] => .nothing
  | fuel + 1, r =>
      match readLine (8 * r.length + 8) r with
      | .ok (c, r) => .sequence c (readLines fuel r)
      | .error refusal => .refused refusal.line refusal.message

/-- The command that a whole script spells. -/
def commandOf (script : List Char) : Command :=
  let tokens := tokensOf script
  readLines tokens.length tokens

end LineShell.Script
