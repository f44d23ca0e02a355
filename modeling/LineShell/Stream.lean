import LineShell.Channel
import LineShell.Feed
import LineShell.Files.Access

/-!
Where the input of commands comes from and where their output goes.
-/

namespace LineShell

/-- The far end of an output stream. -/
inductive Sink
  /-- Everything written is kept, up to something without end: after that nobody reads. -/
  | keep (kept : Feed)
  /-- Everything written is lost. -/
  | discard
  /-- Nobody reads: a program that writes here is stopped. -/
  | broken
  /-- The stream cannot be written to. -/
  | refuse
  /-- An open file, written at its end or at the place reached so far. -/
  | file (id : NodeId) (append : Bool) (offset : Nat)
  deriving DecidableEq, Repr

namespace Sink

/-- Writing without end has gone before. -/
def flooded : Sink → Bool
  | .keep kept => kept.cycle ≠ []
  | _ => false

def write (s : Sink) (w : World) (b : Bytes) : Sink × World :=
  match s with
  | .keep kept => (if s.flooded then s else .keep { kept with head := kept.head ++ b }, w)
  | .discard => (.discard, w)
  | .broken => (.broken, w)
  | .refuse => (.refuse, w)
  | .file id true offset => (.file id true offset, w.appendTo id b)
  | .file id false offset => (.file id false (offset + b.length), w.writeAt id offset b)

/-- What a reader of the kept bytes finds. -/
def feed : Sink → Feed
  | .keep kept => kept
  | _ => {}

/-- The file that a sink writes to. -/
def target? : Sink → Option NodeId
  | .file id _ _ => some id
  | _ => none

end Sink

/-- The streams of a command and the files its writing may change. -/
structure Console where
  world : World
  input : Feed
  out : Sink
  err : Sink
  deriving DecidableEq, Repr

namespace Console

def sink (c : Console) : Channel → Sink
  | .out => c.out
  | .err => c.err

def write (c : Console) (channel : Channel) (b : Bytes) : Console :=
  match channel with
  | .out => let (out, world) := c.out.write c.world b; { c with out := out, world := world }
  | .err => let (err, world) := c.err.write c.world b; { c with err := err, world := world }

def print (c : Console) (channel : Channel) (s : String) : Console :=
  c.write channel (Bytes.ofText s)

/-- The files that are open for writing. -/
def targets (c : Console) : List NodeId :=
  c.out.target?.toList ++ c.err.target?.toList

end Console

end LineShell
