import LineShell.Completion
import LineShell.Main
import LineShell.Proofs.Line.Spelling
import LineShell.Proofs.Pipeline.Dataflow
import LineShell.Proofs.Pipeline.Determinacy
import LineShell.Proofs.Pipeline.Progress
import LineShell.Proofs.Pipeline.Refusal
import LineShell.Proofs.Pipeline.System
import LineShell.Proofs.Pipeline.Starting
import LineShell.Proofs.History.Checkpoint
import LineShell.Proofs.History.Growth
import LineShell.Proofs.Files.ReadBack
import LineShell.Proofs.History.RoundTrip
import LineShell.Proofs.History.Preservation
import LineShell.Proofs.Completion.Candidates
import LineShell.Proofs.Line.Quotation
import LineShell.Proofs.Completion.Row
import LineShell.Proofs.Files.Listing
import LineShell.Proofs.Command.Meaning
import LineShell.Proofs.Command.Lookup
import LineShell.Proofs.Session.Course
import LineShell.Proofs.Session.Conversation
import LineShell.Proofs.Pipeline.Ownership
import LineShell.Proofs.Line.Keeping
import LineShell.Proofs.Line.Trimming
import LineShell.Proofs.Completion.Naming
import LineShell.Proofs.Files.Shape
import LineShell.Proofs.Line.Phrase
import LineShell.Proofs.Files.Opening
import LineShell.Proofs.Session.Redirection
import LineShell.Proofs.Line.Arrangement
import LineShell.Proofs.Session.Leaving
import LineShell.Proofs.Files.Rewriting
import LineShell.Proofs.Builtin.Effects
import LineShell.Proofs.Pipeline.Abandonment
import LineShell.Proofs.Completion.Convergence
import LineShell.Proofs.History.Listing
import LineShell.Proofs.History.Saving
import LineShell.Proofs.Line.Segmentation
import LineShell.Proofs.Text.Narrowing
import LineShell.Proofs.Session.Execution
