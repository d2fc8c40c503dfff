import CallScript.Main
import CallScript.Reference
import CallScript.Pattern.Cache
import CallScript.Proofs.DepthLimit
import CallScript.Proofs.Optimizer.Transparency
import CallScript.Proofs.Engine.Transcript
import CallScript.Proofs.Optimizer.Settled
import CallScript.Proofs.Optimizer.Safety
import CallScript.Proofs.Run.Effects
import CallScript.Proofs.Optimizer.Effects
import CallScript.Proofs.Pattern.Lockstep
import CallScript.Proofs.Pattern.Restart
import CallScript.Proofs.Pattern.Touching
import CallScript.Proofs.Function.Matches
import CallScript.Proofs.Node.Productions
import CallScript.Proofs.Token.Writing
import CallScript.Proofs.Node.Printing
import CallScript.Proofs.Optimizer.Validation
import CallScript.Proofs.Node.Places
import CallScript.Proofs.Optimizer.Places
import CallScript.Proofs.Run.Visits
import CallScript.Proofs.Run.Parting
import CallScript.Proofs.Engine.Stored
import CallScript.Proofs.Optimizer.Formats
import CallScript.Proofs.Function.Moves
import CallScript.Proofs.Optimizer.Moves
import CallScript.Proofs.Run.Moves
import CallScript.Proofs.Engine.Moves
import CallScript.Proofs.Engine.Layout
import CallScript.Proofs.Engine.Pointing
import CallScript.Proofs.Engine.Printed
import CallScript.Proofs.Pattern.Occurrences
import CallScript.Proofs.Function.Interchange
import CallScript.Proofs.Engine.Sharing
import CallScript.Proofs.Text.Leftmost
import CallScript.Proofs.Value.Entries
import CallScript.Proofs.Function.Listing
import CallScript.Proofs.Pattern.Escaped
import CallScript.Proofs.Function.Pieces
import CallScript.Proofs.Function.Escaped
import CallScript.Proofs.Function.Joining
import CallScript.Proofs.Function.References
import CallScript.Proofs.Function.Mirrors
import CallScript.Proofs.Function.Addresses
import CallScript.Proofs.Value.Writes
import CallScript.Proofs.Token.Layout
import CallScript.Proofs.Token.Refusal
import CallScript.Proofs.Engine.Slices
import CallScript.Proofs.Function.Declared
import CallScript.Proofs.Optimizer.Renaming
import CallScript.Proofs.Pattern.Cache
import CallScript.Proofs.Registry.Builders
import CallScript.Proofs.Reference.Markdown
import CallScript.Proofs.Optimizer.Passes
