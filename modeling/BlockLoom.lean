import BlockLoom.Main
import BlockLoom.CommandLine.Run
import BlockLoom.Proofs.CommandLine.Omission
import BlockLoom.Proofs.CommandLine.Overrides
import BlockLoom.Proofs.CommandLine.Precedence
import BlockLoom.Proofs.CommandLine.Separation
import BlockLoom.Proofs.Component.Declaration
import BlockLoom.Proofs.Component.FirstDefect
import BlockLoom.Proofs.Component.Remainder
import BlockLoom.Proofs.Component.Rendered
import BlockLoom.Proofs.Component.State
import BlockLoom.Proofs.Component.Writes
import BlockLoom.Proofs.Content.Bindings
import BlockLoom.Proofs.Content.Census
import BlockLoom.Proofs.Content.Codec
import BlockLoom.Proofs.Content.GroupRoundTrip
import BlockLoom.Proofs.Content.Handlers
import BlockLoom.Proofs.Content.Ignored
import BlockLoom.Proofs.Content.Inputs
import BlockLoom.Proofs.Content.Kind
import BlockLoom.Proofs.Content.Literals
import BlockLoom.Proofs.Content.Loops
import BlockLoom.Proofs.Content.Partition
import BlockLoom.Proofs.Content.Presentation
import BlockLoom.Proofs.Content.Reported
import BlockLoom.Proofs.Content.RoundTrip
import BlockLoom.Proofs.Content.Stability
import BlockLoom.Proofs.Content.StyleFields
import BlockLoom.Proofs.Format.Chain
import BlockLoom.Proofs.Format.Detection
import BlockLoom.Proofs.Format.Tree
import BlockLoom.Proofs.Script.StringLiteral
import BlockLoom.Proofs.Settings.Steps
import BlockLoom.Proofs.Style.LastWins
import BlockLoom.Proofs.Style.Literal
import BlockLoom.Proofs.Style.RoundTrip
