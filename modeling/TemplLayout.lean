import TemplLayout.Main
import TemplLayout.Sink
import TemplLayout.Proofs.Document.Format
import TemplLayout.Proofs.Document.Grammar
import TemplLayout.Proofs.Document.Spacing
import TemplLayout.Proofs.Markup.Derivation
import TemplLayout.Proofs.Segment.Row
import TemplLayout.Proofs.Markup.RoundTrip
import TemplLayout.Proofs.Document.Arrangement
import TemplLayout.Proofs.Workspace.Path
import TemplLayout.Proofs.Workspace.Settled
import TemplLayout.Proofs.Workspace.Run
import TemplLayout.Proofs.Workspace.FixedPoint
import TemplLayout.Proofs.Workspace.Modes
import TemplLayout.Proofs.Markup.Closing
import TemplLayout.Proofs.Document.Warnings
import TemplLayout.Proofs.Document.Definite
import TemplLayout.Proofs.Markup.Leaf
import TemplLayout.Proofs.Markup.Front
import TemplLayout.Proofs.Document.FirstFault
import TemplLayout.Proofs.Document.Positions
import TemplLayout.Proofs.Document.Comments
import TemplLayout.Proofs.Document.Tags
import TemplLayout.Proofs.Text.LineIndex
import TemplLayout.Proofs.Document.BlankLines
import TemplLayout.Proofs.Document.Proper
import TemplLayout.Proofs.Document.Indentation
import TemplLayout.Proofs.Document.Delivery
import TemplLayout.Proofs.Markup.TagRoundTrip
import TemplLayout.Proofs.Document.Signature
