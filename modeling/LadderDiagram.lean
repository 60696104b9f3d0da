import LadderDiagram.Export.Log
import LadderDiagram.Main
import LadderDiagram.Proofs.Chain
import LadderDiagram.Proofs.Citation
import LadderDiagram.Proofs.Element
import LadderDiagram.Proofs.Lowering
import LadderDiagram.Proofs.Pass
import LadderDiagram.Proofs.Reference
import LadderDiagram.Proofs.Failure
import LadderDiagram.Proofs.Isolation
import LadderDiagram.Proofs.Account
import LadderDiagram.Proofs.Identity
import LadderDiagram.Proofs.PowerFlow
import LadderDiagram.Proofs.OutputPin
import LadderDiagram.Proofs.SeriesParallel.Network
import LadderDiagram.Proofs.SeriesParallel.Wiring
import LadderDiagram.Proofs.SeriesParallel.Tracing
import LadderDiagram.Proofs.SeriesParallel.Pairing
import LadderDiagram.Proofs.SeriesParallel.Lowering
import LadderDiagram.Proofs.Wires
import LadderDiagram.Proofs.SharedRails
import LadderDiagram.Proofs.Switches
import LadderDiagram.Proofs.Markup.Reader
import LadderDiagram.Proofs.Markup.Transcript
import LadderDiagram.Proofs.Markup.RoundTrip
import LadderDiagram.Proofs.Renaming.Report
import LadderDiagram.Proofs.EdgeOrder
import LadderDiagram.Proofs.Batch
import LadderDiagram.Proofs.Snapshot.RoundTrip
import LadderDiagram.Proofs.Branch
import LadderDiagram.Proofs.Backward
import LadderDiagram.Proofs.Markup.Consumer
import LadderDiagram.Proofs.Dump.RoundTrip
import LadderDiagram.Proofs.Defect
import LadderDiagram.Proofs.Route
import LadderDiagram.Proofs.Operand
import LadderDiagram.Proofs.Band
import LadderDiagram.Proofs.Repetition
import LadderDiagram.Proofs.Scan
import LadderDiagram.Proofs.Ending
import LadderDiagram.Proofs.Stacking
