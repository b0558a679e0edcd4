import SequenceDiagram.Diagram.Edit
import SequenceDiagram.Diagram.Meaning
import SequenceDiagram.Diagram.StyleSheet
import SequenceDiagram.Main
import SequenceDiagram.Proofs.Fixpoint
import SequenceDiagram.Proofs.Mending
import SequenceDiagram.Proofs.Slots
import SequenceDiagram.Proofs.Activations
import SequenceDiagram.Proofs.Holding
import SequenceDiagram.Proofs.Unfolding
import SequenceDiagram.Proofs.Placing
import SequenceDiagram.Proofs.Roster
import SequenceDiagram.Proofs.Visible
import SequenceDiagram.Proofs.Shown
import SequenceDiagram.Proofs.Headway
import SequenceDiagram.Proofs.Deepest
import SequenceDiagram.Proofs.Bounds
import SequenceDiagram.Proofs.Enclosure
import SequenceDiagram.Proofs.Nesting
import SequenceDiagram.Proofs.Replies
import SequenceDiagram.Proofs.Walks
import SequenceDiagram.Proofs.Turning
import SequenceDiagram.Proofs.Parting
import SequenceDiagram.Proofs.Collapsing
import SequenceDiagram.Proofs.Endings
import SequenceDiagram.Proofs.Written
import SequenceDiagram.Proofs.Vanishing
import SequenceDiagram.Proofs.Renaming
import SequenceDiagram.Proofs.Renumbering
import SequenceDiagram.Proofs.Endpoints
import SequenceDiagram.Proofs.Ledger
import SequenceDiagram.Proofs.Numbering
import SequenceDiagram.Proofs.Lifelines
import SequenceDiagram.Proofs.WellFormed
import SequenceDiagram.Proofs.Offences
import SequenceDiagram.Proofs.Modes
import SequenceDiagram.Proofs.Cascade
import SequenceDiagram.Proofs.Arguments
import SequenceDiagram.Proofs.Splitting
