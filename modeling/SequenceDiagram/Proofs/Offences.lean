import Mathlib.Data.List.Induction
import SequenceDiagram.Proofs.Lineage

set_option autoImplicit false

namespace SequenceDiagram

namespace Document

variable {document : Document} {before : List (NodeId × NodeId)} {owner child : NodeId}

/-- A child that one container lists twice has that container as both owners. -/
example :
    let group : ParticipantGroup :=
      { color := none, label := "", participants := [], nestedGroups := [⟨1⟩, ⟨1⟩] }
    (Document.mk [⟨⟨0⟩, 1, 2, .group group⟩, ⟨⟨1⟩, 1, 1, .blankLine⟩]).validate =
      .error (.multipleOwners ⟨1⟩ ⟨0⟩ ⟨0⟩) := by
  rfl

end Document

end SequenceDiagram
