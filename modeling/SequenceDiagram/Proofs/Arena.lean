import Mathlib.Algebra.Group.Nat.Defs
import Mathlib.Data.List.Nodup
import SequenceDiagram.Proofs.Ownership
import SequenceDiagram.Proofs.Planting

set_option autoImplicit false

namespace SequenceDiagram

def NodeId.count : Nat := 2 ^ 32

theorem NodeId.offset_inj {first : UInt32} {i j : Nat} (hi : i < NodeId.count)
    (hj : j < NodeId.count) (h : NodeId.offset first i = NodeId.offset first j) : i = j := by
  have words : first + UInt32.ofNat i = first + UInt32.ofNat j := congrArg NodeId.number h
  have same : UInt32.ofNat i = UInt32.ofNat j := by
    have less := congrArg (fun word => word - first) words
    simpa [UInt32.add_comm first] using less
  have numbers := congrArg UInt32.toNat same
  simp only [UInt32.toNat_ofNat'] at numbers
  unfold NodeId.count at hi hj
  rwa [Nat.mod_eq_of_lt hi, Nat.mod_eq_of_lt hj] at numbers

namespace Fragment

theorem allEntries_addEntry (f : Fragment) (id : NodeId) :
    (f.addEntry id).allEntries = f.allEntries ++ [id] := by
  have last (clauses : List ElseClause) (h : clauses ≠ []) :
      (ElseClause.addEntry id clauses).flatMap ElseClause.entries =
        clauses.flatMap ElseClause.entries ++ [id] := by
    induction clauses with
    | nil => contradiction
    | cons clause clauses ih =>
      cases clauses with
      | nil => simp [ElseClause.addEntry]
      | cons clause' clauses => simp [ElseClause.addEntry, ih]
  unfold addEntry
  split
  · rename_i none
    simp [allEntries, none]
  · rename_i some
    simp [allEntries, last f.elseClauses some]

theorem allEntries_addClause (f : Fragment) {clause : ElseClause} (empty : clause.entries = []) :
    (f.addClause clause).allEntries = f.allEntries := by
  simp [addClause, allEntries, empty]

end Fragment

namespace Grove

variable (first : UInt32)

theorem allEntries_addSlots (f : Fragment) (slots : List Nat) :
    (addSlots first f slots).allEntries = f.allEntries ++ slots.map (NodeId.offset first) := by
  induction slots generalizing f with
  | nil => simp [addSlots]
  | cons slot slots ih =>
    rw [addSlots, List.foldl_cons, ← addSlots, ih, Fragment.allEntries_addEntry]
    simp

theorem allEntries_fillFragment {place : Place} {row : Grove} (h : row.Proper place)
    (f : Fragment) (slot : Nat) :
    (fillFragment first f slot row).allEntries =
      f.allEntries ++ (rowSlots slot row).map (NodeId.offset first) := by
  induction row generalizing f slot with
  | nil => simp [fillFragment, rowSlots]
  | tree seed body next _ ih =>
    rw [fillFragment, ih h.2, allEntries_addSlots]
    simp [rowSlots]
  | mark clause next ih =>
    rw [fillFragment, ih h.2.2, Fragment.allEntries_addClause f h.2.1, rowSlots]

theorem nestedGroups_fillGroup (g : ParticipantGroup) (slot : Nat) (row : Grove) :
    (fillGroup first g slot row).nestedGroups =
      g.nestedGroups ++ (nestedSlots slot row).map (NodeId.offset first) := by
  induction row generalizing g slot with
  | nil => simp [fillGroup, nestedSlots]
  | tree seed body next _ ih =>
    obtain ⟨element, lineStart, lineEnd⟩ := seed
    rw [fillGroup, ih]
    cases element <;> simp [addMember, nestedSlots]
  | mark clause next ih => rw [fillGroup, ih, nestedSlots]

/-- A container names the slots that it holds, in order. -/
theorem children_fill {place : Place} {seed : Seed} {body next : Grove}
    (h : Proper place (.tree seed body next)) (slot : Nat) :
    (fill first seed.element slot body).children =
      (childSlots seed.element slot body).map (NodeId.offset first) := by
  obtain ⟨element, lineStart, lineEnd⟩ := seed
  obtain ⟨head, -⟩ := h
  cases element with
  | fragment f =>
    obtain ⟨-, ⟨entries, clauses⟩, proper⟩ := head
    have all := allEntries_fillFragment first proper f slot
    simpa [fill, Element.children, childSlots, Fragment.allEntries, entries, clauses] using all
  | group g =>
    obtain ⟨⟨-, nested⟩, -⟩ := head
    have all := nestedGroups_fillGroup first g slot body
    simpa [fill, Element.children, childSlots, nested] using all
  | _ => rfl

def numbered (slot : Nat) (grove : Grove) : List (Node × Nat) :=
  (plant first slot grove).zipIdx slot

theorem numbered_tree (slot : Nat) (seed : Seed) (body next : Grove) :
    numbered first slot (.tree seed body next) =
      (⟨NodeId.offset first slot, seed.lineStart, seed.lineEnd,
        fill first seed.element (slot + 1) body⟩, slot) ::
        (numbered first (slot + 1) body ++ numbered first (slot + 1 + body.size) next) := by
  simp [numbered, plant, List.zipIdx_append, length_plant]

theorem id_of_mem_numbered {slot : Nat} {grove : Grove} {entry : Node × Nat}
    (h : entry ∈ numbered first slot grove) : entry.1.id = NodeId.offset first entry.2 := by
  induction grove generalizing slot with
  | nil => simp [numbered, plant] at h
  | tree seed body next ihb ihn =>
    rw [numbered_tree, List.mem_cons, List.mem_append] at h
    rcases h with rfl | h | h
    · rfl
    · exact ihb h
    · exact ihn h
  | mark clause next ih => exact ih h

theorem exists_mem_numbered {slot j : Nat} {grove : Grove} (lower : slot ≤ j)
    (upper : j < slot + grove.size) : ∃ node, (node, j) ∈ numbered first slot grove := by
  have length : j - slot < (plant first slot grove).length := by
    rw [length_plant]
    omega
  refine ⟨(plant first slot grove)[j - slot], ?_⟩
  rw [numbered, List.mem_zipIdx_iff_le_and_getElem?_sub]
  exact ⟨lower, List.getElem?_eq_getElem length⟩

theorem lines_of_mem_numbered {low high slot : Nat} {grove : Grove} (h : Spans low high grove)
    {entry : Node × Nat} (mem : entry ∈ numbered first slot grove) :
    low ≤ entry.1.lineStart ∧ entry.1.lineEnd ≤ high := by
  induction grove generalizing low high slot with
  | nil => simp [numbered, plant] at mem
  | tree seed body next ihb ihn =>
    obtain ⟨⟨start, -⟩, inside, behind⟩ := h
    have nonempty := inside.le
    have later := behind.le
    rw [numbered_tree, List.mem_cons, List.mem_append] at mem
    rcases mem with rfl | mem | mem
    · exact ⟨start, later⟩
    · have bounds := ihb inside mem
      omega
    · have bounds := ihn behind mem
      omega
  | mark clause next ih => exact ih h mem

theorem exists_proper_body {place : Place} {seed : Seed} {body next : Grove}
    (h : Proper place (.tree seed body next)) : ∃ place', Proper place' body := by
  obtain ⟨element, lineStart, lineEnd⟩ := seed
  obtain ⟨head, -⟩ := h
  have leaf (empty : body = .nil) : ∃ place', Proper place' body := ⟨.top, empty ▸ trivial⟩
  cases element with
  | fragment f => exact ⟨.fragment, head.2.2⟩
  | group g => exact ⟨.group, head.2⟩
  | participant p => exact leaf head
  | error fault => exact leaf head
  | _ => exact leaf head.2

/-- What a container names stands behind it, and within its lines. -/
theorem children_of_mem_numbered {place : Place} {low high slot : Nat} {grove : Grove}
    (proper : grove.Proper place) (spans : grove.Spans low high) {node : Node} {i : Nat}
    (mem : (node, i) ∈ numbered first slot grove) :
    ∃ slots, node.element.children = slots.map (NodeId.offset first) ∧
      Ascends (i + 1) (slot + grove.size) slots ∧
      ∀ j ∈ slots, ∃ child, (child, j) ∈ numbered first slot grove ∧
        node.lineStart ≤ child.lineStart ∧ child.lineEnd ≤ node.lineEnd := by
  induction grove generalizing place low high slot with
  | nil => simp [numbered, plant] at mem
  | tree seed body next ihb ihn =>
    have named := children_fill first proper (slot + 1)
    obtain ⟨-, inside, behind⟩ := spans
    rw [numbered_tree] at mem ⊢
    rw [Forest.size]
    rcases List.mem_cons.1 mem with same | mem
    · obtain ⟨rfl, rfl⟩ := Prod.mk.inj same
      have ascends := ascends_childSlots seed.element (i + 1) body
      refine ⟨_, named, ascends.mono (by omega) (by omega), fun j hj => ?_⟩
      obtain ⟨lower, upper⟩ := ascends.bounds j hj
      obtain ⟨child, found⟩ := exists_mem_numbered first lower upper
      refine ⟨child, by simp [found], ?_⟩
      exact lines_of_mem_numbered first inside found
    · rcases List.mem_append.1 mem with mem | mem
      · obtain ⟨place', proper'⟩ := exists_proper_body proper
        obtain ⟨slots, children, ascends, found⟩ := ihb proper' inside mem
        refine ⟨slots, children, ascends.mono (by omega) (by omega), fun j hj => ?_⟩
        obtain ⟨child, mem', lines⟩ := found j hj
        exact ⟨child, by simp [mem'], lines⟩
      · obtain ⟨slots, children, ascends, found⟩ := ihn proper.2 behind mem
        refine ⟨slots, children, ascends.mono (by omega) (by omega), fun j hj => ?_⟩
        obtain ⟨child, mem', lines⟩ := found j hj
        exact ⟨child, by simp [mem'], lines⟩
  | mark clause next ih =>
    obtain ⟨-, -, proper'⟩ := proper
    exact ih proper' spans mem

end Grove

namespace Document

/-- The nodes of a document that is read are numbered in order. -/
theorem id_of_getElem?_readFrom (first : UInt32) (text : String) {i : Nat} {node : Node}
    (h : (readFrom first text).nodes[i]? = some node) : node.id = NodeId.offset first i := by
  obtain ⟨grove, -, -, -, planted⟩ := readFrom_eq_plant first text
  rw [planted] at h
  refine @Grove.id_of_mem_numbered first 0 grove (node, i) ?_
  rwa [Grove.numbered, List.mk_mem_zipIdx_iff_getElem?]

theorem index_eq_of_id (first : UInt32) (text : String)
    (fits : (readFrom first text).nodes.length ≤ 2 ^ 32) {i j : Nat} {p q : Node}
    (hi : (readFrom first text).nodes[i]? = some p) (hj : (readFrom first text).nodes[j]? = some q)
    (same : p.id = q.id) : i = j := by
  have bound := (List.getElem?_eq_some_iff.1 hi).1
  have bound' := (List.getElem?_eq_some_iff.1 hj).1
  rw [id_of_getElem?_readFrom first text hi, id_of_getElem?_readFrom first text hj] at same
  exact NodeId.offset_inj (Nat.lt_of_lt_of_le bound fits) (Nat.lt_of_lt_of_le bound' fits) same

theorem nodup_nodes_readFrom (first : UInt32) (text : String)
    (fits : (readFrom first text).nodes.length ≤ 2 ^ 32) : (readFrom first text).nodes.Nodup := by
  refine List.nodup_iff_getElem?_ne_getElem?.2 fun i j less bound same => ?_
  have found := List.getElem?_eq_getElem bound
  exact absurd (index_eq_of_id first text fits (same.trans found) found rfl) (Nat.ne_of_lt less)

end Document

end SequenceDiagram
