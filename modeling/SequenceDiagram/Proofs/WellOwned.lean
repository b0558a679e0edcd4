import SequenceDiagram.Proofs.Blocks

set_option autoImplicit false

namespace SequenceDiagram

namespace Document

/-- Identifiers follow arena positions, and no two nodes share one. -/
structure IsNumbered (first : UInt32) (document : Document) : Prop where
  ids : ∀ i node, document.nodes[i]? = some node → node.id = NodeId.offset first i
  fits : document.nodes.length ≤ NodeId.count

theorem findIdx?_reverse {nodes : List Node} {test : Node → Bool} {i : Nat}
    (h : i < nodes.length) (hit : test nodes[i] = true)
    (last : ∀ j (hj : j < nodes.length), i < j → test nodes[j] = false) :
    nodes.reverse.findIdx? test = some (nodes.length - 1 - i) := by
  rw [List.findIdx?_eq_some_iff_getElem]
  refine ⟨by rw [List.length_reverse]; omega, ?_, fun j hj => ?_⟩
  · rw [List.getElem_reverse]
    simpa [show nodes.length - 1 - (nodes.length - 1 - i) = i by omega] using hit
  · rw [List.getElem_reverse, last]
    · exact Bool.false_ne_true
    · omega

theorem IsNumbered.slot?_eq {first : UInt32} {document : Document}
    (h : document.IsNumbered first) {i : Nat} (hi : i < document.nodes.length) :
    document.slot? (NodeId.offset first i) = some i := by
  have found := @findIdx?_reverse _ (fun node => node.id = NodeId.offset first i) _ hi
    (by simp [h.ids i _ (List.getElem?_eq_getElem hi)]) fun j hj later => by
      rw [h.ids j _ (List.getElem?_eq_getElem hj), decide_eq_false_iff_not]
      intro same
      have fits := h.fits
      exact absurd (NodeId.offset_inj (by omega) (by omega) same) (by omega)
  rw [slot?, found, Option.map_some]
  congr 1
  omega

theorem IsNumbered.contains_eq {first : UInt32} {document : Document}
    (h : document.IsNumbered first) {i : Nat} (hi : i < document.nodes.length) :
    document.contains (NodeId.offset first i) = true := by
  rw [contains, List.any_eq_true]
  refine ⟨document.nodes[i], List.getElem_mem hi, ?_⟩
  simpa using h.ids i _ (List.getElem?_eq_getElem hi)

/-- References to known nodes, each to one of its own, pass the check. -/
theorem checkReferences_eq_ok (document : Document) (references owners : List (NodeId × NodeId))
    (known : ∀ reference ∈ references,
      document.contains reference.2 = true ∧ reference.2 ≠ reference.1)
    (once : (owners.map Prod.fst ++ references.map Prod.snd).Nodup) :
    document.checkReferences owners references = .ok () := by
  induction references generalizing owners with
  | nil => rfl
  | cons reference references ih =>
    obtain ⟨owner, child⟩ := reference
    obtain ⟨contained, other⟩ := known (owner, child) List.mem_cons_self
    have moved : (owners.map Prod.fst ++ child :: references.map Prod.snd).Perm
        (child :: (owners.map Prod.fst ++ references.map Prod.snd)) := List.perm_middle
    have once' := moved.nodup_iff.1 once
    have fresh : owners.lookup child = none := by
      rw [List.lookup_eq_none_iff]
      intro entry mem
      have absent := (List.nodup_cons.1 once').1
      rw [bne_iff_ne]
      rintro rfl
      exact absent (List.mem_append_left _ (List.mem_map_of_mem mem))
    have rest := ih ((child, owner) :: owners)
      (fun reference mem => known reference (List.mem_cons_of_mem _ mem)) once'
    simp only [checkReferences, contained, other, fresh, Bool.not_true, if_false,
      Bool.false_eq_true, rest]

end Document

namespace Grove

variable (first : UInt32)

theorem references_plant {place : Place} {grove : Grove} (h : grove.Proper place) (slot : Nat) :
    (Document.mk (plant first slot grove)).references =
      (holdings slot grove).map fun pair =>
        (NodeId.offset first pair.1, NodeId.offset first pair.2) := by
  induction grove generalizing place slot with
  | nil => rfl
  | tree seed body next ihb ihn =>
    obtain ⟨place', proper⟩ := exists_proper_body h
    have named := children_fill first h (slot + 1)
    have inside := ihb proper (slot + 1)
    have behind := ihn h.2 (slot + 1 + body.size)
    simp only [Document.references] at inside behind
    simp only [Document.references, plant, List.flatMap_cons, List.flatMap_append, named, inside,
      behind, holdings, List.map_append, List.map_map]
    rfl
  | mark clause next ih => exact ih h.2.2 slot

theorem isNumbered_plant {grove : Grove} (fits : grove.size ≤ NodeId.count) :
    (Document.mk (grove.plant first 0)).IsNumbered first where
  ids i node found := by
    have mem : (node, i) ∈ numbered first 0 grove := by
      rw [numbered, List.mk_mem_zipIdx_iff_getElem?]
      exact found
    exact id_of_mem_numbered first mem
  fits := by rwa [length_plant]

/-- A container stands before everything that it holds. -/
theorem bounds_of_mem_holdings {slot : Nat} {grove : Grove} {pair : Nat × Nat}
    (h : pair ∈ holdings slot grove) :
    slot ≤ pair.1 ∧ pair.1 < pair.2 ∧ pair.2 < slot + grove.size := by
  induction grove generalizing slot with
  | nil => simp [holdings] at h
  | tree seed body next ihb ihn =>
    rw [Forest.size]
    rw [holdings, List.mem_append, List.mem_append] at h
    rcases h with h | h | h
    · obtain ⟨child, mem, rfl⟩ := List.mem_map.1 h
      have bounds := (ascends_childSlots seed.element (slot + 1) body).bounds child mem
      simp only
      omega
    · have bounds := ihb h
      omega
    · have bounds := ihn h
      omega
  | mark clause next ih => exact ih h

/-- No slot of a planted grove is named twice by containers. -/
theorem nodup_referred_plant {grove : Grove} (h : grove.Proper .top)
    (fits : grove.size ≤ NodeId.count) :
    ((Document.mk (grove.plant first 0)).references.map Prod.snd).Nodup := by
  rw [references_plant first h 0, List.map_map]
  have once := nodup_held h 0
  have children : (holdings 0 grove).map
      (Prod.snd ∘ fun pair => (NodeId.offset first pair.1, NodeId.offset first pair.2)) =
      (held 0 grove).map (NodeId.offset first) := by simp [held]
  rw [children, List.Nodup, List.pairwise_map]
  refine once.imp_of_mem fun {i j} hi hj ne same => ne ?_
  obtain ⟨pair, mem, rfl⟩ := List.mem_map.1 hi
  obtain ⟨pair', mem', rfl⟩ := List.mem_map.1 hj
  have bounds := bounds_of_mem_holdings mem
  have bounds' := bounds_of_mem_holdings mem'
  exact NodeId.offset_inj (by omega) (by omega) same

theorem validate_plant {grove : Grove} (h : grove.Proper .top) (fits : grove.size ≤ NodeId.count) :
    (Document.mk (grove.plant first 0)).validate = .ok () := by
  have numbered := isNumbered_plant first fits
  have length := length_plant first 0 grove
  rw [Document.validate]
  apply Document.checkReferences_eq_ok
  · rw [references_plant first h 0]
    intro reference mem
    obtain ⟨⟨i, j⟩, hold, rfl⟩ := List.mem_map.1 mem
    have bounds := bounds_of_mem_holdings hold
    simp only [Nat.zero_le, Nat.zero_add, true_and] at bounds
    refine ⟨numbered.contains_eq (by simp only; omega), fun same => ?_⟩
    exact absurd (NodeId.offset_inj (by omega) (by omega) same) (by omega)
  · rw [List.map_nil, List.nil_append]
    exact nodup_referred_plant first h fits

end Grove

namespace Document

/-- A forest in an arena: numbered by position from `first` on, and every child is held by one
container, which stands before it and spans its lines. -/
structure IsWellOwned (first : UInt32) (document : Document) : Prop where
  ids : ∀ i node, document.nodes[i]? = some node → node.id = NodeId.offset first i
  valid : document.validate = .ok ()
  children : ∀ i node, document.nodes[i]? = some node →
    ∃ slots : List Nat, node.element.children.map document.slot? = slots.map some ∧
      slots.Pairwise (· < ·) ∧
      ∀ j ∈ slots, i < j ∧ ∃ child, document.nodes[j]? = some child ∧
        node.lineStart ≤ child.lineStart ∧ child.lineEnd ≤ node.lineEnd

end Document

theorem Grove.isWellOwned_plant (first : UInt32) {grove : Grove} {low high : Nat}
    (proper : grove.Proper .top) (spans : grove.Spans low high)
    (fits : grove.size ≤ NodeId.count) :
    (Document.mk (grove.plant first 0)).IsWellOwned first := by
  have numbered := isNumbered_plant first fits
  refine ⟨numbered.ids, validate_plant first proper fits, fun i node found => ?_⟩
  have mem : (node, i) ∈ Grove.numbered first 0 grove := by
    rw [Grove.numbered, List.mk_mem_zipIdx_iff_getElem?]
    exact found
  obtain ⟨slots, children, ascends, lines⟩ := children_of_mem_numbered first proper spans mem
  refine ⟨slots, ?_, ascends.sorted, fun j hj => ⟨(ascends.bounds j hj).1, ?_⟩⟩
  · rw [children, List.map_map]
    refine List.map_congr_left fun j hj => numbered.slot?_eq ?_
    have bounds := (ascends.bounds j hj).2
    simp only [length_plant]
    omega
  · obtain ⟨child, mem', inside⟩ := lines j hj
    rw [Grove.numbered, List.mk_mem_zipIdx_iff_getElem?] at mem'
    exact ⟨child, mem', inside⟩

namespace Document

/-- Whatever the text, no block and no note is left open: the slot of every block that was opened
holds what the block was completed to, and the document is well owned. -/
theorem isWellOwned_readFrom (first : UInt32) (text : String)
    (fits : (readFrom first text).nodes.length ≤ 2 ^ 32) :
    (finalState first text).blocks = [] ∧ (finalState first text).note = none ∧
    (∀ count ≤ (Text.lines text.toList).length, ∀ block ∈ (stateAfter first text count).blocks,
      ∃ node, (readFrom first text).nodes[block.slot]? = some node ∧
        block.Becomes first count node) ∧
    (readFrom first text).IsWellOwned first := by
  obtain ⟨grove, proper, spans, -, final⟩ := exists_finalState first text
  have planted : readFrom first text = ⟨grove.plant first 0⟩ :=
    congrArg Document.mk (congrArg (fun state => state.nodes.toList) final)
  rw [planted, Grove.length_plant] at fits
  rw [final]
  exact ⟨rfl, rfl, fun _ le => becomes_stateAfter first text le,
    planted ▸ Grove.isWellOwned_plant first proper spans fits⟩

/-- Blocks and a note that are left open, with identifiers that start over after the first. -/
theorem isWellOwned_open_blocks :
    let text := "loop\nparticipantgroup\nparticipant A\nA->\nend\nalt\nnote over A\nmore"
    (readFrom 0xFFFFFFFF text).nodes.length ≤ 2 ^ 32 ∧
      (finalState 0xFFFFFFFF text).blocks = [] ∧ (finalState 0xFFFFFFFF text).note = none ∧
      (stateAfter 0xFFFFFFFF text 4).blocks.length = 2 ∧
      (∀ block ∈ (stateAfter 0xFFFFFFFF text 4).blocks,
        ∃ node, (readFrom 0xFFFFFFFF text).nodes[block.slot]? = some node ∧
          block.Becomes 0xFFFFFFFF 4 node) ∧
      (readFrom 0xFFFFFFFF text).IsWellOwned 0xFFFFFFFF := by
  intro text
  have fits : (readFrom 0xFFFFFFFF text).nodes.length ≤ 2 ^ 32 := by decide +kernel
  obtain ⟨blocks, note, completed, owned⟩ := isWellOwned_readFrom 0xFFFFFFFF text fits
  exact ⟨fits, blocks, note, by decide +kernel, completed 4 (by decide +kernel), owned⟩

end Document

end SequenceDiagram
