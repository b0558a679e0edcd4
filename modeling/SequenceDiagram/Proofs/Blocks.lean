import Mathlib.Data.List.Basic
import SequenceDiagram.Proofs.Arena
import SequenceDiagram.Proofs.Record

set_option autoImplicit false

namespace SequenceDiagram

namespace Element

def clauseHeads : Element → List ElseClause
  | .fragment f => f.elseClauses.map fun clause => { clause with entries := [] }
  | .participant _ | .message _ | .group _ | .note _ | .divider _ | .comment _ | .blankLine
  | .directive _ | .error _ => []

/-- `after` is `before` with more in it. -/
structure Continues (before after : Element) : Prop where
  head : after.bare = before.bare
  clauses : before.clauseHeads <+: after.clauseHeads
  children : before.children <+: after.children
  aliases : before.groupAliases <+: after.groupAliases

theorem Continues.refl (element : Element) : element.Continues element :=
  ⟨rfl, List.prefix_refl _, List.prefix_refl _, List.prefix_refl _⟩

theorem Continues.trans {a b c : Element} (h : a.Continues b) (h' : b.Continues c) :
    a.Continues c :=
  ⟨h'.head.trans h.head, h.clauses.trans h'.clauses, h.children.trans h'.children,
    h.aliases.trans h'.aliases⟩

end Element

namespace OpenBlock

structure Continues (before after : OpenBlock) : Prop where
  slot : after.slot = before.slot
  line : after.line = before.line
  element : before.body.element.Continues after.body.element

/-- `node` is what the block is completed to at line `since` or later. -/
structure Becomes (first : UInt32) (since : Nat) (block : OpenBlock) (node : Node) : Prop where
  id : node.id = NodeId.offset first block.slot
  lineStart : node.lineStart = block.line
  lineEnd : since ≤ node.lineEnd
  element : block.body.element.Continues node.element

theorem Continues.becomes {first : UInt32} {since : Nat} {before after : OpenBlock} {node : Node}
    (h : before.Continues after) (becomes : after.Becomes first since node) :
    before.Becomes first since node :=
  ⟨h.slot ▸ becomes.id, h.line ▸ becomes.lineStart, becomes.lineEnd,
    h.element.trans becomes.element⟩

end OpenBlock

namespace Assembly

/-- What the lines from `since` on make of a state: nodes that belong to no open block stay as they
are, and an open block goes on or is completed. -/
structure Develops (since : Nat) (before after : Assembly) : Prop where
  origin : after.first = before.first
  closed : ∀ i node, before.nodes[i]? = some node → i ∉ before.blocks.map OpenBlock.slot →
    after.nodes[i]? = some node ∧ i ∉ after.blocks.map OpenBlock.slot
  blocks : ∀ block ∈ before.blocks, (∃ later ∈ after.blocks, block.Continues later) ∨
    ∃ node, after.nodes[block.slot]? = some node ∧ block.slot ∉ after.blocks.map OpenBlock.slot ∧
      block.Becomes before.first since node

theorem Develops.refl (since : Nat) (assembly : Assembly) : assembly.Develops since assembly where
  origin := rfl
  closed _ _ found closed := ⟨found, closed⟩
  blocks block mem := .inl ⟨block, mem, rfl, rfl, .refl _⟩

theorem Develops.trans {since : Nat} {a b c : Assembly} (h : a.Develops since b)
    (h' : b.Develops since c) : a.Develops since c where
  origin := h'.origin.trans h.origin
  closed i node found closed :=
    have ⟨found', closed'⟩ := h.closed i node found closed
    h'.closed i node found' closed'
  blocks block mem := by
    rcases h.blocks block mem with ⟨later, mem', continues⟩ | ⟨node, found, closed, becomes⟩
    · rcases h'.blocks later mem' with ⟨last, mem'', continues'⟩ | ⟨node, found, closed, becomes⟩
      · exact .inl ⟨last, mem'', continues'.slot.trans continues.slot,
          continues'.line.trans continues.line, continues.element.trans continues'.element⟩
      · rw [continues.slot] at found closed
        rw [h.origin] at becomes
        exact .inr ⟨node, found, closed, continues.becomes becomes⟩
    · obtain ⟨found', closed'⟩ := h'.closed _ node found closed
      exact .inr ⟨node, found', closed', becomes⟩

/-- Notes are no blocks. -/
theorem Develops.noting {since : Nat} {before after : Assembly} (h : before.Develops since after)
    (note note' : Option OpenNote) :
    Develops since { before with note } { after with note := note' } :=
  ⟨h.origin, h.closed, h.blocks⟩

theorem Develops.mono {since since' : Nat} {before after : Assembly}
    (h : before.Develops since' after) (le : since ≤ since') : before.Develops since after where
  origin := h.origin
  closed := h.closed
  blocks block mem := (h.blocks block mem).imp_right fun ⟨node, found, closed, becomes⟩ =>
    ⟨node, found, closed, { becomes with lineEnd := Nat.le_trans le becomes.lineEnd }⟩

end Assembly

namespace Fragment

theorem continues_addEntry (f : Fragment) (id : NodeId) :
    (Element.fragment f).Continues (.fragment (f.addEntry id)) where
  head := by
    unfold addEntry
    split <;> rfl
  clauses := by
    have heads (clauses : List ElseClause) :
        (ElseClause.addEntry id clauses).map (fun clause => { clause with entries := [] }) =
          clauses.map fun clause => { clause with entries := [] } := by
      fun_induction ElseClause.addEntry id clauses with
      | case1 => rfl
      | case2 clause => rfl
      | case3 clause clauses _ ih => simp only [List.map_cons, ih]
    unfold addEntry
    split
    · exact List.prefix_refl _
    · simp only [Element.clauseHeads, heads, List.prefix_refl]
  children := by
    simp only [Element.children, allEntries_addEntry]
    exact List.prefix_append _ _
  aliases := List.prefix_refl _

theorem continues_addClause (f : Fragment) (clause : ElseClause) :
    (Element.fragment f).Continues (.fragment (f.addClause clause)) where
  head := rfl
  clauses := by simp [Element.clauseHeads, addClause]
  children := by simp [Element.children, allEntries, addClause]
  aliases := List.prefix_refl _

end Fragment

namespace Grove

variable (first : UInt32)

theorem continues_addSlots (f : Fragment) {slots slots' : List Nat} (h : slots <+: slots') :
    (Element.fragment (addSlots first f slots)).Continues
      (.fragment (addSlots first f slots')) := by
  obtain ⟨more, rfl⟩ := h
  rw [addSlots, addSlots, List.foldl_append, ← addSlots]
  induction more generalizing f slots with
  | nil => exact .refl _
  | cons slot more ih =>
    have later := @ih f (slots ++ [slot])
    rw [addSlots, List.foldl_append] at later
    exact (Fragment.continues_addEntry _ _).trans later

theorem continues_fillFragment (f : Fragment) (slot : Nat) (row : Grove) :
    (Element.fragment f).Continues (.fragment (fillFragment first f slot row)) := by
  induction row generalizing f slot with
  | nil => exact .refl _
  | tree seed body next _ ih =>
    exact (continues_addSlots first f (List.nil_prefix)).trans (ih _ _)
  | mark clause next ih => exact (f.continues_addClause clause).trans (ih _ _)

theorem continues_fillGroup (g : ParticipantGroup) (slot : Nat) (row : Grove) :
    (Element.group g).Continues (.group (fillGroup first g slot row)) := by
  have member (g : ParticipantGroup) (slot : Nat) (element : Element) :
      (Element.group g).Continues (.group (addMember first g slot element)) := by
    constructor <;> cases element <;>
      simp [addMember, Element.bare, ParticipantGroup.header, Element.clauseHeads,
        Element.children, Element.groupAliases]
  induction row generalizing g slot with
  | nil => exact .refl _
  | tree seed body next _ ih => exact (member g slot seed.element).trans (ih _ _)
  | mark clause next ih => exact ih _ _

theorem fill_append (element : Element) (slot : Nat) (a b : Grove) :
    fill first element slot (a.append b) =
      fill first (fill first element slot a) (slot + a.size) b := by
  cases element with
  | fragment f => exact congrArg Element.fragment (fillFragment_append first f slot a b)
  | group g => exact congrArg Element.group (fillGroup_append first g slot a b)
  | _ => rfl

end Grove

namespace Growth

/-- `b` fills what stands before it with more than `a` does. -/
structure Extends (first : UInt32) (a b : Grove) : Prop where
  fill : ∀ element slot,
    (Grove.fill first element slot a).Continues (Grove.fill first element slot b)
  strays : ∀ slot, Grove.straySlots slot a <+: Grove.straySlots slot b

section
variable (first : UInt32)

theorem extends_nil (row : Grove) : Extends first .nil row where
  fill element slot := by
    cases element with
    | fragment f => exact Grove.continues_fillFragment first f slot row
    | group g => exact Grove.continues_fillGroup first g slot row
    | _ => exact .refl _
  strays _ := List.nil_prefix

theorem Extends.append_left {first : UInt32} {a b : Grove} (h : Extends first a b) (row : Grove) :
    Extends first (row.append a) (row.append b) where
  fill element slot := by
    rw [Grove.fill_append, Grove.fill_append]
    exact h.fill _ _
  strays slot := by
    rw [Grove.straySlots_append, Grove.straySlots_append]
    exact (List.prefix_append_right_inj _).2 (h.strays _)

theorem Extends.close {first : UInt32} {a b : Grove} (h : Extends first a b) (level : Level) :
    Extends first (level.close level.line a) (level.close level.line b) := by
  have strays := (h.append_left level.row).strays
  obtain ⟨line, body, row⟩ := level
  -- a fragment around the block takes in its slot, and the strays if it is a group
  have gained (slot : Nat) :
      Grove.sectionSlots slot ⟨body.element, line, line⟩ (row.append a) <+:
        Grove.sectionSlots slot ⟨body.element, line, line⟩ (row.append b) := by
    cases body with
    | fragment f => exact List.prefix_refl _
    | group g => exact (List.prefix_cons_inj slot).2 (strays (slot + 1))
  constructor
  · intro element slot
    cases element with
    | fragment f => exact Grove.continues_addSlots first f (gained slot)
    | _ => exact .refl _
  · intro slot
    cases body with
    | fragment f => exact List.prefix_refl _
    | group g => simpa [Level.close, BlockBody.element, Grove.straySlots] using strays (slot + 1)

theorem continues_blocks {first : UInt32} {a b : Grove} (h : Extends first a b) (base : Grove)
    (levels : List Level) :
    ∀ block ∈ blocks first base a levels, ∃ later ∈ blocks first base b levels,
      block.Continues later := by
  induction levels generalizing a b with
  | nil => exact fun _ mem => absurd mem List.not_mem_nil
  | cons level outer ih =>
    rw [blocks, blocks, List.forall_mem_cons]
    refine ⟨⟨_, List.mem_cons_self, rfl, rfl, ?_⟩, fun block mem => ?_⟩
    · simp only [BlockBody.element_fill]
      exact (h.append_left level.row).fill _ _
    · -- the row around ends in the innermost block, which has more in it
      obtain ⟨later, mem', continues⟩ := ih (h.close level) block mem
      exact ⟨later, List.mem_cons_of_mem _ mem', continues⟩

def slots (base : Grove) : List Level → List Nat
  | [] => []
  | _ :: outer => taken base outer :: slots base outer

theorem slots_blocks (base tail : Grove) (levels : List Level) :
    (blocks first base tail levels).map OpenBlock.slot = slots base levels := by
  induction levels generalizing tail with
  | nil => rfl
  | cons level outer ih => simp [blocks, slots, ih]

theorem slots_push (growth : Growth) (row : Grove) :
    slots (growth.push row).base (growth.push row).levels = slots growth.base growth.levels := by
  obtain ⟨base, levels, note⟩ := growth
  cases levels <;> rfl

theorem lt_of_mem_slots {base : Grove} {levels : List Level} {i : Nat} (h : i ∈ slots base levels) :
    i < taken base levels := by
  induction levels with
  | nil => contradiction
  | cons level outer ih =>
    rw [slots, List.mem_cons] at h
    rw [taken]
    rcases h with rfl | h
    · omega
    · have bound := ih h
      omega

theorem map_slot_assembly (growth : Growth) :
    (growth.assembly first).blocks.map OpenBlock.slot = slots growth.base growth.levels :=
  slots_blocks first growth.base .nil growth.levels

theorem size_assembly (growth : Growth) :
    (growth.assembly first).nodes.size = taken growth.base growth.levels := by
  simp [assembly, length_nodes]

theorem slot_lt_size {growth : Growth} {block : OpenBlock}
    (h : block ∈ (growth.assembly first).blocks) :
    block.slot < (growth.assembly first).nodes.size := by
  rw [size_assembly]
  apply lt_of_mem_slots
  rw [← map_slot_assembly first]
  exact List.mem_map_of_mem h

/-- Only the innermost open block stands at its slot. -/
theorem slot_not_mem_outer {growth : Growth} {block : OpenBlock} {outer : List OpenBlock}
    (h : (growth.assembly first).blocks = block :: outer) :
    block.slot ∉ outer.map OpenBlock.slot := by
  have slots := map_slot_assembly first growth
  rw [h] at slots
  obtain ⟨base, levels, note⟩ := growth
  cases levels with
  | nil => contradiction
  | cons level around =>
    obtain ⟨slot, others⟩ := List.cons.inj slots
    rw [slot, others]
    exact fun mem => Nat.lt_irrefl _ (lt_of_mem_slots mem)

theorem develops_push (growth : Growth) (row : Grove) (since : Nat) :
    (growth.assembly first).Develops since ((growth.push row).assembly first) where
  origin := rfl
  closed i node found closed := by
    rw [map_slot_assembly] at closed ⊢
    refine ⟨?_, by rwa [slots_push]⟩
    rw [assembly_push]
    obtain ⟨bound, -⟩ := Array.getElem?_eq_some_iff.1 found
    simp only [assembly, List.getElem?_toArray] at found ⊢
    rw [List.getElem?_append_left (by simpa [assembly] using bound), found]
  blocks block mem := by
    rw [assembly_push]
    exact .inl (continues_blocks (extends_nil first row) _ _ block mem)

theorem develops_openBlock (growth : Growth) (line : Nat) (body : BlockBody) (since : Nat) :
    (growth.assembly first).Develops since ((growth.openBlock line body).assembly first) where
  origin := rfl
  closed i node found closed := by
    have bound := (Array.getElem?_eq_some_iff.1 found).1
    rw [map_slot_assembly] at closed ⊢
    constructor
    · simp only [assembly, openBlock, nodes, List.getElem?_toArray] at found bound ⊢
      rw [List.getElem?_append_left (by simpa using bound), found]
    · rw [size_assembly] at bound
      exact List.not_mem_cons_of_ne_of_not_mem (Nat.ne_of_lt bound) closed
  blocks block mem := by
    obtain ⟨later, mem', continues⟩ := continues_blocks (extends_nil first _) _ _ block mem
    exact .inl ⟨later, List.mem_cons_of_mem _ mem', continues⟩

theorem develops_closeBlock (growth : Growth) (lineEnd : Nat) :
    (growth.assembly first).Develops lineEnd ((growth.closeBlock lineEnd).assembly first) := by
  rw [← closeBlock_assembly]
  cases blocks : (growth.assembly first).blocks with
  | nil =>
    rw [Assembly.closeBlock, blocks]
    exact .refl _ _
  | cons block outer =>
    have bound := slot_lt_size first (blocks ▸ List.mem_cons_self)
    have alone := slot_not_mem_outer first blocks
    rw [Assembly.closeBlock, blocks]
    refine ⟨rfl, fun i node found closed => ?_, ?_⟩
    · rw [blocks] at closed
      obtain ⟨other, closed⟩ := List.ne_and_not_mem_of_not_mem_cons closed
      exact ⟨(Array.getElem?_setIfInBounds_ne (Ne.symm other)).trans found, closed⟩
    · rw [blocks, List.forall_mem_cons]
      refine ⟨.inr ⟨_, Array.getElem?_setIfInBounds_self_of_lt bound, alone, ?_⟩, fun other mem =>
        .inl ⟨other, mem, rfl, rfl, .refl _⟩⟩
      exact ⟨rfl, rfl, Nat.le_refl _, .refl _⟩

theorem develops_reads {number : Nat} {line : List Char} {growth growth' : Growth}
    (reads : Reads number line growth growth') :
    (growth.assembly first).Develops number (growth'.assembly first) := by
  cases reads with
  | leaf element free read place => exact develops_push first growth _ number
  | openNote n free outside read block =>
    exact (Assembly.Develops.refl number (growth.assembly first)).noting growth.note _
  | noteText note inside more =>
    exact (Assembly.Develops.refl number (growth.assembly first)).noting growth.note _
  | closeNote note inside last =>
    let freed : Growth := { growth with note := none }
    let closed := freed.push (.leaf ⟨note.complete, note.line, number⟩)
    exact (develops_push first freed _ number).noting growth.note closed.note
  | openBlock body free read place => exact develops_openBlock first growth number body number
  | clause clause free inside read => exact develops_push first growth _ number
  | closeBlock free inside last => exact develops_closeBlock first growth number
  | skip free inside read => exact .refl number _

theorem develops_abandonBlocks {growth : Growth} {count : Nat}
    (all : growth.levels.length = count) (last : Nat) :
    (growth.assembly first).Develops last
      (Assembly.abandonBlocks last count (growth.assembly first)) := by
  induction count generalizing growth with
  | zero => exact .refl last _
  | succ count ih =>
    obtain ⟨base, levels, note⟩ := growth
    cases levels with
    | nil => contradiction
    | cons level outer =>
      let growth : Growth := ⟨base, level :: outer, note⟩
      let closed := growth.closeBlock last
      let reported := closed.push (.leaf ⟨level.report, last, last⟩)
      have fewer : reported.levels.length = count := by
        rw [length_levels_push]
        exact (length_levels_push ⟨base, outer, note⟩ _).trans (by simpa using all)
      rw [Assembly.abandonBlocks, abandonBlock_assembly]
      exact ((develops_closeBlock first growth last).trans
        (develops_push first closed _ last)).trans (ih fewer)

theorem develops_finish {growth : Growth} (outside : growth.note ≠ none → growth.inGroup = false)
    (last : Nat) :
    (growth.assembly first).Develops last ((growth.assembly first).finish last) := by
  have blocks (growth : Growth) : (growth.assembly first).Develops last (Assembly.abandonBlocks last
      (growth.assembly first).blocks.length (growth.assembly first)) :=
    develops_abandonBlocks first (length_blocks first growth.base .nil growth.levels).symm last
  cases inside : growth.note with
  | none =>
    have free : (growth.assembly first).note = none := inside
    simp only [Assembly.finish, Assembly.abandonNote, free]
    exact blocks growth
  | some note =>
    let freed : Growth := { growth with note := none }
    let closed := freed.push (.leaf ⟨note.complete, note.line, last⟩)
    let reported := closed.push
      (.leaf ⟨SyntaxFault.unterminatedNote note.head.kind note.line, last, last⟩)
    have noted : (freed.assembly first).Develops last (reported.assembly first) :=
      (develops_push first freed _ last).trans (develops_push first closed _ last)
    have whole := noted.trans (blocks reported)
    simp only [Assembly.finish, abandonNote_assembly first inside (outside (by simp [inside]))]
    exact whole.noting growth.note _

/-- The lines behind `last`, up to the end of the text. -/
theorem develops_run {lines : List (List Char)} {last : Nat} {growth : Growth}
    (h : growth.IsSound last) (tidy : ∀ line ∈ lines, Text.IsTidy line) :
    (growth.assembly first).Develops last
      (((growth.assembly first).run (lines.zipIdx (last + 1))).finish (last + lines.length)) := by
  induction lines generalizing last growth with
  | nil => exact develops_finish first h.proper.note last
  | cons line lines ih =>
    obtain ⟨next, reads, step⟩ := reads_step first growth (last + 1) line h.proper.note
    have sound := h.reads (Nat.lt_succ_self last) (tidy line List.mem_cons_self) reads
    have later := ih sound fun other mem => tidy other (List.mem_cons_of_mem _ mem)
    have whole := ((develops_reads first reads).trans later).mono (Nat.le_succ last)
    rw [← step] at whole
    rwa [List.length_cons, Nat.add_comm lines.length, ← Nat.add_assoc]

end

end Growth

namespace Document

/-- The state that reading is in behind so many lines of a text. -/
def stateAfter (first : UInt32) (text : String) (count : Nat) : Assembly :=
  Assembly.run { first } ((Text.numberedLines text.toList).take count)

/-- The state that reading ends in. -/
def finalState (first : UInt32) (text : String) : Assembly :=
  (stateAtEnd first text).finish (Text.numberedLines text.toList).length

variable (first : UInt32) (text : String)

theorem nodes_readFrom : (readFrom first text).nodes = (finalState first text).nodes.toList := rfl

theorem exists_finalState : ∃ grove : Grove, grove.Proper .top ∧
    grove.Spans 0 (Text.lines text.toList).length ∧ grove.IsRead ∧
      finalState first text = Growth.assembly first ⟨grove, [], none⟩ := by
  have count : (Text.numberedLines text.toList).length = (Text.lines text.toList).length := by
    simp [Text.numberedLines]
  rw [finalState, stateAtEnd, count]
  exact exists_grove first text.toList

/-- What has grown behind the first `count` lines of a text, and what is left to read. -/
theorem exists_growth {count : Nat} (le : count ≤ (Text.lines text.toList).length) :
    ∃ (growth : Growth) (back : List (List Char)),
      ((Text.lines text.toList).map Text.trim).drop count = back ∧ growth.IsSound count ∧
      (∀ line ∈ back, Text.IsTidy line) ∧ stateAfter first text count = growth.assembly first ∧
      finalState first text =
        ((growth.assembly first).run (back.zipIdx (count + 1))).finish (count + back.length) := by
  obtain ⟨front, back, length, behind, parts⟩ : ∃ front back, front.length = count ∧
      ((Text.lines text.toList).map Text.trim).drop count = back ∧
      (Text.lines text.toList).map Text.trim = front ++ back :=
    ⟨_, _, List.length_take_of_le (by simpa using le), rfl, (List.take_append_drop _ _).symm⟩
  have numbered : Text.numberedLines text.toList = front.zipIdx 1 ++ back.zipIdx (count + 1) := by
    rw [Text.numberedLines, parts, List.zipIdx_append, length, Nat.add_comm 1]
  have tidy := @Text.isTidy_of_mem_lines text.toList
  rw [parts] at tidy
  obtain ⟨growth, sound, run⟩ := Growth.sound_run first Growth.isSound_start fun line mem =>
    tidy line (List.mem_append_left _ mem)
  rw [Nat.zero_add] at sound run
  refine ⟨growth, back, behind, length ▸ sound,
    fun line mem => tidy line (List.mem_append_right _ mem), ?_, ?_⟩
  · rw [stateAfter, numbered, List.take_left' (by rw [List.length_zipIdx, length])]
    exact run
  · have total : (Text.numberedLines text.toList).length = count + back.length := by
      simp only [numbered, List.length_append, List.length_zipIdx, length]
    rw [finalState, stateAtEnd, total, numbered, Assembly.run, List.foldl_append, ← run]
    rfl

/-- A block that is open behind some line is completed at a later one, or where the text ends. -/
theorem becomes_stateAfter {count : Nat} (le : count ≤ (Text.lines text.toList).length) :
    ∀ block ∈ (stateAfter first text count).blocks,
      ∃ node, (readFrom first text).nodes[block.slot]? = some node ∧
        block.Becomes first count node := by
  intro block mem
  obtain ⟨growth, back, -, sound, tidy, before, final⟩ := exists_growth first text le
  have develops := Growth.develops_run first sound tidy
  obtain ⟨grove, -, -, -, planted⟩ := exists_finalState first text
  rw [← final, ← before] at develops
  rcases develops.blocks block mem with ⟨later, mem', -⟩ | ⟨node, found, -, becomes⟩
  · rw [planted] at mem'
    exact absurd mem' List.not_mem_nil
  · rw [before] at becomes
    exact ⟨node, by rwa [nodes_readFrom, Array.getElem?_toList], becomes⟩

end Document

end SequenceDiagram
