import Mathlib.Logic.ExistsUnique
import SequenceDiagram.Proofs.Blocks

set_option autoImplicit false

/-!
# Every line is accounted for

What becomes of a line shows in the document: a node of its own, the end of a block, an else
clause, the text of a note, or nothing, which only groups allow. No two of these can be told of
the same line, and what has become of a line does not change behind it.
-/
namespace SequenceDiagram

inductive LineFate
  | node
  | blockEnd
  | elseClause
  | noteText
  | unseen
deriving DecidableEq, Repr

def Element.isBlockNote : Element → Bool
  | .note n => n.block
  | .participant _ | .message _ | .fragment _ | .group _ | .divider _ | .comment _ | .blankLine
  | .directive _ | .error _ => false

namespace Seed

def startsAt (k : Nat) (seed : Seed) : Bool :=
  !seed.element.isReport && seed.lineStart = k

def runsOver (k : Nat) (seed : Seed) : Prop :=
  seed.element.isBlockNote = true ∧ seed.lineStart < k ∧ k ≤ seed.lineEnd

end Seed

namespace Assembly

def startsAt (assembly : Assembly) (k : Nat) : Nat :=
  assembly.record.countP (Seed.startsAt k) + assembly.note.toList.countP fun note => note.line = k

def runsOver (assembly : Assembly) (k : Nat) : Prop :=
  (∃ seed ∈ assembly.record, seed.runsOver k) ∨ ∃ note ∈ assembly.note, note.line < k

structure Past (assembly : Assembly) (last : Nat) : Prop where
  record : ∀ seed ∈ assembly.record, seed.lineStart ≤ last ∧ seed.lineEnd ≤ last
  note : ∀ note ∈ assembly.note, note.line ≤ last

structure Settles (last : Nat) (before after : Assembly) : Prop where
  starts : ∀ k ≤ last, after.startsAt k = before.startsAt k
  runs : ∀ k ≤ last, (after.runsOver k ↔ before.runsOver k)

theorem Settles.trans {last last' : Nat} {a b c : Assembly} (h : Settles last a b)
    (h' : Settles last' b c) (le : last ≤ last') : Settles last a c where
  starts k hk := (h'.starts k (Nat.le_trans hk le)).trans (h.starts k hk)
  runs k hk := (h'.runs k (Nat.le_trans hk le)).trans (h.runs k hk)

section
variable {number last : Nat} {before after : Assembly}

theorem Past.records (h : before.Past last) (le : last ≤ number)
    (records : Records number before after) : after.Past number := by
  have kept : ∀ seed ∈ before.record, seed.lineStart ≤ number ∧ seed.lineEnd ≤ number := by
    intro seed mem
    obtain ⟨starts, ends⟩ := h.record seed mem
    omega
  have added (entry : Seed) (starts : entry.lineStart ≤ number) (ends : entry.lineEnd ≤ number) :
      ∀ seed ∈ before.record ++ [entry], seed.lineStart ≤ number ∧ seed.lineEnd ≤ number := by
    intro seed mem
    rcases List.mem_append.1 mem with mem | mem
    · exact kept seed mem
    · rw [List.mem_singleton.1 mem]
      exact ⟨starts, ends⟩
  have early : ∀ note ∈ before.note, note.line ≤ number :=
    fun note mem => Nat.le_trans (h.note note mem) le
  cases records with
  | same record note => exact ⟨record ▸ kept, note ▸ early⟩
  | entry element plain free free' record =>
    exact ⟨record ▸ added _ (Nat.le_refl _) (Nat.le_refl _), by simp [free']⟩
  | openNote n block free note record => exact ⟨record ▸ kept, by simp [note]⟩
  | noteText note line inside more record =>
    exact ⟨record ▸ kept, by simpa [more] using early note inside⟩
  | closeNote note block inside free record =>
    exact ⟨record ▸ added _ (early note inside) (Nat.le_refl _), by simp [free]⟩

theorem Records.startsAt (records : Records number before after) {k : Nat} (other : k ≠ number) :
    after.startsAt k = before.startsAt k := by
  have later : ∀ element, Seed.startsAt k ⟨element, number, number⟩ = false := by
    simp [Seed.startsAt, other.symm]
  cases records with
  | same record note => rw [Assembly.startsAt, record, note, Assembly.startsAt]
  | entry element plain free free' record =>
    simp [Assembly.startsAt, record, free, free', later]
  | openNote n block free note record => simp [Assembly.startsAt, record, free, note, other.symm]
  | noteText note line inside more record => simp [Assembly.startsAt, record, inside, more]
  | closeNote note block inside free record =>
    simp [Assembly.startsAt, record, inside, free, Seed.startsAt, OpenNote.complete,
      Element.isReport, List.countP_cons]

theorem Records.runsOver (records : Records number before after) {k : Nat} (le : k ≤ number) :
    after.runsOver k ↔ before.runsOver k := by
  have later (element : Element) : ¬Seed.runsOver k ⟨element, number, number⟩ :=
    fun runs => Nat.not_lt.2 le runs.2.1
  have added (entry : Seed) : (∃ seed ∈ before.record ++ [entry], seed.runsOver k) ↔
      (∃ seed ∈ before.record, seed.runsOver k) ∨ entry.runsOver k := by
    simp [or_and_right, exists_or]
  cases records with
  | same record note => rw [Assembly.runsOver, record, note, Assembly.runsOver]
  | entry element plain free free' record =>
    simp [Assembly.runsOver, record, free, free', later]
  | openNote n block free note record =>
    simp [Assembly.runsOver, record, free, note, Nat.not_lt.2 le]
  | noteText note line inside more record => simp [Assembly.runsOver, record, inside, more]
  | closeNote note block inside free record =>
    have runs : Seed.runsOver k ⟨note.complete, note.line, number⟩ ↔ note.line < k := by
      simp [Seed.runsOver, OpenNote.complete, Element.isBlockNote, block, le]
    simp only [Assembly.runsOver, record, added, inside, free, runs]
    simp

theorem Records.settles (records : Records number before after) (lt : last < number) :
    Settles last before after where
  starts _ hk := records.startsAt (by omega)
  runs _ hk := records.runsOver (by omega)

theorem Past.startsAt_eq_zero (h : before.Past last) {k : Nat} (later : last < k) :
    before.startsAt k = 0 := by
  have record : before.record.countP (Seed.startsAt k) = 0 := by
    refine List.countP_eq_zero.2 fun seed mem => ?_
    have bounds := h.record seed mem
    simp [Seed.startsAt, show seed.lineStart ≠ k by omega]
  have note : before.note.toList.countP (fun note => note.line = k) = 0 := by
    refine List.countP_eq_zero.2 fun note mem => ?_
    have bound := h.note note (by simpa using mem)
    simpa using Nat.ne_of_lt (Nat.lt_of_le_of_lt bound later)
  rw [startsAt, record, note]

theorem Past.runsOver_iff (h : before.Past last) {k : Nat} (later : last < k) :
    before.runsOver k ↔ before.note ≠ none := by
  have record : ¬∃ seed ∈ before.record, seed.runsOver k := by
    rintro ⟨seed, mem, runs⟩
    have bounds := (h.record seed mem).2
    exact absurd runs.2.2 (by omega)
  rw [runsOver, or_iff_right record, Option.ne_none_iff_exists']
  exact exists_congr fun note => and_iff_left_of_imp fun inside =>
    Nat.lt_of_le_of_lt (h.note note inside) later

end

theorem countP_lastEntries (assembly : Assembly) (last k : Nat) :
    (assembly.lastEntries last).countP (Seed.startsAt k) =
      assembly.note.toList.countP fun note => note.line = k := by
  have reports : (assembly.dueReports.map fun report => (⟨report, last, last⟩ : Seed)).countP
      (Seed.startsAt k) = 0 := by
    rw [List.countP_map, List.countP_eq_zero]
    intro report due
    simp [Seed.startsAt, isReport_of_mem_dueReports due]
  rw [lastEntries, List.countP_append, reports, List.countP_map]
  exact List.countP_congr fun note _ => by simp [Seed.startsAt, OpenNote.complete, Element.isReport]

theorem runsOver_lastEntries {assembly : Assembly} {last k : Nat} (le : k ≤ last)
    (block : ∀ note ∈ assembly.note, note.head.block = true) :
    (∃ seed ∈ assembly.lastEntries last, seed.runsOver k) ↔
      ∃ note ∈ assembly.note, note.line < k := by
  constructor
  · rintro ⟨seed, mem, runs⟩
    rcases List.mem_append.1 mem with mem | mem
    · obtain ⟨note, inside, rfl⟩ := List.mem_map.1 mem
      exact ⟨note, by simpa using inside, runs.2.1⟩
    · obtain ⟨report, -, rfl⟩ := List.mem_map.1 mem
      exact absurd runs.2.1 (Nat.not_lt.2 le)
  · rintro ⟨note, inside, early⟩
    refine ⟨⟨note.complete, note.line, last⟩, ?_, ?_, early, le⟩
    · rw [lastEntries, List.mem_append, List.mem_map]
      exact Or.inl ⟨note, by simpa using inside, rfl⟩
    · exact block note inside

end Assembly

namespace Growth

variable (first : UInt32)

theorem settles_finish {growth : Growth} {last : Nat} (h : growth.IsSound last) :
    Assembly.Settles last (growth.assembly first) ((growth.assembly first).finish last) := by
  obtain ⟨grove, -, finish⟩ := sound_finish first h
  have free : ((growth.assembly first).finish last).note = none := by rw [finish]; rfl
  have record := record_finish first growth h.proper.note last
  constructor
  · intro k _
    rw [Assembly.startsAt, record, free, List.countP_append, Assembly.countP_lastEntries]
    rfl
  · intro k hk
    have entries := @Assembly.runsOver_lastEntries (growth.assembly first) last k hk fun note mem =>
      have ⟨_, _, _, block, _⟩ := h.read.note note mem
      block
    rw [Assembly.runsOver, Assembly.runsOver, record, free, ← entries]
    simp [or_and_right, exists_or]

end Growth

namespace Assembly

theorem startsAt_of_entry {number : Nat} {before after : Assembly} {element : Element}
    (plain : element.isReport = false) (note : after.note = before.note)
    (record : after.record = before.record ++ [⟨element, number, number⟩]) :
    after.startsAt number = before.startsAt number + 1 := by
  have starts : Seed.startsAt number ⟨element, number, number⟩ = true := by
    simp [Seed.startsAt, plain]
  rw [startsAt, record, note, List.countP_append, List.countP_singleton, if_pos starts, startsAt]
  omega

/-- What becomes of a line, told from the states before and after it. -/
inductive Turn (number : Nat) (line : List Char) (before after : Assembly) : LineFate → Prop
  | node (free : before.note = none) (starts : after.startsAt number = before.startsAt number + 1)
      (depth : before.blocks.length ≤ after.blocks.length)
      (new : after.record ≠ before.record ∨ after.note ≠ before.note) :
      Turn number line before after .node
  | blockEnd (free : before.note = none) (starts : after.startsAt number = before.startsAt number)
      (last : line = "end".toList) (block : OpenBlock)
      (blocks : before.blocks = block :: after.blocks)
      (node : after.nodes[block.slot]? =
        some ⟨NodeId.offset after.first block.slot, block.line, number, block.body.element⟩)
      (closed : block.slot ∉ after.blocks.map OpenBlock.slot) :
      Turn number line before after .blockEnd
  | elseClause (free : before.note = none)
      (starts : after.startsAt number = before.startsAt number) (slot opened : Nat) (f : Fragment)
      (outer : List OpenBlock) (clause : ElseClause)
      (read : ElseClause.readHead? line = some clause)
      (blocks : before.blocks = ⟨slot, opened, .fragment f⟩ :: outer)
      (added : after =
        { before with blocks := ⟨slot, opened, .fragment (f.addClause clause)⟩ :: outer }) :
      Turn number line before after .elseClause
  | noteText (inside : before.note ≠ none)
      (starts : after.startsAt number = before.startsAt number)
      (depth : before.blocks.length ≤ after.blocks.length) (new : after.note ≠ before.note) :
      Turn number line before after .noteText
  | unseen (free : before.note = none) (inside : before.inGroup = true)
      (read : Line.read line = .blank ∨ ∃ text, Line.read line = .comment text)
      (same : after = before) :
      Turn number line before after .unseen

section
variable {number : Nat} {line : List Char} {before after : Assembly} {fate : LineFate}

theorem Turn.eq_node (turn : Turn number line before after fate)
    (unbegun : before.startsAt number = 0) (begun : after.startsAt number = 1) : fate = .node := by
  cases turn with
  | node free starts depth new => rfl
  | blockEnd free starts last block blocks node closed => omega
  | elseClause free starts slot opened f outer clause read blocks added => omega
  | noteText inside starts depth new => omega
  | unseen free inside read same =>
    rw [same] at begun
    omega

theorem Turn.eq_blockEnd (turn : Turn number line before after fate)
    (shorter : after.blocks.length < before.blocks.length) : fate = .blockEnd := by
  cases turn with
  | node free starts depth new => omega
  | blockEnd free starts last block blocks node closed => rfl
  | elseClause free starts slot opened f outer clause read blocks added =>
    simp [added, blocks] at shorter
  | noteText inside starts depth new => omega
  | unseen free inside read same => simp [same] at shorter

theorem Turn.eq_elseClause {slot opened : Nat} {f f' : Fragment} {outer : List OpenBlock}
    (turn : Turn number line before after fate)
    (blocks : before.blocks = ⟨slot, opened, .fragment f⟩ :: outer)
    (added : after = { before with blocks := ⟨slot, opened, .fragment f'⟩ :: outer }) :
    fate = .elseClause := by
  have note : after.note = before.note := by rw [added]
  have record : after.record = before.record := by
    rw [added]
    rfl
  cases turn with
  | node free starts depth new => exact absurd note (new.resolve_left fun h => h record)
  | blockEnd free starts last block blocks' node closed =>
    have shorter := congrArg List.length blocks'
    simp [added, blocks] at shorter
  | elseClause free starts slot opened f outer clause read blocks added => rfl
  | noteText inside starts depth new => exact absurd note new
  | unseen free inside read same => simp [inGroup, blocks] at inside

theorem Turn.eq_noteText (turn : Turn number line before after fate)
    (inside : before.note ≠ none) : fate = .noteText := by
  cases turn with
  | node free starts depth new => exact absurd free inside
  | blockEnd free starts last block blocks node closed => exact absurd free inside
  | elseClause free starts slot opened f outer clause read blocks added => exact absurd free inside
  | noteText inside starts depth new => rfl
  | unseen free inside' read same => exact absurd free inside

theorem Turn.eq_unseen (turn : Turn number line before after fate) (free : before.note = none)
    (inside : before.inGroup = true) (same : after = before) : fate = .unseen := by
  cases turn with
  | node free starts depth new =>
    rw [same] at new
    exact absurd rfl (new.resolve_left fun h => h rfl)
  | blockEnd free starts last block blocks node closed =>
    rw [same] at blocks
    exact absurd blocks (List.cons_ne_self _ _).symm
  | elseClause free starts slot opened f outer clause read blocks added =>
    simp [inGroup, blocks] at inside
  | noteText open' starts depth new => exact absurd free open'
  | unseen free inside read same => rfl

end

theorem step_unseen {assembly : Assembly} {line : List Char}
    (read : Line.read line = .blank ∨ ∃ text, Line.read line = .comment text)
    (inside : assembly.inGroup = true) (free : assembly.note = none) (number : Nat) :
    assembly.step number line = assembly := by
  have other : line ≠ "end".toList := by
    rintro rfl
    have unread : Line.read "end".toList = .unrecognized := by decide +kernel
    rw [unread] at read
    rcases read with read | ⟨text, read⟩ <;> contradiction
  rw [step, free, inside]
  simp only [if_true, groupLine, if_neg other]
  rcases read with read | ⟨text, read⟩ <;> rw [read]

end Assembly

namespace Growth

variable (first : UInt32)

theorem length_blocks_push (growth : Growth) (row : Grove) :
    ((growth.push row).assembly first).blocks.length = (growth.assembly first).blocks.length := by
  have length (growth : Growth) : (growth.assembly first).blocks.length = growth.levels.length :=
    length_blocks first growth.base .nil growth.levels
  rw [length, length, length_levels_push]

theorem note_assembly_push (growth : Growth) (row : Grove) :
    ((growth.push row).assembly first).note = growth.note :=
  note_push growth row

theorem turn_closeBlock {growth : Growth} {number : Nat} {line : List Char}
    (free : growth.note = none) (inside : growth.levels ≠ []) (last : line = "end".toList) :
    Assembly.Turn number line (growth.assembly first) ((growth.closeBlock number).assembly first)
      .blockEnd := by
  have starts : ((growth.closeBlock number).assembly first).startsAt number =
      (growth.assembly first).startsAt number := by
    have note : ((growth.closeBlock number).assembly first).note = (growth.assembly first).note :=
      note_closeBlock growth number
    rw [Assembly.startsAt, record_closeBlock, note, Assembly.startsAt]
  cases blocks : (growth.assembly first).blocks with
  | nil =>
    have none := congrArg List.length blocks
    rw [show (growth.assembly first).blocks.length = growth.levels.length from
      length_blocks first growth.base .nil growth.levels] at none
    exact absurd (List.length_eq_zero_iff.1 none) inside
  | cons block outer =>
    have bound := slot_lt_size first (blocks ▸ List.mem_cons_self)
    have closed := slot_not_mem_outer first blocks
    rw [← closeBlock_assembly] at starts ⊢
    have result : (growth.assembly first).closeBlock number =
        { growth.assembly first with
          nodes := (growth.assembly first).nodes.setIfInBounds block.slot
            ⟨NodeId.offset first block.slot, block.line, number, block.body.element⟩
          blocks := outer } := by
      rw [Assembly.closeBlock, blocks]
      rfl
    refine .blockEnd free starts last block ?_ ?_ ?_
    · rw [blocks, result]
    · rw [result]
      exact Array.getElem?_setIfInBounds_self_of_lt bound
    · rwa [result]

theorem turn_clause {growth : Growth} {number : Nat} {line : List Char} {clause : ElseClause}
    (free : growth.note = none) (inside : growth.inFragment = true)
    (read : ElseClause.readHead? line = some clause) :
    Assembly.Turn number line (growth.assembly first)
      ((growth.push (.mark clause .nil)).assembly first) .elseClause := by
  have starts : ((growth.push (.mark clause .nil)).assembly first).startsAt number =
      (growth.assembly first).startsAt number := by
    rw [Assembly.startsAt, record_push_mark, note_assembly_push, Assembly.startsAt]
    rfl
  have added := addClause_assembly first growth clause
  obtain ⟨base, levels, note⟩ := growth
  cases levels with
  | nil => contradiction
  | cons level outer =>
    obtain ⟨opened, body, row⟩ := level
    cases body with
    | group g => contradiction
    | fragment f =>
      exact .elseClause free starts _ _ _ _ clause read rfl (added _ _ _ _ rfl).symm

theorem turn_closeNote {growth : Growth} {number : Nat} {note : OpenNote} (line : List Char)
    (inside : growth.note = some note) :
    Assembly.Turn number line (growth.assembly first)
      (({ growth with note := none }.push (.leaf ⟨note.complete, note.line, number⟩) :
        Growth).assembly first) .noteText := by
  let freed : Growth := { growth with note := none }
  have kept : (growth.assembly first).note = some note := inside
  have free := note_assembly_push first freed (.leaf ⟨note.complete, note.line, number⟩)
  have record := @record_push_leaf first freed ⟨note.complete, note.line, number⟩ rfl rfl
  refine .noteText (by simp [kept]) ?_ (Nat.le_of_eq (length_blocks_push first freed _).symm) ?_
  · rw [Assembly.startsAt, record, free, List.countP_append, Assembly.startsAt, kept]
    simp [Seed.startsAt, OpenNote.complete, Element.isReport, List.countP_singleton, freed]
    rfl
  · rw [free, kept]
    exact (Option.some_ne_none note).symm

theorem turn_reads {growth growth' : Growth} {number : Nat} {line : List Char}
    (reads : Reads number line growth growth') :
    ∃ fate, Assembly.Turn number line (growth.assembly first) (growth'.assembly first) fate := by
  have longer {before after : Assembly} {element : Element}
      (record : after.record = before.record ++ [⟨element, number, number⟩]) :
      after.record ≠ before.record := by
    rw [record]
    exact fun same => List.cons_ne_nil _ _ (List.append_right_eq_self.1 same)
  cases reads with
  | leaf element free read place =>
    have record := @record_push_leaf first growth ⟨element, number, number⟩ read.bare read.isBlock
    have starts := Assembly.startsAt_of_entry read.isReport (note_push growth _) record
    have depth := Nat.le_of_eq (length_blocks_push first growth
      (.leaf ⟨element, number, number⟩)).symm
    exact ⟨_, .node free starts depth (.inl (longer record))⟩
  | openNote n free outside read block =>
    have kept : (growth.assembly first).note = none := free
    refine ⟨_, .node free ?_ (Nat.le_refl _) (.inr ?_)⟩
    · rw [Assembly.startsAt, Assembly.startsAt, kept]
      simp [assembly, Assembly.record]
    · rw [kept]
      exact Option.some_ne_none _
  | noteText note inside more =>
    have kept : (growth.assembly first).note = some note := inside
    refine ⟨_, .noteText (by simp [kept]) ?_ (Nat.le_refl _) ?_⟩
    · rw [Assembly.startsAt, Assembly.startsAt, kept]
      rfl
    · rw [kept]
      intro same
      have texts := congrArg OpenNote.text (Option.some.inj same)
      exact List.cons_ne_self _ _ texts
  | closeNote note inside last => exact ⟨_, turn_closeNote first line inside⟩
  | openBlock body free read place =>
    have record := record_openBlock first growth number body
    have plain : body.element.bare.isReport = false := by cases body <;> rfl
    have depth : (growth.assembly first).blocks.length ≤
        ((growth.openBlock number body).assembly first).blocks.length := by
      simp [assembly, openBlock, length_blocks]
    have note : ((growth.openBlock number body).assembly first).note =
        (growth.assembly first).note := rfl
    have starts := Assembly.startsAt_of_entry plain note record
    exact ⟨_, .node free starts depth (.inl (longer record))⟩
  | clause clause free inside read => exact ⟨_, turn_clause first free inside read⟩
  | closeBlock free inside last => exact ⟨_, turn_closeBlock first free inside last⟩
  | skip free inside read =>
    exact ⟨_, .unseen free ((inGroup_assembly first growth).trans inside) read rfl⟩

theorem settles_run {lines : List (List Char)} {last : Nat} {growth : Growth}
    (h : growth.IsSound last) (tidy : ∀ line ∈ lines, Text.IsTidy line) :
    Assembly.Settles last (growth.assembly first)
      (((growth.assembly first).run (lines.zipIdx (last + 1))).finish (last + lines.length)) := by
  induction lines generalizing last growth with
  | nil => exact settles_finish first h
  | cons line lines ih =>
    obtain ⟨next, reads, step⟩ := reads_step first growth (last + 1) line h.proper.note
    have sound := h.reads (Nat.lt_succ_self last) (tidy line List.mem_cons_self) reads
    have settled := (records_reads first h reads).settles (Nat.lt_succ_self last)
    have settles := ih sound fun other mem => tidy other (List.mem_cons_of_mem _ mem)
    rw [← step] at settled settles
    rw [List.length_cons, Nat.add_comm lines.length, ← Nat.add_assoc]
    exact settled.trans settles (Nat.le_succ last)

end Growth

namespace Document

structure Shows (first : UInt32) (text : String) (count : Nat) (line : List Char)
    (before after : Assembly) : Prop where
  turn : ∃ fate, Assembly.Turn (count + 1) line before after fate
  step : after = before.step (count + 1) line
  origin : after.first = first
  outside : before.note ≠ none → before.inGroup = false
  unbegun : before.startsAt (count + 1) = 0
  starts : (readFrom first text).nodes.countP (fun node =>
    !node.element.isReport && node.lineStart = count + 1) = after.startsAt (count + 1)
  runs : (∃ node ∈ (readFrom first text).nodes, node.element.isBlockNote = true ∧
    node.lineStart < count + 1 ∧ count + 1 ≤ node.lineEnd) ↔ before.note ≠ none
  kept : ∀ slot node, after.nodes[slot]? = some node →
    slot ∉ after.blocks.map OpenBlock.slot → (readFrom first text).nodes[slot]? = some node

theorem countP_starting (nodes : List Node) (k : Nat) :
    nodes.countP (fun node => !node.element.isReport && node.lineStart = k) =
      (nodes.map Node.entered).countP (Seed.startsAt k) := by
  rw [List.countP_map]
  refine List.countP_congr fun node _ => ?_
  rw [Function.comp_apply, Seed.startsAt, Node.entered, Element.isReport_bare]

theorem exists_blockNote_iff (nodes : List Node) (k : Nat) :
    (∃ node ∈ nodes, node.element.isBlockNote = true ∧ node.lineStart < k ∧ k ≤ node.lineEnd) ↔
      ∃ seed ∈ nodes.map Node.entered, seed.runsOver k := by
  have entered (node : Node) : node.entered.runsOver k ↔
      node.element.isBlockNote = true ∧ node.lineStart < k ∧ k ≤ node.lineEnd := by
    obtain ⟨id, lineStart, lineEnd, element⟩ := node
    cases element <;>
      simp [Seed.runsOver, Node.entered, Element.bare, Element.isBlockNote, Element.isBlock]
  constructor
  · rintro ⟨node, mem, runs⟩
    exact ⟨node.entered, List.mem_map_of_mem mem, (entered node).2 runs⟩
  · rintro ⟨seed, mem, runs⟩
    obtain ⟨node, inside, rfl⟩ := List.mem_map.1 mem
    exact ⟨node, inside, (entered node).1 runs⟩

/-- How the line behind the first `count` of a text is read: what has grown before it and with it,
and the lines `back` that are still to be read. -/
structure ReadsLine (first : UInt32) (text : String) (count : Nat) (line : List Char)
    (growth next : Growth) (back : List (List Char)) : Prop where
  reads : Growth.Reads (count + 1) line growth next
  before : stateAfter first text count = growth.assembly first
  after : stateAfter first text (count + 1) = next.assembly first
  step : (growth.assembly first).step (count + 1) line = next.assembly first
  sound : growth.IsSound count
  sound' : next.IsSound (count + 1)
  tidy : ∀ other ∈ back, Text.IsTidy other
  final : finalState first text =
    ((next.assembly first).run (back.zipIdx (count + 1 + 1))).finish (count + 1 + back.length)

theorem stateAfter_succ (first : UInt32) (text : String) {count : Nat} {line : List Char}
    (h : ((Text.lines text.toList).map Text.trim)[count]? = some line) :
    stateAfter first text (count + 1) = (stateAfter first text count).step (count + 1) line := by
  have numbered : (Text.numberedLines text.toList)[count]? = some (line, count + 1) := by
    rw [Text.numberedLines, List.getElem?_zipIdx, h, Option.map_some, Nat.add_comm]
  rw [stateAfter, List.take_add_one, numbered, Assembly.run, List.foldl_append]
  rfl

theorem exists_readsLine (first : UInt32) (text : String) {count : Nat} {line : List Char}
    (h : ((Text.lines text.toList).map Text.trim)[count]? = some line) :
    ∃ growth next back, ReadsLine first text count line growth next back := by
  obtain ⟨bound, found⟩ := List.getElem?_eq_some_iff.1 h
  obtain ⟨growth, lines, behind, sound, tidy, before, final⟩ :=
    exists_growth first text (Nat.le_of_lt (by simpa using bound))
  rw [List.drop_eq_getElem_cons bound, found] at behind
  generalize ((Text.lines text.toList).map Text.trim).drop (count + 1) = back at behind
  subst behind
  obtain ⟨next, reads, step⟩ := Growth.reads_step first growth (count + 1) line sound.proper.note
  have after := stateAfter_succ first text h
  rw [before, step] at after
  refine ⟨growth, next, back, reads, before, after, step, sound,
    sound.reads (Nat.lt_succ_self count) (tidy line List.mem_cons_self) reads,
    fun other mem => tidy other (List.mem_cons_of_mem line mem), ?_⟩
  rw [final, ← step, List.length_cons, Nat.add_comm back.length, ← Nat.add_assoc]
  rfl

theorem past_stateAfter (first : UInt32) (text : String) {count : Nat}
    (le : count ≤ (Text.lines text.toList).length) : (stateAfter first text count).Past count := by
  induction count with
  | zero =>
    exact ⟨by simp [stateAfter, Assembly.run, Assembly.record],
      by simp [stateAfter, Assembly.run]⟩
  | succ count ih =>
    have bound : count < ((Text.lines text.toList).map Text.trim).length := by
      simpa using Nat.lt_of_succ_le le
    obtain ⟨growth, next, back, line⟩ :=
      exists_readsLine first text (List.getElem?_eq_getElem bound)
    have past := ih (Nat.le_of_succ_le le)
    rw [line.before] at past
    rw [line.after]
    exact past.records (Nat.le_succ count) (Growth.records_reads first line.sound line.reads)

theorem shows_line (first : UInt32) (text : String) {count : Nat} {line : List Char}
    (h : ((Text.lines text.toList).map Text.trim)[count]? = some line) :
    Shows first text count line (stateAfter first text count)
      (stateAfter first text (count + 1)) := by
  have past := past_stateAfter first text (Nat.le_of_lt (by
    simpa using (List.getElem?_eq_some_iff.1 h).1))
  obtain ⟨growth, next, back, line⟩ := exists_readsLine first text h
  have settles := Growth.settles_run first line.sound' line.tidy
  have develops := Growth.develops_run first line.sound' line.tidy
  rw [← line.final] at settles develops
  have ended : (finalState first text).note = none := by
    obtain ⟨grove, -, -, -, final⟩ := exists_finalState first text
    exact congrArg Assembly.note final
  have record : (readFrom first text).nodes.map Node.entered = (finalState first text).record := rfl
  rw [line.before] at past ⊢
  rw [line.after]
  refine ⟨Growth.turn_reads first line.reads, line.step.symm, rfl,
    fun inside => (Growth.inGroup_assembly first growth).trans (line.sound.proper.note inside),
    past.startsAt_eq_zero (Nat.lt_succ_self count), ?_, ?_, ?_⟩
  · rw [countP_starting, record, ← settles.starts (count + 1) (Nat.le_refl _), Assembly.startsAt,
      ended]
    rfl
  · rw [exists_blockNote_iff, record, ← past.runsOver_iff (Nat.lt_succ_self count),
      ← (Growth.records_reads first line.sound line.reads).runsOver (Nat.le_refl _),
      ← settles.runs (count + 1) (Nat.le_refl _), Assembly.runsOver, ended]
    simp
  · intro slot node found closed
    rw [nodes_readFrom, Array.getElem?_toList]
    exact (develops.closed slot node found closed).1

end Document

/-- What must be seen of a line, in the document and in the states around it, for a fate to be the
line's own. -/
def LineFate.Holds (first : UInt32) (text : String) (number : Nat) (line : List Char) :
    LineFate → Prop :=
  let before := Document.stateAfter first text (number - 1)
  let after := Document.stateAfter first text number
  let nodes := (Document.readFrom first text).nodes
  fun
  | .node => nodes.countP (fun node => !node.element.isReport && node.lineStart = number) = 1
  | .blockEnd => line = "end".toList ∧ ∃ block, before.blocks = block :: after.blocks ∧
      nodes[block.slot]? =
        some ⟨NodeId.offset first block.slot, block.line, number, block.body.element⟩
  | .elseClause => ∃ clause slot opened f outer, ElseClause.readHead? line = some clause ∧
      before.blocks = ⟨slot, opened, .fragment f⟩ :: outer ∧
      after = { before with blocks := ⟨slot, opened, .fragment (f.addClause clause)⟩ :: outer }
  | .noteText => ∃ node ∈ nodes, node.element.isBlockNote = true ∧ node.lineStart < number ∧
      number ≤ node.lineEnd
  | .unseen => (Line.read line = .blank ∨ ∃ text, Line.read line = .comment text) ∧
      before.inGroup = true

namespace LineFate

variable {first : UInt32} {text : String} {count : Nat} {line : List Char} {fate : LineFate}

theorem holds_of_turn {before after : Assembly}
    (hbefore : Document.stateAfter first text count = before)
    (hafter : Document.stateAfter first text (count + 1) = after)
    (shows : Document.Shows first text count line before after)
    (turn : Assembly.Turn (count + 1) line before after fate) :
    fate.Holds first text (count + 1) line := by
  have starts := shows.starts
  rw [Holds, Nat.add_sub_cancel, hbefore, hafter]
  cases turn with
  | node free starts' depth new => rw [starts, starts', shows.unbegun]
  | blockEnd free starts last block blocks node closed =>
    have kept := shows.kept block.slot _ node closed
    rw [shows.origin] at kept
    exact ⟨last, block, blocks, kept⟩
  | elseClause free starts slot opened f outer clause read blocks added =>
    exact ⟨clause, slot, opened, f, outer, read, blocks, added⟩
  | noteText inside starts depth new => exact shows.runs.2 inside
  | unseen free inside read same => exact ⟨read, inside⟩

theorem eq_of_holds {before after : Assembly}
    (hbefore : Document.stateAfter first text count = before)
    (hafter : Document.stateAfter first text (count + 1) = after)
    (shows : Document.Shows first text count line before after)
    (turn : Assembly.Turn (count + 1) line before after fate) {fate' : LineFate}
    (holds : fate'.Holds first text (count + 1) line) : fate = fate' := by
  rw [Holds, Nat.add_sub_cancel, hbefore, hafter] at holds
  cases fate' with
  | node => exact turn.eq_node shows.unbegun (shows.starts ▸ holds)
  | blockEnd =>
    obtain ⟨-, block, blocks, -⟩ := holds
    exact turn.eq_blockEnd (by simp [blocks])
  | elseClause =>
    obtain ⟨clause, slot, opened, f, outer, -, blocks, added⟩ := holds
    exact turn.eq_elseClause blocks added
  | noteText => exact turn.eq_noteText (shows.runs.1 holds)
  | unseen =>
    obtain ⟨read, inside⟩ := holds
    have free : before.note = none := Decidable.not_not.1 fun open' =>
      Bool.false_ne_true ((shows.outside open').symm.trans inside)
    have same := shows.step.trans (Assembly.step_unseen read inside free (count + 1))
    exact turn.eq_unseen free inside same

end LineFate

namespace Document

/-- Every line comes to exactly one fate, and what is still open at the end of the text is
reported once each and nothing else is. -/
theorem lines_accounted_for (first : UInt32) (text : String) :
    (∀ i : Fin (Text.lines text.toList).length,
      ∃! fate : LineFate,
        fate.Holds first text (i.val + 1) (Text.trim (Text.lines text.toList)[i])) ∧
    (readFrom first text).reports.map Node.element =
      (stateAfter first text (Text.lines text.toList).length).dueReports := by
  constructor
  · intro i
    have shows := @shows_line first text i.val (Text.trim (Text.lines text.toList)[i]) (by simp)
    obtain ⟨fate, turn⟩ := shows.turn
    exact ⟨fate, LineFate.holds_of_turn rfl rfl shows turn, fun fate' holds =>
      (LineFate.eq_of_holds rfl rfl shows turn holds).symm⟩
  · have whole : stateAfter first text (Text.lines text.toList).length = stateAtEnd first text := by
      rw [stateAfter, List.take_of_length_le (by simp [Text.numberedLines]), stateAtEnd]
    rw [whole, reports_readFrom]

end Document

end SequenceDiagram
