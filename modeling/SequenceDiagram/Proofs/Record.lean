import SequenceDiagram.Proofs.Planting

set_option autoImplicit false

namespace SequenceDiagram

namespace Element

def isBlock : Element → Bool
  | .fragment _ | .group _ => true
  | .participant _ | .message _ | .note _ | .divider _ | .comment _ | .blankLine | .directive _
  | .error _ => false

/-- An error about a block or a note that is never closed. -/
def isReport : Element → Bool
  | .error fault => fault.kind = .unterminatedBlock
  | .participant _ | .message _ | .fragment _ | .group _ | .note _ | .divider _ | .comment _
  | .blankLine | .directive _ => false

theorem isReport_bare (element : Element) : element.bare.isReport = element.isReport := by
  cases element <;> rfl

theorem bare_of_isReport {element : Element} (h : element.isReport = true) :
    element.bare = element := by
  cases element <;> first | rfl | contradiction

theorem IsLine.isReport {line : List Char} {element : Element} (h : element.IsLine line) :
    element.isReport = false := by
  cases h <;> rfl

theorem IsLine.isBlock {line : List Char} {element : Element} (h : element.IsLine line) :
    element.isBlock = false := by
  cases h <;> rfl

theorem IsLine.bare {line : List Char} {element : Element} (h : element.IsLine line) :
    element.bare = element := by
  cases h <;> rfl

end Element

def OpenBlock.report (block : OpenBlock) : Element :=
  SyntaxFault.unterminatedBlock block.body.keyword block.line

def OpenNote.report (note : OpenNote) : Element :=
  SyntaxFault.unterminatedNote note.head.kind note.line

/-- What is put on record of a node: a block with no line but its first. -/
def Node.entered (node : Node) : Seed :=
  ⟨node.element.bare, node.lineStart,
    if node.element.isBlock then node.lineStart else node.lineEnd⟩

def Level.report (level : Level) : Element :=
  SyntaxFault.unterminatedBlock level.body.keyword level.line

def Document.reports (document : Document) : List Node :=
  document.nodes.filter fun node => node.element.isReport

namespace Assembly

/-- The reports that would be due if the text ended here. -/
def dueReports (assembly : Assembly) : List Element :=
  assembly.note.toList.map OpenNote.report ++ assembly.blocks.map OpenBlock.report

def record (assembly : Assembly) : List Seed :=
  assembly.nodes.toList.map Node.entered

def lastEntries (assembly : Assembly) (last : Nat) : List Seed :=
  assembly.note.toList.map (fun note => ⟨note.complete, note.line, last⟩) ++
    assembly.dueReports.map fun report => ⟨report, last, last⟩

inductive Records (number : Nat) (before after : Assembly) : Prop
  | same (record : after.record = before.record) (note : after.note = before.note)
  | entry (element : Element) (plain : element.isReport = false) (free : before.note = none)
      (free' : after.note = none)
      (record : after.record = before.record ++ [⟨element, number, number⟩])
  | openNote (n : Note) (block : n.block = true) (free : before.note = none)
      (note : after.note = some ⟨number, n, []⟩) (record : after.record = before.record)
  | noteText (note : OpenNote) (line : List Char) (inside : before.note = some note)
      (more : after.note = some { note with text := line :: note.text })
      (record : after.record = before.record)
  | closeNote (note : OpenNote) (block : note.head.block = true) (inside : before.note = some note)
      (free : after.note = none)
      (record : after.record = before.record ++ [⟨note.complete, note.line, number⟩])

end Assembly

namespace Growth

variable (first : UInt32)

theorem record_push_leaf (growth : Growth) {seed : Seed} (bare : seed.element.bare = seed.element)
    (leaf : seed.element.isBlock = false) :
    ((growth.push (.leaf seed)).assembly first).record =
      (growth.assembly first).record ++ [seed] := by
  obtain ⟨element, lineStart, lineEnd⟩ := seed
  rw [assembly_push, Grove.plant_leaf]
  simp [Assembly.record, assembly, Node.entered, show element.bare = element from bare,
    show element.isBlock = false from leaf]

theorem record_push_mark (growth : Growth) (clause : ElseClause) :
    ((growth.push (.mark clause .nil)).assembly first).record = (growth.assembly first).record := by
  rw [assembly_push]
  simp [Assembly.record, assembly, Grove.plant]

theorem record_openBlock (growth : Growth) (line : Nat) (body : BlockBody) :
    ((growth.openBlock line body).assembly first).record =
      (growth.assembly first).record ++ [⟨body.element.bare, line, line⟩] := by
  simp [Assembly.record, assembly, openBlock, nodes, Grove.plant, Node.entered]

/-- Closing a block gives it its children and its last line, and neither is on record. -/
theorem record_closeBlock (growth : Growth) (lineEnd : Nat) :
    ((growth.closeBlock lineEnd).assembly first).record = (growth.assembly first).record := by
  obtain ⟨base, levels, note⟩ := growth
  cases levels with
  | nil => rfl
  | cons level outer =>
    have head : Node.entered ⟨NodeId.offset first (taken base outer), level.line, lineEnd,
        Grove.fill first level.body.element (taken base outer + 1) level.row⟩ =
        Node.entered ⟨NodeId.offset first (taken base outer), level.line, level.line,
          level.body.element⟩ := by
      have same := Grove.bare_fill first level.body.element (taken base outer + 1) level.row
      have blocks : (Grove.fill first level.body.element (taken base outer + 1)
          level.row).isBlock = true := by cases level.body <;> rfl
      have block : level.body.element.isBlock = true := by cases level.body <;> rfl
      simp only [Node.entered, same, blocks, block, if_true]
    rw [closeBlock, assembly_push]
    simp [Assembly.record, assembly, nodes, Level.close, Grove.plant, head, Forest.append_nil]

theorem records_reads {number : Nat} {line : List Char} {growth growth' : Growth} {last : Nat}
    (h : growth.IsSound last) (reads : Reads number line growth growth') :
    Assembly.Records number (growth.assembly first) (growth'.assembly first) := by
  have free_push (row : Grove) (free : growth.note = none) :
      ((growth.push row).assembly first).note = none := (note_push growth row).trans free
  cases reads with
  | leaf element free read place =>
    exact .entry element read.isReport free (free_push _ free)
      (record_push_leaf first growth read.bare read.isBlock)
  | openNote n free outside read block => exact .openNote n block free rfl rfl
  | noteText note inside more => exact .noteText note line inside rfl rfl
  | closeNote note inside last =>
    obtain ⟨head, tidy, read, block, text⟩ := h.read.note note inside
    exact .closeNote note block inside (note_push { growth with note := none } _)
      (record_push_leaf first { growth with note := none } rfl rfl)
  | openBlock body free read place =>
    have plain : body.element.bare.isReport = false := by cases body <;> rfl
    exact .entry _ plain free free (record_openBlock first growth number body)
  | clause clause free inside read =>
    exact .same (record_push_mark first growth clause) (note_push growth _)
  | closeBlock free inside last =>
    exact .same (record_closeBlock first growth number) (note_closeBlock growth number)
  | skip free inside read => exact .same rfl rfl

theorem reports_blocks (base tail : Grove) (levels : List Level) :
    (blocks first base tail levels).map OpenBlock.report = levels.map Level.report := by
  induction levels generalizing tail with
  | nil => rfl
  | cons level outer ih =>
    simp [blocks, OpenBlock.report, Level.report, BlockBody.keyword_fill, ih]

theorem reports_push (growth : Growth) (row : Grove) :
    (growth.push row).levels.map Level.report = growth.levels.map Level.report := by
  obtain ⟨base, levels, note⟩ := growth
  cases levels <;> rfl

theorem record_abandonNote (growth : Growth) (outside : growth.note ≠ none → growth.inGroup = false)
    (last : Nat) :
    ∃ growth' : Growth, (growth.assembly first).abandonNote last = growth'.assembly first ∧
      growth'.levels.map Level.report = growth.levels.map Level.report ∧
      (growth'.assembly first).record = (growth.assembly first).record ++
        (growth.note.toList.map (fun note => ⟨note.complete, note.line, last⟩) ++
          (growth.note.toList.map OpenNote.report).map fun report => ⟨report, last, last⟩) := by
  cases inside : growth.note with
  | none =>
    have free : (growth.assembly first).note = none := inside
    exact ⟨growth, by rw [Assembly.abandonNote, free], rfl, by simp⟩
  | some note =>
    let freed : Growth := { growth with note := none }
    refine ⟨_, abandonNote_assembly first inside (outside (by simp [inside])) last, ?_, ?_⟩
    · rw [reports_push, reports_push]
    · rw [record_push_leaf first _ rfl rfl, record_push_leaf first freed rfl rfl]
      simp [freed, OpenNote.report, Assembly.record, assembly]

theorem record_abandonBlocks {growth : Growth} {count : Nat} (all : growth.levels.length = count)
    (last : Nat) :
    (Assembly.abandonBlocks last count (growth.assembly first)).record =
      (growth.assembly first).record ++
        (growth.levels.map Level.report).map fun report => ⟨report, last, last⟩ := by
  induction count generalizing growth with
  | zero => simp [List.length_eq_zero_iff.1 all, Assembly.abandonBlocks]
  | succ count ih =>
    obtain ⟨base, levels, note⟩ := growth
    cases levels with
    | nil => contradiction
    | cons level outer =>
      let growth : Growth := ⟨base, level :: outer, note⟩
      let closed := growth.closeBlock last
      let reported := closed.push (.leaf ⟨level.report, last, last⟩)
      have due : reported.levels.map Level.report = outer.map Level.report := by
        rw [reports_push]
        exact reports_push ⟨base, outer, note⟩ _
      have fewer : reported.levels.length = count := by
        have same := congrArg List.length due
        simpa using same.trans (by simpa using all)
      rw [Assembly.abandonBlocks, abandonBlock_assembly]
      refine (ih fewer).trans ?_
      rw [due, record_push_leaf first closed rfl rfl, record_closeBlock first growth last]
      simp [growth]

/-- The end of the text adds the open note, and a report for it and for each open block. -/
theorem record_finish (growth : Growth) (outside : growth.note ≠ none → growth.inGroup = false)
    (last : Nat) :
    ((growth.assembly first).finish last).record =
      (growth.assembly first).record ++ (growth.assembly first).lastEntries last := by
  obtain ⟨settled, same, due, record⟩ := record_abandonNote first growth outside last
  have length : (settled.assembly first).blocks.length = settled.levels.length :=
    length_blocks first settled.base .nil settled.levels
  have reports : (growth.assembly first).blocks.map OpenBlock.report =
      growth.levels.map Level.report := reports_blocks first growth.base .nil growth.levels
  simp only [Assembly.finish, same, length]
  rw [record_abandonBlocks first rfl, record, due, Assembly.lastEntries, Assembly.dueReports,
    reports, List.map_append, List.append_assoc, List.append_assoc]
  rfl

end Growth

theorem Document.map_element_reports (nodes : List Node) :
    (Document.mk nodes).reports.map Node.element =
      ((nodes.map Node.entered).filter fun seed => seed.element.isReport).map Seed.element := by
  induction nodes with
  | nil => rfl
  | cons node nodes ih =>
    rw [Document.reports] at ih ⊢
    have kept : node.entered.element.isReport = node.element.isReport :=
      Element.isReport_bare node.element
    rw [List.map_cons, List.filter_cons, List.filter_cons, kept]
    split
    · rename_i report
      rw [List.map_cons, List.map_cons, ih]
      exact congrArg (· :: _) (Element.bare_of_isReport report).symm
    · exact ih

namespace Assembly

theorem isReport_of_mem_dueReports {assembly : Assembly} {element : Element}
    (h : element ∈ assembly.dueReports) : element.isReport = true := by
  rw [dueReports, List.mem_append, List.mem_map, List.mem_map] at h
  rcases h with ⟨note, -, rfl⟩ | ⟨block, -, rfl⟩ <;> rfl

theorem filter_lastEntries (assembly : Assembly) (last : Nat) :
    ((assembly.lastEntries last).filter fun seed => seed.element.isReport).map Seed.element =
      assembly.dueReports := by
  have notes : (assembly.note.toList.map fun note : OpenNote =>
      (⟨note.complete, note.line, last⟩ : Seed)).filter (fun seed => seed.element.isReport) = [] :=
    List.filter_eq_nil_iff.2 fun seed mem => by
      obtain ⟨note, -, rfl⟩ := List.mem_map.1 mem
      simp [OpenNote.complete, Element.isReport]
  have reports : (assembly.dueReports.map fun report => (⟨report, last, last⟩ : Seed)).filter
      (fun seed => seed.element.isReport) =
      assembly.dueReports.map fun report => ⟨report, last, last⟩ :=
    List.filter_eq_self.2 fun seed mem => by
      obtain ⟨report, due, rfl⟩ := List.mem_map.1 mem
      exact isReport_of_mem_dueReports due
  rw [lastEntries, List.filter_append, notes, reports, List.nil_append, List.map_map]
  exact List.map_id' _

end Assembly

/-- No line leaves a report. -/
theorem Assembly.Records.no_reports {number : Nat} {before after : Assembly}
    (h : Records number before after)
    (none : ∀ seed ∈ before.record, seed.element.isReport = false) :
    ∀ seed ∈ after.record, seed.element.isReport = false := by
  have added (entry : Seed) (plain : entry.element.isReport = false) :
      ∀ seed ∈ before.record ++ [entry], seed.element.isReport = false := by
    intro seed mem
    rcases List.mem_append.1 mem with mem | mem
    · exact none seed mem
    · rw [List.mem_singleton.1 mem, plain]
  cases h with
  | same record note => exact record ▸ none
  | entry element plain free free' record => exact record ▸ added _ plain
  | openNote n block free note record => exact record ▸ none
  | noteText note line inside more record => exact record ▸ none
  | closeNote note block inside free record => exact record ▸ added _ rfl

namespace Growth

theorem no_reports_run (first : UInt32) {lines : List (List Char)} {last : Nat} {growth : Growth}
    (h : growth.IsSound last) (tidy : ∀ line ∈ lines, Text.IsTidy line)
    (none : ∀ seed ∈ (growth.assembly first).record, seed.element.isReport = false) :
    ∀ seed ∈ ((growth.assembly first).run (lines.zipIdx (last + 1))).record,
      seed.element.isReport = false := by
  induction lines generalizing last growth with
  | nil => exact none
  | cons line lines ih =>
    obtain ⟨next, reads, step⟩ := reads_step first growth (last + 1) line h.proper.note
    have sound := h.reads (Nat.lt_succ_self last) (tidy line List.mem_cons_self) reads
    have later := ih sound (fun other mem => tidy other (List.mem_cons_of_mem _ mem))
      ((records_reads first h reads).no_reports none)
    rw [← step] at later
    exact later

end Growth

namespace Document

def stateAtEnd (first : UInt32) (text : String) : Assembly :=
  Assembly.run { first } (Text.numberedLines text.toList)

/-- One report for the note and for each block that is open at the end, and no other. -/
theorem reports_readFrom (first : UInt32) (text : String) :
    (readFrom first text).reports.map Node.element = (stateAtEnd first text).dueReports := by
  let count := (Text.numberedLines text.toList).length
  have tidy := @Text.isTidy_of_mem_lines text.toList
  have none := Growth.no_reports_run first Growth.isSound_start tidy
    (by simp [Growth.assembly_start, Assembly.record])
  obtain ⟨growth, sound, run⟩ := Growth.sound_run first Growth.isSound_start tidy
  have state : stateAtEnd first text = growth.assembly first := run
  have record := Growth.record_finish first growth sound.proper.note count
  have lines : ((growth.assembly first).record).filter (fun seed => seed.element.isReport) = [] :=
    List.filter_eq_nil_iff.2 fun seed mem => by
      rw [← run] at mem
      simp [none seed mem]
  have nodes : (readFrom first text).nodes.map Node.entered =
      ((growth.assembly first).finish count).record := by
    rw [← state]
    rfl
  rw [map_element_reports, nodes, record, List.filter_append, lines, List.nil_append,
    Assembly.filter_lastEntries, state]

end Document

end SequenceDiagram
