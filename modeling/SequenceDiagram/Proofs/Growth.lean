import SequenceDiagram.Proofs.Grove

set_option autoImplicit false

/-!
# Growths

A growth is a grove whose last branch is still open: the row at the bottom, the open blocks with
the rows that stand in them so far, and an open note. It determines the assembly that reading
has arrived at, and each operation of an assembly puts one tree into the innermost row, opens a
row or folds one into the row around it.
-/
namespace SequenceDiagram

namespace BlockBody

def isGroup : BlockBody → Bool
  | .fragment _ => false
  | .group _ => true

def fill (first : UInt32) (body : BlockBody) (slot : Nat) (row : Grove) : BlockBody :=
  match body with
  | .fragment f => .fragment (Grove.fillFragment first f slot row)
  | .group g => .group (Grove.fillGroup first g slot row)

theorem element_fill (first : UInt32) (body : BlockBody) (slot : Nat) (row : Grove) :
    (body.fill first slot row).element = Grove.fill first body.element slot row := by
  cases body <;> rfl

theorem keyword_fill (first : UInt32) (body : BlockBody) (slot : Nat) (row : Grove) :
    (body.fill first slot row).keyword = body.keyword := by
  cases body with
  | fragment f =>
    have kept := congrArg Fragment.type (Grove.bare_fillFragment first f slot row)
    exact congrArg FragmentType.keyword kept
  | group g => rfl

end BlockBody

structure Level where
  line : Nat
  body : BlockBody
  row : Grove
deriving DecidableEq, Repr

namespace Level

/-- The block as it would be if it ended at `lineEnd`, with `tail` behind its row. -/
def close (level : Level) (lineEnd : Nat) (tail : Grove) : Grove :=
  .tree ⟨level.body.element, level.line, lineEnd⟩ (level.row.append tail) .nil

end Level

structure Growth where
  base : Grove
  /-- Open blocks, the innermost first. -/
  levels : List Level
  note : Option OpenNote
deriving DecidableEq, Repr

namespace Growth

def taken (base : Grove) : List Level → Nat
  | [] => base.size
  | level :: outer => taken base outer + 1 + level.row.size

section
variable (first : UInt32) (base : Grove)

/-- An open block stands in the arena as its bare head. -/
def nodes : List Level → List Node
  | [] => Grove.plant first 0 base
  | level :: outer =>
    nodes outer ++
      ⟨NodeId.offset first (taken base outer), level.line, level.line, level.body.element⟩ ::
        Grove.plant first (taken base outer + 1) level.row

def blocks (tail : Grove) : List Level → List OpenBlock
  | [] => []
  | level :: outer =>
    ⟨taken base outer, level.line,
      level.body.fill first (taken base outer + 1) (level.row.append tail)⟩ ::
      blocks (level.close level.line tail) outer

end

def assembly (first : UInt32) (growth : Growth) : Assembly where
  first
  nodes := (nodes first growth.base growth.levels).toArray
  blocks := blocks first growth.base .nil growth.levels
  note := growth.note

def start : Growth where
  base := .nil
  levels := []
  note := none

theorem assembly_start (first : UInt32) : start.assembly first = { first } := rfl

def push (growth : Growth) (row : Grove) : Growth :=
  match growth.levels with
  | [] => { growth with base := growth.base.append row }
  | level :: outer => { growth with levels := { level with row := level.row.append row } :: outer }

def openBlock (growth : Growth) (line : Nat) (body : BlockBody) : Growth :=
  { growth with levels := ⟨line, body, .nil⟩ :: growth.levels }

def closeBlock (growth : Growth) (lineEnd : Nat) : Growth :=
  match growth.levels with
  | [] => growth
  | level :: outer => { growth with levels := outer }.push (level.close lineEnd .nil)

def inGroup (growth : Growth) : Bool :=
  match growth.levels with
  | [] => false
  | level :: _ => level.body.isGroup

section
variable (first : UInt32) (base : Grove)

theorem length_nodes (levels : List Level) :
    (nodes first base levels).length = taken base levels := by
  induction levels with
  | nil => exact Grove.length_plant first 0 base
  | cons level outer ih =>
    simp only [nodes, taken, List.length_append, List.length_cons, ih, Grove.length_plant]
    omega

structure Alike (a b : Grove) : Prop where
  fragment : ∀ f slot, Grove.fillFragment first f slot a = Grove.fillFragment first f slot b
  group : ∀ g slot, Grove.fillGroup first g slot a = Grove.fillGroup first g slot b
  strays : ∀ slot, Grove.straySlots slot a = Grove.straySlots slot b

theorem Alike.append_left {first : UInt32} {a b : Grove} (h : Alike first a b) (row : Grove) :
    Alike first (row.append a) (row.append b) where
  fragment f slot := by rw [Grove.fillFragment_append, Grove.fillFragment_append, h.fragment]
  group g slot := by rw [Grove.fillGroup_append, Grove.fillGroup_append, h.group]
  strays slot := by rw [Grove.straySlots_append, Grove.straySlots_append, h.strays]

/-- Of a block at the end of a row only the strays in it can be told apart. -/
theorem Alike.close {first : UInt32} {a b : Grove} (level : Level) (lineEnd lineEnd' : Nat)
    (h : level.body.isGroup = true → ∀ slot, Grove.straySlots slot a = Grove.straySlots slot b) :
    Alike first (level.close lineEnd a) (level.close lineEnd' b) := by
  have strays : level.body.isGroup = true → ∀ slot,
      Grove.straySlots slot (level.row.append a) = Grove.straySlots slot (level.row.append b) := by
    intro hg slot
    rw [Grove.straySlots_append, Grove.straySlots_append, h hg]
  obtain ⟨line, body, row⟩ := level
  cases body with
  | fragment f => exact ⟨fun _ _ => rfl, fun _ _ => rfl, fun _ => rfl⟩
  | group g =>
    have inside := strays rfl
    refine ⟨fun _ slot => ?_, fun _ _ => rfl, fun slot => ?_⟩
    · simp only [Level.close, BlockBody.element, Grove.fillFragment, Grove.sectionSlots, inside]
    · simp only [Level.close, BlockBody.element, Grove.straySlots, inside]

theorem blocks_congr {first : UInt32} {a b : Grove} (h : Alike first a b) (levels : List Level) :
    blocks first base a levels = blocks first base b levels := by
  induction levels generalizing a b with
  | nil => rfl
  | cons level outer ih =>
    have row := h.append_left level.row
    have head (slot : Nat) : level.body.fill first slot (level.row.append a) =
        level.body.fill first slot (level.row.append b) := by
      cases level.body with
      | fragment f => exact congrArg BlockBody.fragment (row.fragment f slot)
      | group g => exact congrArg BlockBody.group (row.group g slot)
    simp only [blocks, head]
    rw [ih (Alike.close level level.line level.line fun _ => h.strays)]

theorem blocks_append (a b : Grove) (level : Level) (outer : List Level) :
    blocks first base b ({ level with row := level.row.append a } :: outer) =
      blocks first base (a.append b) (level :: outer) := by
  simp only [blocks, Level.close, Forest.append_assoc]

/-- Every operation but opening a block comes down to the tail that the blocks then have. -/
theorem assembly_push (growth : Growth) (row : Grove) :
    (growth.push row).assembly first =
      { first
        nodes := (nodes first growth.base growth.levels ++
          Grove.plant first (taken growth.base growth.levels) row).toArray
        blocks := blocks first growth.base row growth.levels
        note := growth.note } := by
  obtain ⟨base, levels, note⟩ := growth
  cases levels with
  | nil => simp [push, assembly, nodes, blocks, taken, Grove.plant_append]
  | cons level outer =>
    simp only [push, assembly, nodes, taken, Grove.plant_append, blocks_append, Forest.append_nil,
      List.cons_append, List.append_assoc]

theorem attach_fragment (id : NodeId) (a b : Grove) (level : Level) (outer : List Level)
    (inside : level.body.isGroup = false)
    (h : ∀ f, Grove.fillFragment first f (taken base (level :: outer)) b =
      (Grove.fillFragment first f (taken base (level :: outer)) a).addEntry id) :
    OpenBlock.attach id (blocks first base a (level :: outer)) =
      blocks first base b (level :: outer) := by
  obtain ⟨line, body, row⟩ := level
  cases body with
  | group g => contradiction
  | fragment f =>
    have outside := blocks_congr base
      (@Alike.close first a b ⟨line, .fragment f, row⟩ line line
        (by intro hg; contradiction)) outer
    simp only [taken] at h
    simp only [blocks, BlockBody.fill, OpenBlock.attach, Grove.fillFragment_append, outside, h]

structure Gains (a b : Grove) : Prop where
  fragment : ∀ f slot, Grove.fillFragment first f slot b =
    (Grove.fillFragment first f slot a).addEntry (NodeId.offset first (slot + a.size))
  group : ∀ g slot, Grove.fillGroup first g slot b = Grove.fillGroup first g slot a
  strays : ∀ slot, Grove.straySlots slot b = Grove.straySlots slot a ++ [slot + a.size]

theorem gains_error (fault : SyntaxFault) (lineStart lineEnd : Nat) :
    Gains first .nil (.leaf ⟨.error fault, lineStart, lineEnd⟩) :=
  ⟨fun _ _ => rfl, fun _ _ => rfl, fun _ => rfl⟩

theorem Gains.close {first : UInt32} {a b : Grove} (h : Gains first a b) (level : Level)
    (inside : level.body.isGroup = true) :
    Gains first (level.close level.line a) (level.close level.line b) := by
  obtain ⟨line, body, row⟩ := level
  cases body with
  | fragment f => contradiction
  | group g =>
    have strays (slot : Nat) : Grove.straySlots slot (row.append b) =
        Grove.straySlots slot (row.append a) ++ [slot + (row.append a).size] := by
      rw [Grove.straySlots_append, Grove.straySlots_append, h.strays, Forest.size_append,
        List.append_assoc, Nat.add_assoc]
    refine ⟨fun f slot => ?_, fun _ _ => rfl, fun slot => ?_⟩
    · simp only [Level.close, BlockBody.element, Grove.fillFragment, Grove.sectionSlots, strays,
        Grove.addSlots, List.foldl_cons, List.foldl_append, List.foldl_nil, Forest.size]
      rw [show slot + 1 + (row.append a).size = slot + (1 + (row.append a).size + 0) by omega]
    · simp only [Level.close, BlockBody.element, Grove.straySlots, strays, List.append_nil,
        Forest.size]
      rw [show slot + 1 + (row.append a).size = slot + (1 + (row.append a).size + 0) by omega]

theorem attach_stray {a b : Grove} (h : Gains first a b) (levels : List Level) :
    OpenBlock.attach (NodeId.offset first (taken base levels + a.size))
      (blocks first base a levels) = blocks first base b levels := by
  induction levels generalizing a b with
  | nil => rfl
  | cons level outer ih =>
    by_cases inside : level.body.isGroup = true
    · have around := ih (h.close level inside)
      have index : taken base outer + (level.close level.line a).size =
          taken base (level :: outer) + a.size := by
        simp only [taken, Level.close, Forest.size, Forest.size_append]
        omega
      rw [index] at around
      obtain ⟨line, body, row⟩ := level
      cases body with
      | fragment f => contradiction
      | group g =>
        simp only [blocks, BlockBody.fill, OpenBlock.attach, Grove.fillGroup_append, h.group]
        rw [around]
    · apply attach_fragment
      · simpa using inside
      · exact fun f => h.fragment f _

theorem nextId_assembly (growth : Growth) :
    (growth.assembly first).nextId =
      NodeId.offset first (taken growth.base growth.levels) := by
  simp only [Assembly.nextId, assembly, List.size_toArray, length_nodes]

theorem attach_leaf (growth : Growth) (seed : Seed)
    (h : growth.inGroup = true → seed.element.isError = true) :
    OpenBlock.attach (NodeId.offset first (taken growth.base growth.levels))
      (blocks first growth.base .nil growth.levels) =
      blocks first growth.base (.leaf seed) growth.levels := by
  obtain ⟨base, levels, note⟩ := growth
  cases levels with
  | nil => rfl
  | cons level outer =>
    by_cases inside : level.body.isGroup = true
    · obtain ⟨element, lineStart, lineEnd⟩ := seed
      have isError : element.isError = true := h inside
      cases element with
      | error fault =>
        exact attach_stray first base (gains_error first fault lineStart lineEnd) (level :: outer)
      | _ => contradiction
    · apply attach_fragment
      · simpa using inside
      · exact fun f => Grove.fillFragment_leaf first f _ seed

theorem emitEntry_assembly (growth : Growth) (lineStart lineEnd : Nat) (element : Element)
    (h : growth.inGroup = true → element.isError = true) :
    (growth.assembly first).emitEntry lineStart lineEnd element =
      (growth.push (.leaf ⟨element, lineStart, lineEnd⟩)).assembly first := by
  have entered := attach_leaf first growth ⟨element, lineStart, lineEnd⟩ h
  rw [assembly_push, ← entered]
  simp only [Assembly.emitEntry, Assembly.emit, nextId_assembly, Grove.plant_leaf]
  simp [assembly]

/-- A declaration in a group is listed by the group. -/
theorem addMember_assembly (growth : Growth) (number : Nat) (p : Participant)
    (h : growth.inGroup = true) :
    { (growth.assembly first).emit number number (.participant p) with
      blocks := Assembly.addMember p.key (growth.assembly first).blocks } =
      (growth.push (.leaf ⟨.participant p, number, number⟩)).assembly first := by
  rw [assembly_push, Assembly.emit, nextId_assembly, Grove.plant_leaf]
  obtain ⟨base, levels, note⟩ := growth
  cases levels with
  | nil => contradiction
  | cons level outer =>
    obtain ⟨line, body, row⟩ := level
    cases body with
    | fragment f => contradiction
    | group g =>
      have around := blocks_congr base (@Alike.close first .nil
        (.leaf ⟨.participant p, number, number⟩) ⟨line, .group g, row⟩ line line
        fun _ _ => rfl) outer
      simp [assembly, blocks, BlockBody.fill, Assembly.addMember, Grove.fillGroup_append, around,
        Grove.fillGroup, Grove.addMember, Forest.leaf]

theorem addClause_assembly (growth : Growth) (clause : ElseClause) (slot line : Nat)
    (f : Fragment) (outer : List OpenBlock)
    (h : (growth.assembly first).blocks = ⟨slot, line, .fragment f⟩ :: outer) :
    { growth.assembly first with blocks := ⟨slot, line, .fragment (f.addClause clause)⟩ :: outer } =
      (growth.push (.mark clause .nil)).assembly first := by
  rw [assembly_push]
  obtain ⟨base, levels, note⟩ := growth
  cases levels with
  | nil => contradiction
  | cons level outer' =>
    obtain ⟨line', body, row⟩ := level
    cases body with
    | group g => simp [assembly, blocks, BlockBody.fill] at h
    | fragment f' =>
      have around := blocks_congr base (@Alike.close first .nil
        (.mark clause .nil) ⟨line', .fragment f', row⟩ line' line' fun _ _ => rfl) outer'
      simp only [assembly, blocks, BlockBody.fill, Grove.fillFragment_append, List.cons.injEq,
        OpenBlock.mk.injEq, BlockBody.fragment.injEq] at h
      obtain ⟨⟨rfl, rfl, rfl⟩, rfl⟩ := h
      simp [assembly, blocks, BlockBody.fill, Grove.fillFragment_append, around,
        Grove.fillFragment, Grove.plant]

/-- A group inside a group is entered there, every other block in the fragment around it. -/
theorem attachBlock_leaf (growth : Growth) (line : Nat) (body : BlockBody)
    (h : growth.inGroup = true → body.isGroup = true) :
    OpenBlock.attachBlock (NodeId.offset first (taken growth.base growth.levels)) body
      (blocks first growth.base .nil growth.levels) =
      blocks first growth.base (.leaf ⟨body.element, line, line⟩) growth.levels := by
  by_cases inside : growth.inGroup = true
  · obtain ⟨base, levels, note⟩ := growth
    cases levels with
    | nil => contradiction
    | cons level outer =>
      obtain ⟨line', around, row⟩ := level
      cases around with
      | fragment f => contradiction
      | group g =>
        cases body with
        | fragment f => exact absurd (h inside) Bool.false_ne_true
        | group g' =>
          have outside := blocks_congr base (@Alike.close first .nil
            (.leaf ⟨.group g', line, line⟩) ⟨line', .group g, row⟩ line' line'
            fun _ _ => rfl) outer
          simp [blocks, BlockBody.fill, OpenBlock.attachBlock, Grove.fillGroup_append, outside,
            Grove.fillGroup, Grove.addMember, Forest.leaf, BlockBody.element, taken]
  · rw [← attach_leaf first growth ⟨body.element, line, line⟩ fun hg => absurd hg inside]
    obtain ⟨base, levels, note⟩ := growth
    cases levels with
    | nil => rfl
    | cons level outer =>
      obtain ⟨line', around, row⟩ := level
      cases around with
      | fragment f => rfl
      | group g => exact absurd rfl inside

theorem openBlock_assembly (growth : Growth) (line : Nat) (body : BlockBody)
    (h : growth.inGroup = true → body.isGroup = true) :
    (growth.assembly first).openBlock line body = (growth.openBlock line body).assembly first := by
  have entered := attachBlock_leaf first growth line body h
  have head (slot : Nat) : body.fill first slot .nil = body := by cases body <;> rfl
  simp only [Assembly.openBlock, Assembly.emit, nextId_assembly]
  simp only [assembly, entered, openBlock, nodes, blocks, Grove.plant, Forest.append_nil, head]
  simp [length_nodes, Level.close, Forest.leaf, Forest.append_nil]

theorem closeBlock_assembly (growth : Growth) (lineEnd : Nat) :
    (growth.assembly first).closeBlock lineEnd = (growth.closeBlock lineEnd).assembly first := by
  obtain ⟨base, levels, note⟩ := growth
  cases levels with
  | nil => rfl
  | cons level outer =>
    have around := blocks_congr base (@Alike.close first .nil .nil level
      lineEnd level.line fun _ _ => rfl) outer
    have slot := length_nodes first base outer
    simp only [closeBlock, assembly_push, around]
    simp [Assembly.closeBlock, assembly, blocks, nodes, slot, Level.close, Grove.plant,
      BlockBody.element_fill, List.set_append_right, Forest.append_nil]

end

end Growth

end SequenceDiagram
