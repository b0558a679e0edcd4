import SequenceDiagram.Proofs.Elements
import SequenceDiagram.Proofs.Planting

set_option autoImplicit false

namespace SequenceDiagram

open Text

theorem Participant.isSpelled_iff (p : Participant) :
    p.IsSpelled ↔ IsTidy p.write ∧ read? p.write = some p :=
  ⟨fun h => ⟨isTidy_write h, read?_write h⟩, fun h => isSpelled_of_read? h.1.single h.2⟩

theorem Note.isSpelled_iff (n : Note) :
    n.IsSpelled ↔ IsTidy n.writeHead ∧ read? n.writeHead = some n :=
  ⟨fun h => ⟨isTidy_writeHead h, read?_writeHead h⟩, fun h => isSpelled_of_read? h.1.single h.2⟩

theorem Fragment.isSpelled_iff (f : Fragment) :
    f.IsSpelled ↔ IsTidy f.writeHead ∧ readHead? f.writeHead = some f :=
  ⟨fun h => ⟨isTidy_writeHead h, readHead?_writeHead h⟩, fun h => isSpelled_of_readHead? h.1 h.2⟩

theorem ElseClause.isSpelled_iff (clause : ElseClause) :
    clause.IsSpelled ↔ IsTidy clause.writeHead ∧ readHead? clause.writeHead = some clause :=
  ⟨fun h => ⟨isTidy_writeHead h, readHead?_writeHead h⟩, fun h => isSpelled_of_readHead? h.1 h.2⟩

theorem ParticipantGroup.isSpelled_iff (g : ParticipantGroup) :
    g.IsSpelled ↔ IsTidy g.writeHead ∧ readHead? g.writeHead = some g :=
  ⟨fun h => ⟨isTidy_writeHead h, readHead?_writeHead h⟩, fun h => isSpelled_of_readHead? h.1 h.2⟩

/-- The heads of declarations lose nothing: each is written on one line and read back from it as
it was, exactly if its fields are such as the grammar asks for. -/
theorem Element.written_heads_are_read :
    (∀ p : Participant, p.IsSpelled ↔ IsTidy p.write ∧ Participant.read? p.write = some p) ∧
      (∀ n : Note, n.IsSpelled ↔ IsTidy n.writeHead ∧ Note.read? n.writeHead = some n) ∧
      (∀ f : Fragment, f.IsSpelled ↔
        IsTidy f.writeHead ∧ Fragment.readHead? f.writeHead = some f) ∧
      (∀ clause : ElseClause, clause.IsSpelled ↔
        IsTidy clause.writeHead ∧ ElseClause.readHead? clause.writeHead = some clause) ∧
      ∀ g : ParticipantGroup, g.IsSpelled ↔
        IsTidy g.writeHead ∧ ParticipantGroup.readHead? g.writeHead = some g :=
  ⟨Participant.isSpelled_iff, Note.isSpelled_iff, Fragment.isSpelled_iff,
    ElseClause.isSpelled_iff, ParticipantGroup.isSpelled_iff⟩

def Participant.IsKey (key : String) : Prop :=
  Alias.isValid key.toList = true ∨ trim key.toList ≠ [] ∧ '"' ∉ key.toList

theorem Participant.IsSpelled.isKey {p : Participant} (h : p.IsSpelled) : IsKey p.key :=
  h.key.imp_right fun shown => by
    rw [shown]
    exact ⟨h.named, h.unquoted⟩

structure ElseClause.IsWellFormed (clause : ElseClause) : Prop where
  condition : StyleRun.IsFree clause.condition.toList
  style : Style.IsOptional clause.style

structure Fragment.IsWellFormed (f : Fragment) : Prop where
  condition : StyleRun.IsFree f.condition.toList
  style : Style.IsHead f.style
  collapsed : f.collapsed.isSome = true ↔ f.type = .expandable
  clauses : ∀ clause ∈ f.elseClauses, clause.IsWellFormed

structure ParticipantGroup.IsWellFormed (g : ParticipantGroup) : Prop where
  color : Color.IsSpelled g.color
  label : IsTidy g.label.toList
  plain : g.color = none → StyleRun.Stops Color.isValid g.label.toList
  members : ∀ key ∈ g.participants, Participant.IsKey key

structure Note.IsWellFormed (n : Note) : Prop where
  named : n.participants ≠ []
  valid : ∀ key ∈ n.participants, Alias.isValid key.toList = true
  style : Style.IsOptional n.style
  text : n.block = false → IsTidy n.text.toList
  block : n.block = true →
    ∀ row ∈ split '\n' n.text.toList, IsTidy row ∧ row ≠ n.kind.terminator

def Directive.amounts : Directive → List Magnitude
  | entrySpacing factor => [factor]
  | participantSpacing (.gap amount) => [amount]
  | _ => []

structure Directive.IsWellFormed (d : Directive) : Prop where
  spelled : d.IsSpelled
  finite : ∀ amount ∈ d.amounts, 0 < amount.toRat ∧ amount.toRat < 2 ^ (1024 : Int)

/-- Only what was left open is reported without a text. -/
def SyntaxFault.IsWellFormed (fault : SyntaxFault) : Prop :=
  fault.text = "" ↔ fault.kind = .unterminatedBlock

def Element.IsWellFormed : Element → Prop
  | .participant p => p.IsSpelled
  | .message m => m.IsSpelled
  | .fragment f => f.IsWellFormed
  | .group g => g.IsWellFormed
  | .note n => n.IsWellFormed
  | .divider d => Style.IsOptional d.style
  | .directive d => d.IsWellFormed
  | .error fault => fault.IsWellFormed
  | .comment _ | .blankLine => True

theorem ElseClause.IsSpelled.isWellFormed {clause : ElseClause} (h : clause.IsSpelled) :
    clause.IsWellFormed :=
  ⟨h.condition, h.style⟩

theorem ElseClause.IsRead.isWellFormed {clause : ElseClause} (h : clause.IsRead) :
    clause.IsWellFormed := by
  obtain ⟨line, tidy, read⟩ := h
  exact (isSpelled_of_readHead? tidy read).isWellFormed

theorem Fragment.IsSpelled.isWellFormed {f : Fragment} (h : f.IsSpelled) : f.IsWellFormed where
  condition := h.condition
  style := h.style
  collapsed := h.collapsed
  clauses := by simp [h.bare.2]

theorem ParticipantGroup.IsSpelled.isWellFormed {g : ParticipantGroup} (h : g.IsSpelled) :
    g.IsWellFormed where
  color := h.color
  label := h.label
  plain := h.plain
  members := by simp [h.bare.1]

theorem Directive.IsSpelled.isWellFormed {d : Directive} (h : d.IsSpelled) : d.IsWellFormed :=
  ⟨h, fun amount _ => ⟨amount.toRat_pos, (Decimal.magnitude_bounds amount).2⟩⟩

theorem NoteKind.terminator_ne_nil (kind : NoteKind) : kind.terminator ≠ [] := by
  cases kind <;> decide

/-- An empty text has one empty line, and any other text has the lines of the block. -/
theorem Note.IsBlockText.split {n : Note} (h : n.IsBlockText) {row : List Char}
    (mem : row ∈ split '\n' n.text.toList) : IsTidy row ∧ row ≠ n.kind.terminator := by
  have joined : n.text.toList = join ['\n'] n.rows := by rw [← h.text, String.toList_ofList]
  by_cases empty : n.rows = []
  · rw [joined, empty] at mem
    obtain rfl : row = [] := List.mem_singleton.1 mem
    exact ⟨isTidy_nil, n.kind.terminator_ne_nil.symm⟩
  · rw [joined, split_join empty fun other mem => (h.rows other mem).1.single] at mem
    exact h.rows row mem

theorem Note.isWellFormed_of_opening {n : Note} (h : n.opening.IsSpelled)
    (block : n.block = true → n.IsBlockText) : n.IsWellFormed where
  named := h.named
  valid := h.valid
  style := h.style
  text line := by
    have tidy := h.text
    rwa [opening_of_line line] at tidy
  block inside _ := (block inside).split

namespace Element

/-- An element that lines can carry is well formed, errors apart: a line may be empty. -/
theorem IsSpelled.isWellFormed {element : Element} (h : element.IsSpelled)
    (sound : element.isError = false) : element.IsWellFormed := by
  cases element with
  | participant p => exact h
  | message m => exact h
  | fragment f => exact h.1.isWellFormed
  | group g => exact ParticipantGroup.IsSpelled.isWellFormed h
  | note n => exact Note.isWellFormed_of_opening h.1 h.2
  | divider d => exact Divider.IsSpelled.style h
  | directive d => exact Directive.IsSpelled.isWellFormed h
  | comment text => trivial
  | blankLine => trivial
  | error fault => contradiction

theorem isWellFormed_of_fault {line : List Char} (some : line ≠ []) (fault : LineFault) :
    (fault.element line).IsWellFormed := by
  have text : String.ofList line ≠ "" := by simpa using some
  exact ⟨fun empty => absurd empty text, nofun⟩

theorem IsRead.isWellFormed {element : Element} (h : element.IsRead) : element.IsWellFormed := by
  cases error : element.isError with
  | false => exact h.isSpelled.isWellFormed error
  | true =>
    cases h with
    | line line tidy element read =>
      cases read with
      | fault fault some => exact isWellFormed_of_fault some fault
      | _ => contradiction
    | head line tidy body read => cases body <;> contradiction
    | note line tidy note read block text => contradiction
    | unterminatedBlock body line => exact iff_of_true rfl rfl
    | unterminatedNote kind line => exact iff_of_true rfl rfl

end Element

theorem ElseClause.isWellFormed_addEntry {clauses : List ElseClause}
    (h : ∀ clause ∈ clauses, clause.IsWellFormed) (id : NodeId) :
    ∀ clause ∈ addEntry id clauses, clause.IsWellFormed := by
  induction clauses with
  | nil => exact h
  | cons first rest ih =>
    cases rest with
    | nil =>
      intro clause mem
      obtain rfl := List.mem_singleton.1 mem
      obtain ⟨condition, style⟩ := h first List.mem_cons_self
      exact ⟨condition, style⟩
    | cons second rest =>
      intro clause mem
      rcases List.mem_cons.1 mem with rfl | mem
      · exact h clause List.mem_cons_self
      · exact ih (fun other mem => h other (List.mem_cons_of_mem _ mem)) clause mem

namespace Fragment

variable {f : Fragment} (first : UInt32)

theorem IsWellFormed.addEntry (h : f.IsWellFormed) (id : NodeId) :
    (f.addEntry id).IsWellFormed := by
  unfold Fragment.addEntry
  split
  · exact ⟨h.condition, h.style, h.collapsed, h.clauses⟩
  · exact ⟨h.condition, h.style, h.collapsed, ElseClause.isWellFormed_addEntry h.clauses id⟩

theorem IsWellFormed.addSlots (h : f.IsWellFormed) (slots : List Nat) :
    (Grove.addSlots first f slots).IsWellFormed := by
  induction slots generalizing f with
  | nil => exact h
  | cons slot slots ih => exact ih (h.addEntry _)

theorem IsWellFormed.addClause (h : f.IsWellFormed) {clause : ElseClause}
    (formed : clause.IsWellFormed) : (f.addClause clause).IsWellFormed where
  condition := h.condition
  style := h.style
  collapsed := h.collapsed
  clauses other mem := by
    rcases List.mem_append.1 mem with mem | mem
    · exact h.clauses other mem
    · exact List.mem_singleton.1 mem ▸ formed

theorem IsWellFormed.fill (h : f.IsWellFormed) (slot : Nat) {body : Grove} (read : body.IsRead) :
    (Grove.fillFragment first f slot body).IsWellFormed := by
  induction body generalizing f slot with
  | nil => exact h
  | tree seed body next _ ih => exact ih (h.addSlots first _) _ (Grove.isRead_tree.1 read).2.2
  | mark clause next ih =>
    obtain ⟨marked, after⟩ := Grove.isRead_mark.1 read
    exact ih (h.addClause marked.isWellFormed) slot after

end Fragment

namespace ParticipantGroup

variable {g : ParticipantGroup} (first : UInt32)

theorem IsWellFormed.addMember (h : g.IsWellFormed) (slot : Nat) {element : Element}
    (read : element.IsRead) : (Grove.addMember first g slot element).IsWellFormed := by
  cases element with
  | participant p =>
    have spelled : p.IsSpelled := read.isSpelled
    refine ⟨h.color, h.label, h.plain, fun key mem => ?_⟩
    rcases List.mem_append.1 mem with mem | mem
    · exact h.members key mem
    · exact List.mem_singleton.1 mem ▸ spelled.isKey
  | group inner => exact ⟨h.color, h.label, h.plain, h.members⟩
  | _ => exact h

theorem IsWellFormed.fill (h : g.IsWellFormed) (slot : Nat) {body : Grove} (read : body.IsRead) :
    (Grove.fillGroup first g slot body).IsWellFormed := by
  induction body generalizing g slot with
  | nil => exact h
  | tree seed body next _ ih =>
    obtain ⟨member, -, after⟩ := Grove.isRead_tree.1 read
    exact ih (h.addMember first slot member) _ after
  | mark clause next ih => exact ih h slot (Grove.isRead_mark.1 read).2

end ParticipantGroup

section
variable (first : UInt32)

theorem Element.IsWellFormed.fill {element : Element} (h : element.IsWellFormed) (slot : Nat)
    {body : Grove} (read : body.IsRead) : (Grove.fill first element slot body).IsWellFormed := by
  cases element with
  | fragment f => exact Fragment.IsWellFormed.fill first h slot read
  | group g => exact ParticipantGroup.IsWellFormed.fill first h slot read
  | _ => exact h

theorem Grove.IsRead.isWellFormed {grove : Grove} (read : grove.IsRead) (slot : Nat) :
    ∀ node ∈ grove.plant first slot, node.element.IsWellFormed := by
  induction grove generalizing slot with
  | nil => simp [plant]
  | tree seed body next ihb ihn =>
    obtain ⟨head, inner, after⟩ := Grove.isRead_tree.1 read
    intro node mem
    rcases List.mem_cons.1 mem with rfl | mem
    · exact head.isWellFormed.fill first (slot + 1) inner
    · rcases List.mem_append.1 mem with mem | mem
      · exact ihb inner _ node mem
      · exact ihn after _ node mem
  | mark clause next ih => exact ih (Grove.isRead_mark.1 read).2 slot

/-- Reading makes well-formed nodes only, whatever the text. -/
theorem Document.wellFormed_of_mem_readFrom (text : String) :
    ∀ node ∈ (readFrom first text).nodes, node.element.IsWellFormed := by
  obtain ⟨grove, -, -, read, planted⟩ := readFrom_eq_plant first text
  rw [planted]
  exact read.isWellFormed first 0

end

/-- A collapsed fragment with colors of its own and a clause. -/
theorem Document.wellFormed_of_mem_readFrom_expandable :
    let text := "expandable-#teal #pink open items\nelse #beige none\nA->*B:hi\nend"
    let node : Node := ⟨⟨0⟩, 1, 4, .fragment {
      type := .expandable
      condition := "open items"
      style := some { Style.empty with fill := some "#pink", operatorColor := some "#teal" }
      entries := []
      elseClauses := [⟨"none", some { Style.empty with fill := some "#beige" }, [⟨1⟩]⟩]
      collapsed := some true }⟩
    node ∈ (readFrom 0 text).nodes ∧ node.element.IsWellFormed := by
  intro text node
  have mem : node ∈ (readFrom 0 text).nodes := by decide +kernel
  exact ⟨mem, wellFormed_of_mem_readFrom 0 text node mem⟩

end SequenceDiagram
