import SequenceDiagram.Proofs.Members

set_option autoImplicit false

namespace SequenceDiagram

namespace Grove

structure Settles (register : Register) (row : Grove) : Prop where
  declared : ∀ seed ∈ row.labels, ∀ key, seed.key? = some key → register.listed key = true →
    register.declaration? key = some seed
  listed : ∀ key ∈ row.listedKeys, register.listed key = true
  sound : ∀ seed ∈ row.labels, seed.element.isError = false

section
variable {register : Register} {seed : Seed} {body next : Grove}

theorem Settles.under (h : Settles register (.tree seed body next)) : Settles register body where
  declared other mem := h.declared other (by simp [Forest.labels, mem])
  listed key mem := h.listed key (by simp [listedKeys, mem])
  sound other mem := h.sound other (by simp [Forest.labels, mem])

theorem Settles.behind (h : Settles register (.tree seed body next)) : Settles register next where
  declared other mem := h.declared other (by simp [Forest.labels, mem])
  listed key mem := h.listed key (by simp [listedKeys, mem])
  sound other mem := h.sound other (by simp [Forest.labels, mem])

theorem entries_eq_self {low high : Nat} (settles : Settles register body)
    (keys : ∀ key ∈ body.declaredKeys, register.listed key = true) (proper : body.Proper .group)
    (spans : body.Spans low high) :
    ofTrees (entries register body) = body ∧
      (∀ tree ∈ entries register body, low < tree.1.lineStart) ∧
      (entries register body).Pairwise fun a b => a.1.lineStart < b.1.lineStart := by
  induction body generalizing low high with
  | nil => exact ⟨rfl, by simp [entries], .nil⟩
  | tree seed body next ihb ihn =>
    obtain ⟨⟨-, strict⟩, inside, behind⟩ := spans
    have sound := settles.sound seed (by simp [Forest.labels])
    have first := strict sound
    have span := inside.le
    obtain ⟨same, later, sorted⟩ := ihn settles.behind
      (fun key mem => keys key (by simp [declaredKeys, mem])) proper.2 behind
    -- a tree that is its own only entry stays first, since all that follow begin on later lines
    have one (parts : entries register (.tree seed body next) =
        (seed, body) :: entries register next) :
        ofTrees (entries register (.tree seed body next)) = .tree seed body next ∧
          (∀ tree ∈ entries register (.tree seed body next), low < tree.1.lineStart) ∧
          (entries register (.tree seed body next)).Pairwise fun a b =>
            a.1.lineStart < b.1.lineStart := by
      rw [parts, ofTrees, same, List.forall_mem_cons, List.pairwise_cons]
      refine ⟨rfl, ⟨first, fun tree mem => ?_⟩, fun tree mem => ?_, sorted⟩
      · exact first.trans (span.trans_lt (later tree mem))
      · exact span.trans_lt (later tree mem)
    obtain ⟨element, lineStart, lineEnd⟩ := seed
    cases element with
    | participant p =>
      obtain rfl := proper.1
      have listed := keys p.key (by simp [declaredKeys, Seed.key?])
      have found := settles.declared _ List.mem_cons_self p.key rfl listed
      refine one ?_
      rw [@entries_participant _ _ p.key rfl, found]
      rfl
    | group g =>
      obtain ⟨same', -, sorted'⟩ := ihb settles.under
        (fun key mem => settles.listed key (by simp [listedKeys, mem])) proper.1.2 inside
      have arranged : members register body = body := by
        rw [members_eq_of_strict sorted', same']
      refine one ?_
      rw [entries_group (g := g) rfl, arranged]
    | error fault => contradiction
    | _ => exact absurd rfl proper.1.1
  | mark clause next ih => exact absurd proper.1 (by simp)

theorem members_eq_self {low high : Nat} (settles : Settles register body)
    (keys : ∀ key ∈ body.declaredKeys, register.listed key = true) (proper : body.Proper .group)
    (spans : body.Spans low high) : members register body = body := by
  obtain ⟨same, -, sorted⟩ := entries_eq_self settles keys proper spans
  rw [members_eq_of_strict sorted, same]

theorem arrange_eq_self {row : Grove} {place : Place} {low high : Nat}
    (settles : Settles register row)
    (free : ∀ key ∈ row.freeKeys, register.listed key = false) (outside : place ≠ .group)
    (proper : row.Proper place) (spans : row.Spans low high) : arrange register row = row := by
  induction row generalizing place low high with
  | nil => rfl
  | tree seed body next ihb ihn =>
    obtain ⟨-, inside, behind⟩ := spans
    have same := ihn settles.behind (fun key mem => free key (by simp [freeKeys, mem])) outside
      proper.2 behind
    obtain ⟨element, lineStart, lineEnd⟩ := seed
    cases element with
    | fragment f =>
      have under := @ihb .fragment _ _ settles.under (fun key mem => free key (by simp [freeKeys, mem]))
        (by simp) proper.1.2.2 inside
      simp only [arrange, under, same]
    | group g =>
      have keys : ∀ key ∈ declaredKeys body, register.listed key = true :=
        fun key mem => settles.listed key (by simp [listedKeys, mem])
      have under := members_eq_self settles.under keys proper.1.2 inside
      have none := strays_eq_nil settles.under.sound
      simp only [arrange, under, none, same]
      rfl
    | participant p =>
      have unlisted := free p.key (by simp [freeKeys])
      rw [arrange_participant register rfl, if_neg (by simp [unlisted]), same, proper.1]
    | error fault =>
      rw [arrange, same, proper.1]
    | _ => rw [arrange, same, proper.1.2]
  | mark clause next ih =>
    have same := ih ⟨settles.declared, settles.listed, settles.sound⟩ free outside proper.2.2 spans
    rw [arrange, same]

end

def declarers (grove : Grove) (key : String) : List Seed :=
  grove.labels.filter fun seed => seed.key? = some key

theorem count_declarers (grove : Grove) (key : String) :
    (grove.labels.filterMap Seed.key?).count key = (grove.declarers key).length := by
  unfold declarers
  induction grove.labels with
  | nil => rfl
  | cons seed seeds ih =>
    cases h : seed.key? with
    | none => simp [h, ih]
    | some other =>
      by_cases same : other = key
      · simp [h, ih, same]
      · simp [h, ih, same]

theorem arranged_eq_self {grove : Grove} {high : Nat} (proper : grove.Proper .top)
    (spans : grove.Spans 0 high) (sound : ∀ seed ∈ grove.labels, seed.element.isError = false)
    (once : ∀ key ∈ grove.listedKeys, (grove.declarers key).length = 1) :
    grove.arranged = grove := by
  have listed (key : String) : grove.register.listed key = true ↔ key ∈ grove.listedKeys :=
    List.contains_iff_mem
  have settles : Settles grove.register grove := by
    refine ⟨fun seed mem key declares isListed => ?_, fun key => (listed key).2, sound⟩
    obtain ⟨only, single⟩ := List.length_eq_one_iff.1 (once key ((listed key).1 isListed))
    have among : seed ∈ grove.declarers key := List.mem_filter.2 ⟨mem, by simpa using declares⟩
    rw [single, List.mem_singleton] at among
    have found : grove.register.declaration? key = (grove.declarers key).head? :=
      List.head?_filter.symm
    rw [found, single, among]
    rfl
  refine arrange_eq_self settles (fun key mem => ?_) (by simp) proper spans
  rw [← Bool.not_eq_true, listed]
  intro grouped
  have all := count_keys (by simp) proper key
  rw [count_declarers, once key grouped] at all
  have outside := List.one_le_count_iff.2 mem
  have inside := List.one_le_count_iff.2 grouped
  omega

section
variable (first : UInt32)

theorem straySlots_regrow {row : Grove} (same : ∀ seed ∈ row.labels, seed.element.reread = seed.element)
    (slot line : Nat) : straySlots slot (regrow line row) = straySlots slot row := by
  induction row generalizing slot line with
  | nil => rfl
  | tree seed body next ihb ihn =>
    simp only [Forest.labels, List.forall_mem_cons, List.forall_mem_append] at same
    rw [regrow, straySlots, straySlots, size_regrow, ihn same.2.2, same.1]
    cases seed.element with
    | group g => rw [ihb same.2.1]
    | _ => rfl
  | mark clause next ih => exact ih same slot (line + 1)

theorem fillFragment_regrow {row : Grove} (same : ∀ seed ∈ row.labels, seed.element.reread = seed.element)
    (f : Fragment) (slot line : Nat) :
    fillFragment first f slot (regrow line row) = fillFragment first f slot row := by
  induction row generalizing f slot line with
  | nil => rfl
  | tree seed body next _ ih =>
    simp only [Forest.labels, List.forall_mem_cons, List.forall_mem_append] at same
    have inside : sectionSlots slot ⟨seed.element.reread, line, line + (
        seed.element.writeBlockText.length + (script body).length +
        seed.element.writeEnd?.toList.length)⟩
        (regrow (line + 1 + seed.element.writeBlockText.length) body) =
        sectionSlots slot seed body := by
      unfold sectionSlots
      rw [same.1]
      cases seed.element with
      | group g => rw [straySlots_regrow same.2.1]
      | _ => rfl
    rw [regrow, fillFragment, fillFragment, size_regrow, ih same.2.2, inside]
  | mark clause next ih => exact ih same _ slot (line + 1)

theorem fillGroup_regrow {row : Grove} (same : ∀ seed ∈ row.labels, seed.element.reread = seed.element)
    (g : ParticipantGroup) (slot line : Nat) :
    fillGroup first g slot (regrow line row) = fillGroup first g slot row := by
  induction row generalizing g slot line with
  | nil => rfl
  | tree seed body next _ ih =>
    simp only [Forest.labels, List.forall_mem_cons, List.forall_mem_append] at same
    rw [regrow, fillGroup, fillGroup, size_regrow, ih same.2.2, same.1]
  | mark clause next ih => exact ih same _ slot (line + 1)

/-- Only line numbers change. -/
theorem plant_regrow {row : Grove} (same : ∀ seed ∈ row.labels, seed.element.reread = seed.element)
    (slot line : Nat) :
    (plant first slot (regrow line row)).map (fun node => (node.id, node.element)) =
      (plant first slot row).map fun node => (node.id, node.element) := by
  induction row generalizing slot line with
  | nil => rfl
  | tree seed body next ihb ihn =>
    simp only [Forest.labels, List.forall_mem_cons, List.forall_mem_append] at same
    have head (line : Nat) : fill first seed.element (slot + 1) (regrow line body) =
        fill first seed.element (slot + 1) body := by
      unfold fill
      cases seed.element with
      | fragment f => simp only [fillFragment_regrow first same.2.1]
      | group g => simp only [fillGroup_regrow first same.2.1]
      | _ => rfl
    simp only [regrow, plant, List.map_cons, List.map_append, size_regrow, ihb same.2.1,
      ihn same.2.2, same.1, head]
  | mark clause next ih => exact ih same slot (line + 1)

end

end Grove

namespace Message

theorem slashes_of_readComment? {m : Message} (h : m.IsSpelled) {text : String}
    (comment : Line.readComment? m.write = some text) : "//".toList <+: m.source.toList := by
  obtain ⟨c, d, rest, arrow, -, -, other, -⟩ :=
    Line.writeArrow_cons m.arrow (writeStyle m.style)
  have written := write_eq m
  rw [head, arrow, List.append_assoc, List.cons_append, List.cons_append] at written
  obtain ⟨first, more, parts⟩ :=
    List.exists_cons_of_ne_nil (Alias.isWord_of_isValid h.source).nonempty
  have hash := Alias.head?_ne (d := '#') h.source (Or.inl (by decide))
  rw [written, parts] at comment
  rw [parts] at hash ⊢
  rcases Line.eq_of_readComment? comment with slashes | hashed
  · obtain ⟨rfl, behind⟩ := List.cons.inj slashes
    cases more with
    | nil => exact absurd (List.cons.inj behind).1 other
    | cons second more =>
      obtain ⟨rfl, -⟩ := List.cons.inj behind
      exact ⟨more, rfl⟩
  · obtain ⟨rfl, -⟩ := List.cons.inj hashed
    exact absurd rfl hash

theorem not_drifts {m : Message} (dash : m.source.toList.getLast? ≠ some '-')
    (lost : ¬"-x".toList <:+: m.source.toList) : ¬m.Drifts := by
  rintro ⟨ends, inside⟩
  cases inside with
  | dash front longer parts token =>
    rw [parts, List.getLast?_append] at dash
    exact dash rfl
  | lost front inner other parts kind =>
    have token : "-x".toList <:+ other.token.toList := by
      have all : ∀ other ∈ Arrow.all, other.rightHead = "x" →
          "-x".toList.isSuffixOf other.token.toList = true := by
        decide +kernel
      exact List.isSuffixOf_iff_suffix.1 (all other (Arrow.mem_all other) kind)
    refine lost (token.isInfix.trans ?_)
    rw [parts, ← List.append_assoc]
    exact ((List.suffix_append _ _).isInfix).trans (List.prefix_append _ _).isInfix

end Message

namespace Element

/-- Everything but an error and some messages is read again as itself. -/
theorem reread_eq_self {element : Element} (spelled : element.IsSpelled)
    (sound : element.isError = false)
    (steady : ∀ m, element = .message m → ¬"//".toList <+: m.source.toList ∧ ¬m.Drifts) :
    element.reread = element := by
  cases element with
  | participant p => exact reread_participant spelled
  | message m =>
    obtain ⟨plain, still⟩ := steady m rfl
    have again := Message.read?_write spelled still
    unfold reread
    rw [show (Element.message m).writeHead = m.write from rfl]
    obtain ⟨-, ⟨text, comment, -⟩ | ⟨-, m', found, read⟩⟩ := Line.read_message spelled
    · exact absurd (Message.slashes_of_readComment? spelled comment) plain
    · obtain rfl := Option.some.inj (again.symm.trans found)
      rw [read]
  | fragment f => exact reread_fragment spelled
  | group g => exact reread_group spelled
  | note n => exact reread_note spelled.1
  | divider d =>
    unfold reread
    rw [show (Element.divider d).writeHead = d.write from rfl, (Line.read_divider spelled).1]
  | comment text =>
    have read := (Line.read_slashes text.toList).1
    rw [String.ofList_toList] at read
    unfold reread
    rw [show (Element.comment text).writeHead = '/' :: '/' :: text.toList from rfl, read]
  | blankLine => rfl
  | directive d =>
    unfold reread
    rw [show (Element.directive d).writeHead = d.write from rfl, (Line.read_directive spelled).1]
  | error fault => contradiction

theorem message_of_bare {element : Element} {m : Message} (h : element.bare = .message m) :
    element = .message m := by
  cases element with
  | message m' => exact h
  | _ => contradiction

end Element

def Element.source? : Element → Option String
  | .message m => some m.source
  | _ => none

def Node.declares (node : Node) (key : String) : Bool :=
  match node.element with
  | .participant p => p.key = key
  | _ => false

theorem Node.declares_eq (node : Node) (key : String) :
    node.declares key = decide (node.seed.key? = some key) := by
  obtain ⟨id, lineStart, lineEnd, element⟩ := node
  cases element <;> simp [declares, seed, Element.bare, Seed.key?]

namespace Document

/-- A document without errors, with every grouped alias declared once and no message that runs
into its arrow, is read again from its canonical text: in arena order the nodes have the same
identifiers and elements, and only their lines may differ. -/
theorem nodes_read_format (text : String) (sound : (read text).hasErrors = false)
    (fits : (read text).nodes.length < 2 ^ 32)
    (plain : ∀ node ∈ (read text).nodes, ∀ m, node.element = .message m →
      ¬"//".toList <+: m.source.toList ∧ m.source.toList.getLast? ≠ some '-' ∧
        ¬"-x".toList <:+: m.source.toList)
    (once : ∀ key ∈ (read text).groupedAliases,
      ((read text).nodes.filter fun node => node.declares key).length = 1) :
    (read (format text)).nodes.map (fun node => (node.id, node.element)) =
      (read text).nodes.map fun node => (node.id, node.element) := by
  obtain ⟨grove, proper, spans, -, planted, neat, spelled, -, again⟩ :=
    exists_reread text (Nat.le_of_lt fits)
  rw [planted] at sound plain once
  rw [hasErrors_plant 0 proper, List.any_eq_false] at sound
  rw [Grove.groupedAliases_plant 0 proper] at once
  have arranged : grove.arranged = grove := by
    refine Grove.arranged_eq_self proper spans (by simpa using sound) fun key mem => ?_
    rw [← once key mem, Grove.declarers, ← Grove.labels_plant 0 proper 0, List.filter_map,
      List.length_map]
    refine congrArg List.length (List.filter_congr fun node _ => ?_)
    exact (node.declares_eq key).symm
  rw [arranged] at spelled again
  have same : ∀ seed ∈ grove.labels, seed.element.reread = seed.element := by
    intro seed mem
    refine Element.reread_eq_self (spelled.seeds seed mem) (by simpa using sound seed mem) ?_
    intro m isMessage
    rw [← Grove.labels_plant 0 proper 0] at mem
    obtain ⟨node, inside, rfl⟩ := List.mem_map.1 mem
    obtain ⟨slashes, dash, lost⟩ := plain node inside m (Element.message_of_bare isMessage)
    exact ⟨slashes, Message.not_drifts dash lost⟩
  rw [again, planted]
  exact Grove.plant_regrow 0 same 0 1

/-- A group of two declarations, and messages on both sides of an `else`. -/
theorem nodes_read_format_of_group :
    let text :=
      "participantgroup\nactor A\nparticipant B\nend\nalt x\nA->B:hi\nelse\nB-->>*A\nend"
    (read text).hasErrors = false ∧ (read text).groupedAliases = ["A", "B"] ∧
      (read (format text)).nodes.map (fun node => (node.id, node.element)) =
        (read text).nodes.map fun node => (node.id, node.element) := by
  intro text
  have checked : (read text).hasErrors = false ∧ (read text).groupedAliases = ["A", "B"] ∧
      (read text).nodes.length < 2 ^ 32 ∧
      (∀ key ∈ ["A", "B"],
        ((read text).nodes.filter fun node => node.declares key).length = 1) ∧
      ∀ node ∈ (read text).nodes, ∀ source ∈ node.element.source?,
        source = "A" ∨ source = "B" := by
    decide +kernel
  obtain ⟨sound, grouped, fits, once, sources⟩ := checked
  refine ⟨sound, grouped, nodes_read_format text sound fits (fun node mem m isMessage => ?_)
    (grouped ▸ once)⟩
  have source : m.source = "A" ∨ m.source = "B" := by
    refine sources node mem m.source ?_
    rw [isMessage]
    rfl
  rcases source with same | same <;> rw [same] <;> decide

end Document

end SequenceDiagram
