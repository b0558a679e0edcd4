import SequenceDiagram.Proofs.Settled

set_option autoImplicit false

namespace SequenceDiagram

/-- Texts put together in the order of some items are told apart by their first lines, except
that groups may begin alike. When the groups keep their order, the whole keeps the order. -/
theorem eq_of_flatMap_eq {α β : Type} {text : α → List β} {isGroup : α → Bool}
    {items row : List α} {texts : List (List β)}
    (alike : List.Forall₂ (fun item written => (text item).head? = written.head? ∧
      (text item).length = written.length) row texts)
    (some : ∀ item, text item ≠ [])
    (differ : ∀ a ∈ items, ∀ b ∈ row, (text a).head? = (text b).head? →
      a = b ∨ isGroup a = true ∧ isGroup b = true)
    (groups : items.filter isGroup = row.filter isGroup)
    (same : items.flatMap text = texts.flatten) : items = row ∧ row.map text = texts := by
  induction alike generalizing items with
  | nil =>
    cases items with
    | nil => exact ⟨rfl, rfl⟩
    | cons a items =>
      rw [List.flatMap_cons, List.flatten_nil, List.append_eq_nil_iff] at same
      exact absurd same.1 (some a)
  | @cons b written row texts here _ ih =>
    have begun : written ≠ [] := by
      rintro rfl
      exact some b (List.length_eq_zero_iff.1 here.2)
    cases items with
    | nil =>
      rw [List.flatMap_nil, List.flatten_cons, eq_comm, List.append_eq_nil_iff] at same
      exact absurd same.1 begun
    | cons a items =>
      rw [List.flatMap_cons, List.flatten_cons] at same
      have heads : (text a).head? = (text b).head? := by
        have whole := congrArg List.head? same
        rw [List.head?_append_of_ne_nil _ (some a), List.head?_append_of_ne_nil _ begun] at whole
        exact whole.trans here.1.symm
      obtain rfl : a = b := by
        rcases differ a List.mem_cons_self b List.mem_cons_self heads with equal | ⟨left, right⟩
        · exact equal
        · -- groups may begin alike, but here both come first among the groups
          rw [List.filter_cons_of_pos left, List.filter_cons_of_pos right] at groups
          exact (List.cons.inj groups).1
      obtain ⟨first, behind⟩ := List.append_inj same here.2
      have rest : items.filter isGroup = row.filter isGroup := by
        rw [List.filter_cons, List.filter_cons] at groups
        split at groups
        · exact (List.cons.inj groups).2
        · exact groups
      obtain ⟨rfl, later⟩ := ih (fun c hc d hd => differ c (List.mem_cons_of_mem _ hc) d
        (List.mem_cons_of_mem _ hd)) rest behind
      exact ⟨rfl, by rw [List.map_cons, first, later]⟩

namespace Seed

/-- Reading again keeps declarations, and makes no new ones. -/
theorem key?_reread {seed : Seed} (h : seed.element.IsSpelled) (line last : Nat) :
    key? ⟨seed.element.reread, line, last⟩ = seed.key? := by
  obtain ⟨element, lineStart, lineEnd⟩ := seed
  cases element with
  | participant p => rw [Element.reread_participant h]; rfl
  | _ => rcases Element.reread_cases _ with ⟨text, same⟩ | ⟨m, same⟩ | same <;> rw [same] <;> rfl

end Seed

namespace Grove

/-- The lines of a regrown row ascend, and they are those of its script. -/
theorem ascends_regrow (line : Nat) (row : Grove) :
    (∀ seed ∈ (regrow line row).labels,
        line ≤ seed.lineStart ∧ seed.lineStart < line + (script row).length) ∧
      (regrow line row).labels.Pairwise fun a b => a.lineStart < b.lineStart := by
  induction row generalizing line with
  | nil => exact ⟨by simp [regrow, Forest.labels], .nil⟩
  | tree seed body next ihb ihn =>
    let last := line + (seed.element.writeBlockText.length + (script body).length +
      seed.element.writeEnd?.toList.length)
    obtain ⟨inside, insideSorted⟩ := ihb (line + 1 + seed.element.writeBlockText.length)
    obtain ⟨behind, behindSorted⟩ := ihn (last + 1)
    simp only [regrow, Forest.labels, List.forall_mem_cons, List.forall_mem_append,
      List.pairwise_cons, List.pairwise_append, script, List.length_cons, List.length_append]
    refine ⟨⟨⟨Nat.le_refl _, by omega⟩, fun other mem => ?_, fun other mem => ?_⟩,
      ⟨fun other mem => ?_, fun other mem => ?_⟩, insideSorted, behindSorted,
      fun first mem second mem' => ?_⟩
    · have := inside other mem
      omega
    · have := behind other mem
      simp only [last] at this
      omega
    · have := inside other mem
      omega
    · have := behind other mem
      simp only [last] at this
      omega
    · have := inside first mem
      have := behind second mem'
      simp only [last] at this
      omega
  | mark clause next ih =>
    obtain ⟨bounds, sorted⟩ := ih (line + 1)
    refine ⟨fun seed mem => ?_, sorted⟩
    have := bounds seed mem
    simp only [script, List.length_cons]
    omega

section
variable {line : Nat} {row : Grove}

theorem keys_regrow (line : Nat) (spelled : IsSpelled row) :
    (regrow line row).labels.map Seed.key? = row.labels.map Seed.key? := by
  induction row generalizing line with
  | nil => rfl
  | tree seed body next ihb ihn =>
    simp only [regrow, Forest.labels, List.map_cons, List.map_append,
      Seed.key?_reread spelled.seed, ihb _ spelled.body, ihn _ spelled.next]
  | mark clause next ih => exact ih _ spelled.behind

theorem declaredKeys_regrow (line : Nat) (spelled : IsSpelled row) :
    declaredKeys (regrow line row) = declaredKeys row := by
  induction row generalizing line with
  | nil => rfl
  | tree seed body next _ ih =>
    simp only [regrow, declaredKeys, Seed.key?_reread spelled.seed, ih _ spelled.next]
  | mark clause next ih => exact ih _ spelled.behind

theorem listedKeys_regrow (line : Nat) (spelled : IsSpelled row) :
    listedKeys (regrow line row) = listedKeys row := by
  induction row generalizing line with
  | nil => rfl
  | tree seed body next ihb ihn =>
    have spelledSeed := spelled.seed
    obtain ⟨element, lineStart, lineEnd⟩ := seed
    rw [regrow, listedKeys, listedKeys, ihb _ spelled.body, ihn _ spelled.next]
    cases element with
    | group g =>
      simp only [Element.reread_group spelledSeed, declaredKeys_regrow _ spelled.body]
    | _ =>
      rcases Element.reread_cases _ with ⟨text, same⟩ | ⟨m, same⟩ | same <;> rw [same]
  | mark clause next ih => exact ih _ spelled.behind

end

section
variable {register : Register} {whole rest : List Seed} {row : Grove}

/-- Where the parts of a tree stand when the row stands somewhere. -/
theorem stands_tree {seed : Seed} {body next : Grove} {line position : Nat}
    (stands : whole.drop position = (regrow line (.tree seed body next)).labels ++ rest) :
    let last := line + (seed.element.writeBlockText.length + (script body).length +
      seed.element.writeEnd?.toList.length)
    whole[position]? = some ⟨seed.element.reread, line, last⟩ ∧
      whole.drop (position + 1) =
        (regrow (line + 1 + seed.element.writeBlockText.length) body).labels ++
          ((regrow (last + 1) next).labels ++ rest) ∧
      whole.drop (position + 1 + body.size) = (regrow (last + 1) next).labels ++ rest := by
  rw [regrow, Forest.labels, List.cons_append, List.append_assoc] at stands
  have here := List.head?_drop (l := whole) (i := position)
  rw [stands, List.head?_cons] at here
  have inside := congrArg List.tail stands
  rw [List.tail_drop, List.tail_cons] at inside
  refine ⟨here.symm, inside, ?_⟩
  rw [← List.drop_drop, inside, List.drop_left' ((Forest.length_labels _).trans (size_regrow _ _))]

theorem entries_places (known : ∀ key, register.declaration? key =
      whole.find? fun seed => seed.key? = some key)
    (neat : row.Neat .group) (spelled : IsSpelled row) {line position : Nat}
    (stands : whole.drop position = (regrow line row).labels ++ rest) :
    (entries register (regrow line row)).map (fun entry => some entry.1) =
      (row.places Seed.key? (whole.map Seed.key?) position).map fun i => whole[i]? := by
  induction row generalizing line position rest with
  | nil => rfl
  | tree seed body next _ ih =>
    obtain ⟨here, -, after⟩ := stands_tree stands
    rw [regrow]
    have later := ih neat.2 spelled.next after
    have spelledSeed := spelled.seed
    obtain ⟨element, lineStart, lineEnd⟩ := seed
    rw [Forest.places, List.map_cons, ← later]
    cases element with
    | participant p =>
      have found : register.declaration? p.key =
          whole[(whole.map Seed.key?).findIdx fun other => other = some p.key]? := by
        rw [known, List.find?_eq_getElem?_findIdx, List.findIdx_map]
        rfl
      have declared : (register.declaration? p.key).isSome = true := by
        rw [known, List.find?_isSome]
        refine ⟨_, List.mem_of_getElem? here, ?_⟩
        rw [Seed.key?_reread spelledSeed]
        simp [Seed.key?]
      obtain ⟨first, first_eq⟩ := Option.isSome_iff_exists.1 declared
      rw [@entries_participant _ _ p.key (Seed.key?_reread spelledSeed _ _), first_eq]
      simp only [Option.toList_some, List.map_cons, List.map_nil, List.singleton_append,
        Forest.place, Seed.key?, ← found, first_eq]
    | group g =>
      rw [entries_group (Element.reread_group spelledSeed)]
      simp only [List.map_cons, Forest.place, Seed.key?, here]
    | _ => exact absurd rfl neat.1.1
  | mark clause next ih => exact absurd neat.1 (by simp)

/-- The entries stand in the order of their lines when the places of the members do. -/
theorem sorted_entries_iff (known : ∀ key, register.declaration? key =
      whole.find? fun seed => seed.key? = some key)
    (ascends : whole.Pairwise fun a b => a.lineStart < b.lineStart)
    (neat : row.Neat .group) (spelled : IsSpelled row) {line position : Nat}
    (stands : whole.drop position = (regrow line row).labels ++ rest) :
    (entries register (regrow line row)).Pairwise (fun a b => a.1.lineStart ≤ b.1.lineStart) ↔
      (row.places Seed.key? (whole.map Seed.key?) position).Pairwise (· ≤ ·) := by
  have same := entries_places known neat spelled stands
  let ordered (x y : Option Seed) : Prop := ∀ a ∈ x, ∀ b ∈ y, a.lineStart ≤ b.lineStart
  have bound : ∀ i ∈ row.places Seed.key? (whole.map Seed.key?) position, i < whole.length := by
    intro i mem
    have image := List.mem_map_of_mem (f := fun i => whole[i]?) mem
    rw [← same] at image
    obtain ⟨entry, -, there⟩ := List.mem_map.1 image
    exact (List.getElem?_eq_some_iff.1 there.symm).1
  have left : (entries register (regrow line row)).Pairwise
      (fun a b => a.1.lineStart ≤ b.1.lineStart) ↔
      ((entries register (regrow line row)).map fun entry => some entry.1).Pairwise ordered := by
    rw [List.pairwise_map]
    simp [ordered]
  rw [left, same, List.pairwise_map]
  refine List.Pairwise.iff_of_mem fun {i j} hi hj => ?_
  have hi := bound i hi
  have hj := bound j hj
  simp only [ordered, List.getElem?_eq_getElem hi, List.getElem?_eq_getElem hj, Option.mem_some_iff,
    forall_eq']
  constructor
  · intro le
    by_contra other
    have less := List.pairwise_iff_getElem.1 ascends j i hj hi (by omega)
    omega
  · intro le
    rcases Nat.lt_or_eq_of_le le with less | rfl
    · exact Nat.le_of_lt (List.pairwise_iff_getElem.1 ascends i j hi hj less)
    · exact Nat.le_refl _

end

def trees : Grove → List (Seed × Grove)
  | .nil => []
  | .tree seed body next => (seed, body) :: trees next
  | .mark _ next => trees next

def treeLines (depth : Nat) (tree : Seed × Grove) : List (List Char) :=
  Grove.lines depth (.tree tree.1 tree.2 .nil)

theorem treeLines_eq (depth : Nat) (seed : Seed) (body : Grove) :
    treeLines depth (seed, body) = indented depth seed.element.writeHead ::
      (seed.element.writeBlockText.map (indented (depth + 1)) ++ (Grove.lines (depth + 1) body ++
        seed.element.writeEnd?.toList.map (indented depth))) := by
  simp only [treeLines, Grove.lines, List.append_nil, List.append_assoc]

theorem lines_tree (depth : Nat) (seed : Seed) (body next : Grove) :
    Grove.lines depth (.tree seed body next) =
      treeLines depth (seed, body) ++ Grove.lines depth next := by
  simp only [treeLines, Grove.lines, List.append_nil, List.append_assoc, List.cons_append]

theorem lines_ofTrees (depth : Nat) (trees : List (Seed × Grove)) :
    Grove.lines depth (ofTrees trees) = trees.flatMap (treeLines depth) := by
  induction trees with
  | nil => rfl
  | cons tree trees ih =>
    obtain ⟨seed, body⟩ := tree
    rw [ofTrees, lines_tree, ih, List.flatMap_cons]

theorem lines_of_neat (depth : Nat) {row : Grove} (neat : row.Neat .group) :
    Grove.lines depth row = ((trees row).map (treeLines depth)).flatten := by
  induction row with
  | nil => rfl
  | tree seed body next _ ih =>
    rw [lines_tree, ih neat.2, trees, List.map_cons, List.flatten_cons]
  | mark clause next ih => exact absurd neat.1 (by simp)

section
variable {register : Register} {row : Grove}

theorem entry_cases (declares : register.Declares) {entry : Seed × Grove}
    (mem : entry ∈ entries register row) :
    (∃ p, register.declaration? p.key = some entry.1 ∧ entry.1.element = .participant p ∧
      entry.2 = .nil) ∨ entry.1 ∈ row.labels ∧ ∃ g, entry.1.element = .group g := by
  induction row with
  | nil => simp [entries] at mem
  | tree seed body next _ ih =>
    rw [entries, List.mem_append] at mem
    rcases mem with mem | mem
    · obtain ⟨element, lineStart, lineEnd⟩ := seed
      cases element with
      | group g =>
        obtain rfl := List.mem_singleton.1 mem
        exact Or.inr ⟨List.mem_cons_self, g, rfl⟩
      | participant p =>
        obtain ⟨first, found, rfl⟩ := List.mem_map.1 mem
        have known : register.declaration? p.key = some first := Option.mem_toList.1 found
        obtain ⟨q, isParticipant, same⟩ := Seed.exists_participant (declares p.key first known)
        exact Or.inl ⟨q, same ▸ known, isParticipant, rfl⟩
      | _ => simp [Seed.key?] at mem
    · rcases ih mem with declared | ⟨inside, group⟩
      · exact Or.inl declared
      · exact Or.inr ⟨by simp [Forest.labels, inside], group⟩
  | mark clause next ih => exact ih mem

theorem groups_sublist (declares : register.Declares) :
    (((entries register row).filter fun entry => entry.1.isGroup).map Prod.fst).Sublist
      row.labels := by
  induction row with
  | nil => exact List.Sublist.slnil
  | tree seed body next _ ih =>
    have behind := ih.trans (List.sublist_append_right body.labels next.labels)
    obtain ⟨element, lineStart, lineEnd⟩ := seed
    rw [Forest.labels]
    cases element with
    | group g =>
      rw [entries_group (g := g) rfl, List.filter_cons_of_pos rfl, List.map_cons]
      exact behind.cons_cons _
    | participant p =>
      rw [@entries_participant _ _ p.key rfl, List.filter_append]
      cases found : register.declaration? p.key with
      | none => exact behind.cons _
      | some first =>
        obtain ⟨q, isParticipant, -⟩ := Seed.exists_participant (declares p.key first found)
        rw [Option.toList_some, List.map_cons, List.map_nil,
          List.filter_cons_of_neg (by simp [Seed.isGroup, isParticipant, Element.isGroup])]
        exact behind.cons _
    | _ => exact behind.cons _
  | mark clause next ih => exact ih

end

structure Indexes (register : Register) (whole : List Seed) : Prop where
  declaration : ∀ key, register.declaration? key = whole.find? fun seed => seed.key? = some key
  ascends : whole.Pairwise fun a b => a.lineStart < b.lineStart
  spelled : ∀ seed ∈ whole, seed.element.IsSpelled

section
variable {register : Register} {whole : List Seed} {row : Grove} {depth : Nat}

theorem Indexes.declares (index : Indexes register whole) : register.Declares := by
  intro key seed found
  rw [index.declaration] at found
  simpa using List.find?_some found

theorem Indexes.eq_of_line (index : Indexes register whole) {a b : Seed} (ha : a ∈ whole)
    (hb : b ∈ whole) (tie : a.lineStart = b.lineStart) : a = b := by
  have distinct : (whole.map Seed.lineStart).Nodup :=
    List.pairwise_map.2 (index.ascends.imp Nat.ne_of_lt)
  exact List.inj_on_of_nodup_map distinct ha hb tie

theorem Indexes.mem (index : Indexes register whole) (inside : row.labels ⊆ whole)
    {entry : Seed × Grove} (mem : entry ∈ entries register row) : entry.1 ∈ whole := by
  rcases entry_cases index.declares mem with ⟨p, found, -, -⟩ | ⟨within, -⟩
  · rw [index.declaration] at found
    exact List.mem_of_find?_eq_some found
  · exact inside within

theorem Indexes.groups_ascend (index : Indexes register whole) (inside : row.labels.Sublist whole) :
    ((entries register row).filter fun entry => entry.1.isGroup).Pairwise fun a b =>
      a.1.lineStart < b.1.lineStart := by
  have ascends := index.ascends.sublist ((groups_sublist index.declares).trans inside)
  rwa [List.pairwise_map] at ascends

/-- Entries of one line are the same. -/
theorem Indexes.eq_of_tie (index : Indexes register whole) (inside : row.labels.Sublist whole)
    {a b : Seed × Grove} (ha : a ∈ entries register row) (hb : b ∈ entries register row)
    (tie : a.1.lineStart = b.1.lineStart) : a = b := by
  have same := index.eq_of_line (index.mem inside.subset ha) (index.mem inside.subset hb) tie
  rcases entry_cases index.declares ha with ⟨p, -, isParticipant, none⟩ | ⟨-, g, isGroup⟩
  · rcases entry_cases index.declares hb with ⟨q, -, -, none'⟩ | ⟨-, g, isGroup⟩
    · exact Prod.ext same (none.trans none'.symm)
    · rw [same, isGroup] at isParticipant
      contradiction
  · have isGroup' : b.1.element = .group g := same ▸ isGroup
    have distinct : (((entries register row).filter fun entry => entry.1.isGroup).map
        fun entry => entry.1.lineStart).Nodup :=
      List.pairwise_map.2 ((index.groups_ascend inside).imp Nat.ne_of_lt)
    refine List.inj_on_of_nodup_map distinct (List.mem_filter.2 ⟨ha, ?_⟩)
      (List.mem_filter.2 ⟨hb, ?_⟩) tie
    · simp [Seed.isGroup, isGroup, Element.isGroup]
    · simp [Seed.isGroup, isGroup', Element.isGroup]

theorem indented_inj {a b : List Char} (ha : Text.IsTidy a) (hb : Text.IsTidy b)
    (same : indented depth a = indented depth b) : a = b := by
  rw [← (trim_indented depth ha).1, same, (trim_indented depth hb).1]

/-- Entries whose lines begin alike are the same, or both are groups. -/
theorem Indexes.eq_of_head (index : Indexes register whole) (inside : row.labels ⊆ whole)
    {a b : Seed × Grove} (ha : a ∈ entries register row) (hb : b ∈ entries register row)
    (heads : (treeLines depth a).head? = (treeLines depth b).head?) :
    a = b ∨ a.1.isGroup = true ∧ b.1.isGroup = true := by
  have spelledA := index.spelled a.1 (index.mem inside ha)
  have spelledB := index.spelled b.1 (index.mem inside hb)
  have same : a.1.element.writeHead = b.1.element.writeHead := by
    rw [treeLines_eq, treeLines_eq, List.head?_cons, List.head?_cons] at heads
    exact indented_inj spelledA.isTidy_writeHead spelledB.isTidy_writeHead (Option.some.inj heads)
  have lines := congrArg Line.read same
  have group (g : ParticipantGroup) {seed : Seed} (isGroup : seed.element = .group g) :
      seed.isGroup = true := by
    simp [Seed.isGroup, isGroup, Element.isGroup]
  rcases entry_cases index.declares ha with ⟨p, found, isParticipant, none⟩ | ⟨-, g, isGroup⟩
  · rw [isParticipant] at lines spelledA
    have readA : Line.read (Element.participant p).writeHead = .participant p :=
      (Line.read_participant spelledA).1
    rcases entry_cases index.declares hb with ⟨q, found', isParticipant', none'⟩ | ⟨-, g, isGroup⟩
    · rw [isParticipant'] at lines spelledB
      have readB : Line.read (Element.participant q).writeHead = .participant q :=
        (Line.read_participant spelledB).1
      obtain rfl : p = q := Line.participant.inj (readA.symm.trans (lines.trans readB))
      refine Or.inl (Prod.ext ?_ (none.trans none'.symm))
      exact Option.some.inj (found.symm.trans found')
    · rw [isGroup] at lines spelledB
      have readB : Line.read (Element.group g).writeHead = .group g :=
        (Line.read_group spelledB).1
      exact absurd (readA.symm.trans (lines.trans readB)) nofun
  · rw [isGroup] at lines spelledA
    have readA : Line.read (Element.group g).writeHead = .group g := (Line.read_group spelledA).1
    rcases entry_cases index.declares hb with ⟨q, -, isParticipant', -⟩ | ⟨-, g', isGroup'⟩
    · rw [isParticipant'] at lines spelledB
      have readB : Line.read (Element.participant q).writeHead = .participant q :=
        (Line.read_participant spelledB).1
      exact absurd (readA.symm.trans (lines.trans readB)) nofun
    · exact Or.inr ⟨group g isGroup, group g' isGroup'⟩

theorem Indexes.filter_ordered (index : Indexes register whole)
    (inside : row.labels.Sublist whole) :
    (ordered (declarations register row ++ groups register row)).filter
        (fun entry => entry.1.isGroup) =
      (entries register row).filter fun entry => entry.1.isGroup := by
  have perm : (ordered (declarations register row ++ groups register row)).Perm
      (entries register row) := (List.mergeSort_perm _ _).trans (entries_perm row)
  refine List.Perm.eq_of_pairwise (fun a b ha hb le ge => ?_)
    ((pairwise_ordered _).filter _) ((index.groups_ascend inside).imp Nat.le_of_lt)
    (perm.filter _)
  have ha := (List.mem_filter.1 ((perm.filter _).mem_iff.1 ha)).1
  have hb := (List.mem_filter.1 hb).1
  exact index.eq_of_tie inside ha hb (Nat.le_antisymm le ge)

def Resembles (depth : Nat) : List (Seed × Grove) → List (List (List Char)) → Prop :=
  List.Forall₂ fun tree written => (treeLines depth tree).head? = written.head? ∧
    (treeLines depth tree).length = written.length

theorem Resembles.length_eq {trees : List (Seed × Grove)} {texts : List (List (List Char))}
    (alike : Resembles depth trees texts) :
    (trees.flatMap (treeLines depth)).length = texts.flatten.length := by
  induction alike with
  | nil => rfl
  | cons here _ ih =>
    rw [List.flatMap_cons, List.flatten_cons, List.length_append, List.length_append, here.2, ih]

theorem length_members {texts : List (List (List Char))}
    (alike : Resembles depth (entries register row) texts) :
    (Grove.lines depth (members register row)).length = texts.flatten.length := by
  have perm : (ordered (declarations register row ++ groups register row)).Perm
      (entries register row) := (List.mergeSort_perm _ _).trans (entries_perm row)
  rw [members, lines_ofTrees, (perm.flatMap_right _).length_eq, alike.length_eq]

theorem lines_members_iff (index : Indexes register whole) (inside : row.labels.Sublist whole)
    {texts : List (List (List Char))} (alike : Resembles depth (entries register row) texts) :
    Grove.lines depth (members register row) = texts.flatten ↔
      (entries register row).Pairwise (fun a b => a.1.lineStart ≤ b.1.lineStart) ∧
        (entries register row).map (treeLines depth) = texts := by
  have perm : (ordered (declarations register row ++ groups register row)).Perm
      (entries register row) := (List.mergeSort_perm _ _).trans (entries_perm row)
  constructor
  · intro same
    rw [members, lines_ofTrees] at same
    obtain ⟨order, texts⟩ := @eq_of_flatMap_eq _ _ _ (fun entry => entry.1.isGroup) _ _ _ alike
      (fun tree => by rw [treeLines_eq]; exact List.cons_ne_nil _ _)
      (fun a ha b hb => index.eq_of_head inside.subset (perm.mem_iff.1 ha) hb)
      (index.filter_ordered inside) same
    exact ⟨order ▸ pairwise_ordered _, texts⟩
  · rintro ⟨sorted, texts⟩
    rw [members_eq sorted fun a ha b hb => index.eq_of_tie inside ha hb, lines_ofTrees, ← texts,
      List.flatMap_def]

theorem treeLines_of_element (depth : Nat) {a b : Seed} (same : a.element = b.element)
    (body : Grove) : treeLines depth (a, body) = treeLines depth (b, body) := by
  rw [treeLines_eq, treeLines_eq, same]

theorem treeLines_inj {seed seed' : Seed} (same : seed'.element = seed.element) {body body' : Grove} :
    treeLines depth (seed', body') = treeLines depth (seed, body) ↔
      Grove.lines (depth + 1) body' = Grove.lines (depth + 1) body := by
  rw [treeLines_eq, treeLines_eq, same, List.cons_inj_right, List.append_cancel_left_eq,
    List.append_cancel_right_eq]

/-- A group is written again as it was just when its members are settled and its entries are
written like its trees. -/
theorem members_regrow (index : Indexes register whole) (neat : row.Neat .group)
    (spelled : IsSpelled row) {line position : Nat} {rest : List Seed}
    (stands : whole.drop position = (regrow line row).labels ++ rest)
    (alike : Resembles depth (entries register (regrow line row))
      ((trees row).map (treeLines depth))) :
    (Grove.lines depth (members register (regrow line row))).length =
        (Grove.lines depth row).length ∧
      (Grove.lines depth (members register (regrow line row)) = Grove.lines depth row ↔
        (row.places Seed.key? (whole.map Seed.key?) position).Pairwise (· ≤ ·) ∧
          (entries register (regrow line row)).map (treeLines depth) =
            (trees row).map (treeLines depth)) := by
  have part : (regrow line row).labels.Sublist whole := by
    refine List.Sublist.trans ?_ (List.drop_sublist position whole)
    rw [stands]
    exact List.sublist_append_left _ _
  have count := length_members alike
  have same := lines_members_iff index part alike
  rw [← lines_of_neat depth neat] at count same
  rw [sorted_entries_iff index.declaration index.ascends neat spelled stands] at same
  exact ⟨count, same⟩

/-- The entries of a regrown group resemble its trees, and are written like them just when all
groups in it are settled. -/
theorem entries_regrow (index : Indexes register whole)
    (agrees : ∀ seed ∈ row.labels, ∀ key, seed.key? = some key →
      ∃ first, register.declaration? key = some first ∧ first.element = seed.element)
    (neat : row.Neat .group) (spelled : IsSpelled row) {line position : Nat} {rest : List Seed}
    (stands : whole.drop position = (regrow line row).labels ++ rest) (depth : Nat) :
    Resembles depth (entries register (regrow line row)) ((trees row).map (treeLines depth)) ∧
      ((entries register (regrow line row)).map (treeLines depth) =
          (trees row).map (treeLines depth) ↔
        row.Settled Seed.key? Seed.isGroup (whole.map Seed.key?) position) := by
  induction row generalizing line position rest depth with
  | nil => exact ⟨.nil, by simp [entries, regrow, trees, Forest.Settled]⟩
  | tree seed body next ihb ihn =>
    obtain ⟨-, under, after⟩ := stands_tree stands
    simp only [Forest.labels, List.forall_mem_cons, List.forall_mem_append] at agrees
    obtain ⟨behindAlike, behind⟩ := ihn agrees.2.2 neat.2 spelled.next after depth
    have spelledSeed := spelled.seed
    rw [regrow, trees, List.map_cons, Forest.Settled]
    obtain ⟨element, lineStart, lineEnd⟩ := seed
    cases element with
    | participant p =>
      obtain rfl := neat.1
      obtain ⟨first, found, same⟩ := agrees.1 p.key rfl
      have head := treeLines_of_element depth same .nil
      rw [@entries_participant _ _ p.key (Seed.key?_reread spelledSeed _ _), found,
        Option.toList_some, List.map_cons, List.map_nil, List.singleton_append, List.map_cons, head]
      refine ⟨.cons ⟨by rw [head], by rw [head]⟩ behindAlike, ?_⟩
      rw [List.cons_inj_right, behind]
      simp [Seed.isGroup, Element.isGroup, Forest.Settled]
    | group g =>
      obtain ⟨insideAlike, inside⟩ := ihb agrees.2.1 neat.1.2 spelled.body under (depth + 1)
      obtain ⟨count, same⟩ := members_regrow index neat.1.2 spelled.body under insideAlike
      rw [entries_group (Element.reread_group spelledSeed), List.map_cons]
      refine ⟨.cons ⟨?_, ?_⟩ behindAlike, ?_⟩
      · rw [treeLines_eq, treeLines_eq, Element.reread_group spelledSeed]
        rfl
      · rw [treeLines_eq, treeLines_eq, Element.reread_group spelledSeed]
        simp only [List.length_cons, List.length_append, count]
      · rw [List.cons.injEq, treeLines_inj (Element.reread_group spelledSeed), same, inside,
          behind]
        simp [Seed.isGroup, Element.isGroup, and_assoc]
    | _ => exact absurd rfl neat.1.1
  | mark clause next ih => exact absurd neat.1 (by simp)

end

end Grove

end SequenceDiagram
