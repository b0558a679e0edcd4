import SequenceDiagram.Proofs.Canonical
import SequenceDiagram.Proofs.Rereading

set_option autoImplicit false

namespace SequenceDiagram

def Register.Declares (register : Register) : Prop :=
  ∀ key seed, register.declaration? key = some seed → seed.key? = some key

namespace Seed

theorem exists_participant {seed : Seed} {key : String} (h : seed.key? = some key) :
    ∃ p, seed.element = .participant p ∧ p.key = key := by
  obtain ⟨element, lineStart, lineEnd⟩ := seed
  cases element with
  | participant p => exact ⟨p, rfl, Option.some.inj h⟩
  | _ => contradiction

end Seed

namespace Grove

theorem declares_register (grove : Grove) : grove.register.Declares := by
  intro key seed found
  simpa using List.find?_some found

theorem neat_append (place : Place) (a b : Grove) :
    Neat place (a.append b) ↔ Neat place a ∧ Neat place b := by
  induction a with
  | nil => simp [Forest.append, Neat]
  | tree seed body next _ ih => simp only [Forest.append, Neat, ih, and_assoc]
  | mark clause next ih => simp only [Forest.append, Neat, ih, and_assoc]

theorem neat_tree {place : Place} {seed : Seed} {body next : Grove} :
    Neat place (.tree seed body next) ↔ Neat place (.tree seed body .nil) ∧ Neat place next := by
  simp only [Neat, and_true]

theorem neat_ofTrees (place : Place) (trees : List (Seed × Grove)) :
    Neat place (ofTrees trees) ↔ ∀ tree ∈ trees, Neat place (.tree tree.1 tree.2 .nil) := by
  induction trees with
  | nil => simp [ofTrees, Neat]
  | cons tree trees ih =>
    obtain ⟨seed, body⟩ := tree
    rw [ofTrees, neat_tree, ih, List.forall_mem_cons]

theorem mem_ordered {trees : List (Seed × Grove)} {tree : Seed × Grove} :
    tree ∈ ordered trees ↔ tree ∈ trees :=
  List.mem_mergeSort

section
variable {register : Register} {body : Grove}

theorem neat_declarations (declares : register.Declares) {tree : Seed × Grove}
    (mem : tree ∈ declarations register body) : Neat .group (.tree tree.1 tree.2 .nil) := by
  induction body with
  | nil => simp [declarations] at mem
  | tree seed body next _ ih =>
    rw [declarations, List.mem_append] at mem
    rcases mem with mem | mem
    · obtain ⟨declared, found, rfl⟩ := List.mem_map.1 mem
      obtain ⟨key, -, found⟩ := Option.bind_eq_some_iff.1 (Option.mem_toList.1 found)
      obtain ⟨p, isParticipant, -⟩ := Seed.exists_participant (declares key declared found)
      simp [Neat, isParticipant]
    · exact ih mem
  | mark clause next ih => exact ih mem

theorem neat_groups (declares : register.Declares) {place place' : Place}
    (proper : body.Proper place) {tree : Seed × Grove} (mem : tree ∈ groups register body) :
    Neat place' (.tree tree.1 tree.2 .nil) := by
  induction body generalizing place place' tree with
  | nil => simp [groups] at mem
  | tree seed body next ihb ihn =>
    rw [groups, List.mem_append] at mem
    rcases mem with mem | mem
    · obtain ⟨element, lineStart, lineEnd⟩ := seed
      cases element with
      | group g =>
        obtain ⟨bare, inside⟩ := proper.1
        obtain rfl := List.mem_singleton.1 mem
        refine ⟨⟨bare, (neat_ofTrees _ _).2 fun tree mem => ?_⟩, trivial⟩
        rcases List.mem_append.1 (mem_ordered.1 mem) with mem | mem
        · exact neat_declarations declares mem
        · exact ihb inside mem
      | _ => simp at mem
    · exact ihn proper.2 mem
  | mark clause next ih => exact ih proper.2.2 mem

theorem neat_strays {place : Place} (outside : place ≠ .group) (body : Grove) :
    Neat place (strays body) := by
  induction body with
  | nil => trivial
  | tree seed body next ihb ihn =>
    obtain ⟨element, lineStart, lineEnd⟩ := seed
    cases element with
    | error fault => exact ⟨⟨outside, rfl⟩, ihn⟩
    | group g => exact (neat_append _ _ _).2 ⟨ihb, ihn⟩
    | _ => exact ihn
  | mark clause next ih => exact ih

/-- What was read properly is written neatly. -/
theorem neat_arrange (declares : register.Declares) {place : Place} {row : Grove}
    (outside : place ≠ .group) (proper : row.Proper place) :
    Neat place (arrange register row) := by
  induction row generalizing place with
  | nil => trivial
  | tree seed body next ihb ihn =>
    have behind := ihn outside proper.2
    obtain ⟨element, lineStart, lineEnd⟩ := seed
    cases element with
    | fragment f =>
      obtain ⟨-, bare, inside⟩ := proper.1
      exact ⟨⟨outside, bare, ihb (by simp) inside⟩, behind⟩
    | group g =>
      obtain ⟨bare, inside⟩ := proper.1
      refine ⟨⟨bare, (neat_ofTrees _ _).2 fun tree mem => ?_⟩,
        (neat_append _ _ _).2 ⟨neat_strays outside body, behind⟩⟩
      rcases List.mem_append.1 (mem_ordered.1 mem) with mem | mem
      · exact neat_declarations declares mem
      · exact neat_groups declares inside mem
    | participant p =>
      rw [arrange_participant register rfl]
      split
      · exact behind
      · exact ⟨rfl, behind⟩
    | _ => exact ⟨⟨outside, rfl⟩, behind⟩
  | mark clause next ih => exact ⟨proper.1, proper.2.1, ih outside proper.2.2⟩

theorem marks_of_neat {row : Grove} (h : row.Neat .group) : row.marks = [] := by
  induction row with
  | nil => rfl
  | tree seed body next ihb ihn =>
    rw [Forest.marks, ihn h.2, List.append_nil]
    obtain ⟨element, lineStart, lineEnd⟩ := seed
    cases element with
    | fragment f => exact absurd rfl h.1.1
    | group g => exact ihb h.1.2
    | participant p => rw [h.1]; rfl
    | _ => exact absurd rfl h.1.1
  | mark clause next ih => exact absurd h.1 (by simp)

theorem marks_strays (body : Grove) : (strays body).marks = [] := by
  induction body with
  | nil => rfl
  | tree seed body next ihb ihn =>
    obtain ⟨element, lineStart, lineEnd⟩ := seed
    cases element with
    | error fault => exact ihn
    | group g =>
      simp only [strays, Forest.marks_append, ihb, ihn]
      rfl
    | _ => exact ihn
  | mark clause next ih => exact ih

theorem marks_arrange (declares : register.Declares) {place : Place} {row : Grove}
    (outside : place ≠ .group) (proper : row.Proper place) :
    (arrange register row).marks ⊆ row.marks := by
  induction row generalizing place with
  | nil => exact List.Subset.refl _
  | tree seed body next ihb ihn =>
    have behind := ihn outside proper.2
    have wide := List.subset_append_of_subset_right body.marks behind
    have neat := neat_arrange declares outside proper
    obtain ⟨element, lineStart, lineEnd⟩ := seed
    cases element with
    | fragment f =>
      have inside := ihb (by simp) proper.1.2.2
      simp only [arrange, Forest.marks]
      exact List.append_subset.2 ⟨List.subset_append_of_subset_left _ inside, wide⟩
    | group g =>
      have members := marks_of_neat neat.1.2
      simp only [arrange, Forest.marks, Forest.marks_append, members, marks_strays,
        List.nil_append]
      exact wide
    | participant p =>
      rw [arrange_participant register rfl]
      split
      · exact wide
      · exact wide
    | _ => exact wide
  | mark clause next ih =>
    exact List.cons_subset_cons clause (ih outside proper.2.2)

end

theorem labels_ofTrees (trees : List (Seed × Grove)) :
    (ofTrees trees).labels = trees.flatMap fun tree => tree.1 :: tree.2.labels := by
  induction trees with
  | nil => rfl
  | cons tree trees ih =>
    obtain ⟨seed, body⟩ := tree
    simp only [ofTrees, Forest.labels, ih, List.flatMap_cons, List.cons_append]

def Unlisted (register : Register) (seed : Seed) : Prop :=
  ∀ key, seed.key? = some key → register.listed key = false

theorem unlisted_of_key? (register : Register) {seed : Seed} (h : seed.key? = none) :
    Unlisted register seed := by
  intro key declares
  rw [h] at declares
  exact absurd declares.symm (Option.some_ne_none key)

section
variable {register : Register} {Holds : Seed → Prop}

theorem forall_declarations (declared : ∀ key seed, register.declaration? key = some seed →
    Holds seed) {body : Grove} {tree : Seed × Grove} (mem : tree ∈ declarations register body) :
    Holds tree.1 ∧ tree.2 = .nil := by
  induction body with
  | nil => simp [declarations] at mem
  | tree seed body next _ ih =>
    rw [declarations, List.mem_append] at mem
    rcases mem with mem | mem
    · obtain ⟨found, first, rfl⟩ := List.mem_map.1 mem
      obtain ⟨key, -, first⟩ := Option.bind_eq_some_iff.1 (Option.mem_toList.1 first)
      exact ⟨declared key found first, rfl⟩
    · exact ih mem
  | mark clause next ih => exact ih mem

theorem forall_ofTrees {trees : List (Seed × Grove)}
    (h : ∀ tree ∈ trees, Holds tree.1 ∧ ∀ seed ∈ tree.2.labels, Holds seed) :
    ∀ seed ∈ (ofTrees trees).labels, Holds seed := by
  rw [labels_ofTrees]
  intro seed mem
  obtain ⟨tree, inside, mem⟩ := List.mem_flatMap.1 mem
  rcases List.mem_cons.1 mem with rfl | mem
  · exact (h tree inside).1
  · exact (h tree inside).2 seed mem

theorem forall_members (declared : ∀ key seed, register.declaration? key = some seed →
    Holds seed) {body : Grove}
    (inside : ∀ tree ∈ groups register body, Holds tree.1 ∧ ∀ seed ∈ tree.2.labels, Holds seed) :
    ∀ seed ∈ (members register body).labels, Holds seed := by
  refine forall_ofTrees fun tree mem => ?_
  rcases List.mem_append.1 (mem_ordered.1 mem) with mem | mem
  · obtain ⟨holds, none⟩ := forall_declarations declared mem
    refine ⟨holds, ?_⟩
    rw [none]
    simp [Forest.labels]
  · exact inside tree mem

theorem forall_groups (declared : ∀ key seed, register.declaration? key = some seed → Holds seed)
    {body : Grove} (row : ∀ seed ∈ body.labels, Unlisted register seed → Holds seed) :
    ∀ tree ∈ groups register body, Holds tree.1 ∧ ∀ seed ∈ tree.2.labels, Holds seed := by
  induction body with
  | nil => simp [groups]
  | tree seed body next ihb ihn =>
    simp only [Forest.labels, List.forall_mem_cons, List.forall_mem_append] at row
    intro tree mem
    rw [groups, List.mem_append] at mem
    rcases mem with mem | mem
    · obtain ⟨element, lineStart, lineEnd⟩ := seed
      cases element with
      | group g =>
        obtain rfl := List.mem_singleton.1 mem
        exact ⟨row.1 (unlisted_of_key? register rfl), forall_members declared (ihb row.2.1)⟩
      | _ => simp at mem
    · exact ihn row.2.2 tree mem
  | mark clause next ih => exact ih row

theorem forall_strays {body : Grove}
    (row : ∀ seed ∈ body.labels, Unlisted register seed → Holds seed) :
    ∀ seed ∈ (strays body).labels, Holds seed := by
  induction body with
  | nil => simp [strays, Forest.labels]
  | tree seed body next ihb ihn =>
    simp only [Forest.labels, List.forall_mem_cons, List.forall_mem_append] at row
    obtain ⟨element, lineStart, lineEnd⟩ := seed
    cases element with
    | error fault =>
      simp only [strays, Forest.labels, List.nil_append, List.forall_mem_cons]
      exact ⟨row.1 (unlisted_of_key? register rfl), ihn row.2.2⟩
    | group g =>
      simp only [strays, Forest.labels_append, List.forall_mem_append]
      exact ⟨ihb row.2.1, ihn row.2.2⟩
    | _ => exact ihn row.2.2
  | mark clause next ih => exact ih row

/-- What holds of all declarations, and of whatever else stands in a row, holds of the row as
arranged. -/
theorem forall_arrange (declared : ∀ key seed, register.declaration? key = some seed →
    Holds seed) {row : Grove} (h : ∀ seed ∈ row.labels, Unlisted register seed → Holds seed) :
    ∀ seed ∈ (arrange register row).labels, Holds seed := by
  induction row with
  | nil => simp [arrange, Forest.labels]
  | tree seed body next ihb ihn =>
    simp only [Forest.labels, List.forall_mem_cons, List.forall_mem_append] at h
    obtain ⟨head, inside, behind⟩ := h
    have next := ihn behind
    obtain ⟨element, lineStart, lineEnd⟩ := seed
    cases element with
    | fragment f =>
      simp only [arrange, Forest.labels, List.forall_mem_cons, List.forall_mem_append]
      exact ⟨head (unlisted_of_key? register rfl), ihb inside, next⟩
    | group g =>
      simp only [arrange, Forest.labels, Forest.labels_append, List.forall_mem_cons,
        List.forall_mem_append]
      exact ⟨head (unlisted_of_key? register rfl),
        forall_members declared (forall_groups declared inside), forall_strays inside, next⟩
    | participant p =>
      rw [arrange_participant register rfl]
      split
      · exact next
      · rename_i unlisted
        simp only [Forest.labels, List.nil_append, List.forall_mem_cons]
        refine ⟨head fun key declares => ?_, next⟩
        obtain rfl := Option.some.inj declares
        simpa using unlisted
    | _ =>
      simp only [arrange, Forest.labels, List.nil_append, List.forall_mem_cons]
      exact ⟨head (unlisted_of_key? register rfl), next⟩
  | mark clause next ih => exact ih h

end

def bulk (trees : List (Seed × Grove)) : Nat :=
  (trees.map fun tree => 1 + tree.2.size).sum

theorem size_ofTrees (trees : List (Seed × Grove)) : (ofTrees trees).size = bulk trees := by
  induction trees with
  | nil => rfl
  | cons tree trees ih =>
    obtain ⟨seed, body⟩ := tree
    rw [ofTrees, Forest.size, ih]
    rfl

theorem bulk_append (a b : List (Seed × Grove)) : bulk (a ++ b) = bulk a + bulk b := by
  simp [bulk]

theorem bulk_ordered (trees : List (Seed × Grove)) : bulk (ordered trees) = bulk trees :=
  ((List.mergeSort_perm _ _).map _).sum_eq

theorem size_members (register : Register) (body : Grove) :
    (members register body).size =
      bulk (declarations register body) + bulk (groups register body) := by
  rw [members, size_ofTrees, bulk_ordered, bulk_append]

theorem size_members_strays (register : Register) (body : Grove) :
    (members register body).size + (strays body).size ≤ body.size := by
  rw [size_members]
  induction body with
  | nil => exact Nat.le_refl _
  | tree seed body next ihb ihn =>
    obtain ⟨element, lineStart, lineEnd⟩ := seed
    cases element with
    | participant p =>
      have single : bulk ((register.declaration? p.key).toList.map fun first =>
          (first, (.nil : Grove))) ≤ 1 := by
        cases register.declaration? p.key <;> simp [bulk, Forest.size]
      simp only [declarations, groups, strays, Seed.key?, Option.bind_some, bulk_append,
        Forest.size, List.nil_append]
      omega
    | group g =>
      have inside := size_members register body
      simp only [declarations, groups, strays, Seed.key?, Option.bind_none, Option.toList_none,
        List.map_nil, List.nil_append, bulk_append, Forest.size, Forest.size_append]
      rw [show bulk [(_, ofTrees (ordered (declarations register body ++ groups register body)))] =
        1 + (members register body).size from rfl, inside]
      omega
    | _ =>
      simp only [declarations, groups, strays, Seed.key?, Option.bind_none, Option.toList_none,
        List.map_nil, List.nil_append, Forest.size]
      omega
  | mark clause next ih => exact ih

theorem size_arrange (register : Register) (row : Grove) :
    (arrange register row).size ≤ row.size := by
  induction row with
  | nil => exact Nat.le_refl _
  | tree seed body next ihb ihn =>
    obtain ⟨element, lineStart, lineEnd⟩ := seed
    cases element with
    | fragment f =>
      simp only [arrange, Forest.size]
      omega
    | group g =>
      have inside := size_members_strays register body
      simp only [arrange, Forest.size, Forest.size_append]
      omega
    | participant p =>
      rw [arrange_participant register rfl]
      split
      · simp only [Forest.size]
        omega
      · simp only [Forest.size]
        omega
    | _ =>
      simp only [arrange, Forest.size]
      omega
  | mark clause next ih => exact ih

theorem neat_arranged {grove : Grove} (proper : grove.Proper .top) :
    Neat .top grove.arranged :=
  neat_arrange (declares_register grove) (by simp) proper

theorem IsRead.isSpelled {grove : Grove} (read : grove.IsRead) : IsSpelled grove where
  seeds seed mem := (read.1 seed mem).isSpelled
  clauses clause mem := by
    obtain ⟨line, tidy, header⟩ := read.2 clause mem
    exact ElseClause.isSpelled_of_readHead? tidy header

theorem isSpelled_arranged {grove : Grove} (proper : grove.Proper .top)
    (spelled : IsSpelled grove) : IsSpelled grove.arranged where
  seeds := forall_arrange (fun key seed found =>
    spelled.seeds seed (List.mem_of_find?_eq_some found)) fun seed mem _ => spelled.seeds seed mem
  clauses clause mem :=
    spelled.clauses clause (marks_arrange (declares_register grove) (by simp) proper mem)

theorem proper_of_neat {place : Place} {row : Grove} (h : row.Neat place) : row.Proper place := by
  induction row generalizing place with
  | nil => trivial
  | tree seed body next ihb ihn =>
    have behind := ihn h.2
    obtain ⟨element, lineStart, lineEnd⟩ := seed
    cases element with
    | fragment f => exact ⟨⟨h.1.1, h.1.2.1, ihb h.1.2.2⟩, behind⟩
    | group g => exact ⟨⟨h.1.1, ihb h.1.2⟩, behind⟩
    | error fault => exact ⟨h.1.2, behind⟩
    | _ => exact ⟨h.1, behind⟩
  | mark clause next ih => exact ⟨h.1, h.2.1, ih h.2.2⟩

theorem size_regrow (line : Nat) (row : Grove) : (regrow line row).size = row.size := by
  induction row generalizing line with
  | nil => rfl
  | tree seed body next ihb ihn => simp only [regrow, Forest.size, ihb, ihn]
  | mark clause next ih => exact ih (line + 1)

theorem elements_regrow (line : Nat) (row : Grove) :
    (regrow line row).labels.map Seed.element =
      row.labels.map fun seed => seed.element.reread := by
  induction row generalizing line with
  | nil => rfl
  | tree seed body next ihb ihn =>
    simp only [regrow, Forest.labels, List.map_cons, List.map_append, ihb, ihn]
  | mark clause next ih => exact ih (line + 1)

end Grove

namespace Element

theorem reread_cases (element : Element) :
    (∃ text, element.reread = .comment text) ∨ (∃ m, element.reread = .message m) ∨
      element.reread = element := by
  unfold reread
  split
  · exact Or.inl ⟨_, rfl⟩
  · exact Or.inr (Or.inl ⟨_, rfl⟩)
  · exact Or.inr (Or.inr rfl)

theorem isError_reread {element : Element} (h : element.IsSpelled) :
    element.reread.isError = false := by
  cases last : element.writeEnd? with
  | none => exact (h.reread last).2.2
  | some line =>
    have sound : element.isError = false := by
      cases element with
      | error fault => contradiction
      | _ => rfl
    rcases reread_cases element with ⟨text, same⟩ | ⟨m, same⟩ | same
    · rw [same]; rfl
    · rw [same]; rfl
    · rw [same, sound]

end Element

namespace Grove

theorem neat_regrow (line : Nat) {place : Place} {row : Grove} (neat : row.Neat place)
    (spelled : IsSpelled row) : Neat place (regrow line row) := by
  induction row generalizing line place with
  | nil => trivial
  | tree seed body next ihb ihn =>
    have behind (line : Nat) := ihn line neat.2 spelled.next
    have spelledSeed := spelled.seed
    obtain ⟨element, lineStart, lineEnd⟩ := seed
    have leaf (outside : place ≠ .group) (none : body = .nil)
        (single : ∀ line last, Neat place (.tree ⟨element, line, last⟩ .nil .nil)) :
        Neat place (regrow line (.tree ⟨element, lineStart, lineEnd⟩ body next)) := by
      rw [none, regrow, neat_tree]
      refine ⟨?_, behind _⟩
      rcases element.reread_cases with ⟨text, same⟩ | ⟨m, same⟩ | same
      · rw [same]
        exact ⟨⟨outside, rfl⟩, trivial⟩
      · rw [same]
        exact ⟨⟨outside, rfl⟩, trivial⟩
      · rw [same]
        exact single _ _
    cases element with
    | fragment f =>
      rw [regrow, Element.reread_fragment spelledSeed]
      exact ⟨⟨neat.1.1, neat.1.2.1, ihb _ neat.1.2.2 spelled.body⟩, behind _⟩
    | group g =>
      rw [regrow, Element.reread_group spelledSeed]
      exact ⟨⟨neat.1.1, ihb _ neat.1.2 spelled.body⟩, behind _⟩
    | participant p =>
      rw [regrow, Element.reread_participant spelledSeed, neat.1]
      exact ⟨rfl, behind _⟩
    | _ => exact leaf neat.1.1 neat.1.2 fun _ _ => ⟨⟨neat.1.1, rfl⟩, trivial⟩
  | mark clause next ih => exact ⟨neat.1, neat.2.1, ih _ neat.2.2 spelled.behind⟩

end Grove

namespace Document

/-- The canonical form of a text, and what is read of it. -/
theorem exists_reread (text : String) (fits : (read text).nodes.length ≤ 2 ^ 32) :
    ∃ grove : Grove, grove.Proper .top ∧ grove.Spans 0 (Text.lines text.toList).length ∧
      grove.size ≤ NodeId.count ∧ read text = ⟨grove.plant 0 0⟩ ∧
      Grove.Neat .top grove.arranged ∧ Grove.IsSpelled grove.arranged ∧
      format text = String.ofList (grove.arranged.lines 0 |>.flatMap fun line => line ++ ['\n']) ∧
      read (format text) = ⟨(Grove.regrow 1 grove.arranged).plant 0 0⟩ := by
  obtain ⟨grove, proper, spans, isRead, planted, written⟩ := exists_arranged text fits
  have neat := Grove.neat_arranged proper
  have spelled := Grove.isSpelled_arranged proper isRead.isSpelled
  rw [planted, Grove.length_plant] at fits
  refine ⟨grove, proper, spans, fits, planted, neat, spelled, written, ?_⟩
  rw [written]
  exact readFrom_lines 0 neat spelled

theorem hasErrors_plant (first : UInt32) {place : Place} {grove : Grove}
    (h : grove.Proper place) :
    (Document.mk (grove.plant first 0)).hasErrors =
      grove.labels.any fun seed => seed.element.isError := by
  have bare (element : Element) : element.bare.isError = element.isError := by
    cases element <;> rfl
  have test : (fun seed : Seed => seed.element.isError) ∘ Node.seed =
      fun node => node.element.isError := funext fun node => bare node.element
  rw [← Grove.labels_plant first h 0, List.any_map, test, hasErrors]

/-- Canonical text is read without errors, whatever text it is the canonical form of. Identifiers
are 32-bit words, so it takes `fits` for every node of the text to have its own. -/
theorem hasErrors_read_format (text : String) (fits : (read text).nodes.length ≤ 2 ^ 32) :
    (read (format text)).hasErrors = false := by
  obtain ⟨grove, -, -, -, -, neat, spelled, -, again⟩ := exists_reread text fits
  have regrown := Grove.proper_of_neat (Grove.neat_regrow 1 neat spelled)
  rw [again, hasErrors_plant 0 regrown, List.any_eq_false]
  intro seed mem
  have element : seed.element ∈ (Grove.regrow 1 grove.arranged).labels.map Seed.element :=
    List.mem_map_of_mem mem
  rw [Grove.elements_regrow, List.mem_map] at element
  obtain ⟨source, inside, same⟩ := element
  rw [← same, Element.isError_reread (spelled.seeds source inside)]
  simp

/-- A stray line in an open group, an `else` and an `end` without a block, and an open note. -/
theorem hasErrors_read_format_of_faults :
    let text := "else\nend\nparticipantgroup\nA->B\nend\nloop\nnote over A\nA->B"
    (read text).hasErrors = true ∧ (read text).nodes.length ≤ 2 ^ 32 ∧
      (read (format text)).hasErrors = false := by
  intro text
  have fits : (read text).nodes.length ≤ 2 ^ 32 := by decide +kernel
  exact ⟨by decide +kernel, fits, hasErrors_read_format text fits⟩

end Document

end SequenceDiagram
