import SequenceDiagram.Proofs.CleanText

set_option autoImplicit false

namespace SequenceDiagram.Grove

section
variable (register : Register)

def entries : Grove → List (Seed × Grove)
  | .nil => []
  | .tree seed body next =>
    (match seed.element with
      | .group _ => [(seed, members register body)]
      | _ => (seed.key?.bind register.declaration?).toList.map fun first => (first, .nil)) ++
    entries next
  | .mark _ next => entries next

variable {register}

theorem entries_participant {seed : Seed} {key : String} (h : seed.key? = some key)
    (body next : Grove) :
    entries register (.tree seed body next) =
      (register.declaration? key).toList.map (fun first => (first, .nil)) ++
        entries register next := by
  obtain ⟨p, isParticipant, -⟩ := Seed.exists_participant h
  rw [entries]
  simp only [isParticipant, h, Option.bind_some]

theorem entries_group {seed : Seed} {g : ParticipantGroup} (h : seed.element = .group g)
    (body next : Grove) :
    entries register (.tree seed body next) =
      (seed, members register body) :: entries register next := by
  rw [entries]
  simp only [h]
  rfl

/-- The members are sorted from their declarations and the nested groups. -/
theorem entries_perm (body : Grove) :
    (declarations register body ++ groups register body).Perm (entries register body) := by
  induction body with
  | nil => exact .nil
  | tree seed body next _ ih =>
    rw [declarations, groups, entries]
    cases h : seed.element with
    | group g =>
      have none : seed.key? = none := by
        unfold Seed.key?
        rw [h]
      simp only [none, Option.bind_none, Option.toList_none, List.map_nil, List.nil_append,
        List.singleton_append]
      exact List.perm_middle.trans (ih.cons _)
    | _ =>
      simp only [List.nil_append, List.append_assoc]
      exact ih.append_left _
  | mark clause next ih => exact ih

theorem pairwise_ordered (trees : List (Seed × Grove)) :
    (ordered trees).Pairwise fun a b => a.1.lineStart ≤ b.1.lineStart := by
  have ascending := @List.pairwise_mergeSort _ (fun a b : Seed × Grove =>
    decide (a.1.lineStart ≤ b.1.lineStart)) (fun a b c => by simp; omega)
    (fun a b => by simp; omega) trees
  exact ascending.imp fun h => by simpa using h

theorem ordered_eq {trees row : List (Seed × Grove)} (perm : trees.Perm row)
    (sorted : row.Pairwise fun a b => a.1.lineStart ≤ b.1.lineStart)
    (ties : ∀ a ∈ row, ∀ b ∈ row, a.1.lineStart = b.1.lineStart → a = b) :
    ordered trees = row := by
  have same : (ordered trees).Perm row := (List.mergeSort_perm _ _).trans perm
  exact List.Perm.eq_of_pairwise (fun a b ha hb le ge => ties a (same.mem_iff.1 ha) b hb
    (Nat.le_antisymm le ge)) (pairwise_ordered trees) sorted same

theorem members_eq {body : Grove}
    (sorted : (entries register body).Pairwise fun a b => a.1.lineStart ≤ b.1.lineStart)
    (ties : ∀ a ∈ entries register body, ∀ b ∈ entries register body,
      a.1.lineStart = b.1.lineStart → a = b) :
    members register body = ofTrees (entries register body) :=
  congrArg ofTrees (ordered_eq (entries_perm body) sorted ties)

theorem members_eq_of_strict {body : Grove}
    (sorted : (entries register body).Pairwise fun a b => a.1.lineStart < b.1.lineStart) :
    members register body = ofTrees (entries register body) := by
  have distinct : ((entries register body).map fun tree => tree.1.lineStart).Nodup :=
    List.pairwise_map.2 (sorted.imp Nat.ne_of_lt)
  exact members_eq (sorted.imp Nat.le_of_lt) fun a ha b hb tie =>
    List.inj_on_of_nodup_map distinct ha hb tie

theorem strays_eq_nil {body : Grove}
    (sound : ∀ seed ∈ body.labels, seed.element.isError = false) :
    strays body = .nil := by
  induction body with
  | nil => rfl
  | tree seed body next ihb ihn =>
    simp only [Forest.labels, List.forall_mem_cons, List.forall_mem_append] at sound
    obtain ⟨element, lineStart, lineEnd⟩ := seed
    cases element with
    | error fault => exact absurd sound.1 (by simp [Element.isError])
    | group g =>
      simp only [strays, ihb sound.2.1, ihn sound.2.2]
      rfl
    | _ => exact ihn sound.2.2
  | mark clause next ih => exact ih sound

end

def freeKeys : Grove → List String
  | .nil => []
  | .tree seed body next =>
    (match seed.element with
      | .participant p => [p.key]
      | .fragment _ => freeKeys body
      | _ => []) ++ freeKeys next
  | .mark _ next => freeKeys next

theorem count_keys_group {row : Grove} (proper : row.Proper .group) (key : String) :
    (row.labels.filterMap Seed.key?).count key =
      row.declaredKeys.count key + row.listedKeys.count key := by
  induction row with
  | nil => rfl
  | tree seed body next ihb ihn =>
    have behind := ihn proper.2
    obtain ⟨element, lineStart, lineEnd⟩ := seed
    cases element with
    | participant p =>
      rw [proper.1]
      simp only [Forest.labels, List.nil_append, List.filterMap_cons, Seed.key?, declaredKeys,
        Option.toList_some, listedKeys, List.singleton_append, List.count_cons, behind]
      omega
    | group g =>
      have inside := ihb proper.1.2
      simp only [Forest.labels, List.filterMap_cons, List.filterMap_append, Seed.key?,
        declaredKeys, Option.toList_none, listedKeys, List.nil_append, List.count_append, inside,
        behind]
      omega
    | error fault =>
      rw [proper.1]
      exact behind
    | _ => exact absurd rfl proper.1.1
  | mark clause next ih => exact absurd proper.1 (by simp)

theorem count_keys {row : Grove} {place : Place} (outside : place ≠ .group)
    (proper : row.Proper place) (key : String) :
    (row.labels.filterMap Seed.key?).count key =
      row.freeKeys.count key + row.listedKeys.count key := by
  induction row generalizing place with
  | nil => rfl
  | tree seed body next ihb ihn =>
    have behind := ihn outside proper.2
    obtain ⟨element, lineStart, lineEnd⟩ := seed
    cases element with
    | participant p =>
      rw [proper.1]
      simp only [Forest.labels, List.nil_append, List.filterMap_cons, Seed.key?, freeKeys,
        listedKeys, List.singleton_append, List.count_cons, behind]
      omega
    | fragment f =>
      have inside := @ihb .fragment (by simp) proper.1.2.2
      simp only [Forest.labels, List.filterMap_cons, List.filterMap_append, Seed.key?, freeKeys,
        listedKeys, List.nil_append, List.count_append, inside, behind]
      omega
    | group g =>
      have inside := count_keys_group proper.1.2 key
      simp only [Forest.labels, List.filterMap_cons, List.filterMap_append, Seed.key?, freeKeys,
        listedKeys, List.nil_append, List.count_append, inside, behind]
      omega
    | error fault =>
      rw [proper.1]
      exact behind
    | _ =>
      rw [proper.1.2]
      exact behind
  | mark clause next ih => exact ih outside proper.2.2

end SequenceDiagram.Grove
