import SequenceDiagram.Proofs.Holding
import SequenceDiagram.Proofs.Spacing

set_option autoImplicit false

namespace SequenceDiagram

namespace Layout

theorem mem_distinct {item : String} {items : List String} :
    item ∈ distinct items ↔ item ∈ items := by
  induction items with
  | nil => rfl
  | cons first items ih =>
    rw [distinct, List.mem_cons, List.mem_cons, List.mem_filter, ih]
    by_cases same : item = first <;> simp [same]

theorem isSome_lookup_iff {β : Type} {entries : List (String × β)} {key : String} :
    (entries.lookup key).isSome ↔ key ∈ entries.map Prod.fst := by
  rw [List.lookup_isSome_iff, List.mem_map]
  exact exists_congr fun entry => and_congr_right fun _ => beq_iff_eq.trans eq_comm

theorem lookup_of_mem {β : Type} {entries : List (String × β)}
    (once : (entries.map Prod.fst).Nodup) {entry : String × β} (mem : entry ∈ entries) :
    entries.lookup entry.1 = some entry.2 := by
  obtain ⟨value, found⟩ := Option.isSome_iff_exists.1
    (isSome_lookup_iff.2 (List.mem_map_of_mem (f := Prod.fst) mem))
  have same := List.inj_on_of_nodup_map once (mem_of_lookup found) mem rfl
  rw [found, ← same]

theorem nodup_distinct (items : List String) : (distinct items).Nodup := by
  induction items with
  | nil => exact List.nodup_nil
  | cons first items ih =>
    refine List.nodup_cons.2 ⟨fun mem => ?_, ih.filter _⟩
    simp at mem

end Layout

namespace Document
open Layout

variable (document : Document)

theorem nodup_roster : document.roster.Nodup :=
  nodup_distinct _

theorem mem_roster_of_mentions {document : Document} {node : Node} (mem : node ∈ document.nodes)
    {key : String} (mentions : key ∈ node.element.mentions) : key ∈ document.roster :=
  mem_distinct.2 (List.mem_flatMap.2 ⟨node, mem, mentions⟩)

theorem mem_roster_of_declaration? {document : Document} {key : String} {node : Node}
    {p : Participant} (declared : document.declaration? key = some (node, p)) :
    key ∈ document.roster := by
  obtain ⟨other, mem, found⟩ := List.exists_of_findSome?_eq_some declared
  refine mem_roster_of_mentions mem ?_
  obtain ⟨id, lineStart, lineEnd, element⟩ := other
  cases element with
  | participant q =>
    dsimp only at found
    split at found
    · rename_i same
      exact List.mem_singleton.2 same.symm
    · contradiction
  | _ => contradiction

end Document

namespace Layout.Columns
variable {α : Type} [Scalar α]

theorem map_fst_boxesFrom (config : Config α) (top center : α) (spread : List α)
    (row : List (String × α)) :
    (boxesFrom config top center spread row).map Prod.fst = row.map Prod.fst := by
  induction row generalizing center spread with
  | nil => rfl
  | cons entry row ih =>
    cases spread with
    | nil => exact congrArg (entry.1 :: ·) (ih _ _)
    | cons distance spread => exact congrArg (entry.1 :: ·) (ih _ _)

/-- The columns of a document are those of its roster. -/
theorem order_ofDocument (document : Document) (config : Config α) (top : α) :
    (ofDocument document config top).order = document.roster := by
  have length := length_widths document config
  unfold ofDocument
  dsimp only
  split
  · rename_i none
    rw [none, List.length_nil] at length
    rw [List.length_eq_zero_iff.1 length.symm]
    rfl
  · exact (map_fst_boxesFrom _ _ _ _ _).trans (List.map_fst_zip length.ge)

omit [Scalar α] in
theorem isSome_rect?_iff (columns : Columns α) (key : String) :
    (columns.rect? key).isSome ↔ key ∈ columns.order :=
  isSome_lookup_iff

theorem isSome_center?_iff (columns : Columns α) (key : String) :
    (columns.center? key).isSome ↔ key ∈ columns.order := by
  rw [center?, Option.isSome_map, isSome_rect?_iff]

end Layout.Columns

namespace Grove

theorem exists_of_mem_declaredKeys {row : Grove} {key : String} (h : key ∈ row.declaredKeys) :
    ∃ seed ∈ row.labels, seed.key? = some key := by
  induction row with
  | nil => simp [declaredKeys] at h
  | tree seed body next _ ih =>
    rw [declaredKeys, List.mem_append, Option.mem_toList] at h
    rcases h with declares | h
    · exact ⟨seed, List.mem_cons_self, declares⟩
    · obtain ⟨other, mem, declares⟩ := ih h
      exact ⟨other, by simp [Forest.labels, mem], declares⟩
  | mark _ next ih => exact ih h

theorem exists_of_mem_listedKeys {grove : Grove} {key : String} (h : key ∈ grove.listedKeys) :
    ∃ seed ∈ grove.labels, seed.key? = some key := by
  induction grove with
  | nil => simp [listedKeys] at h
  | tree seed body next ihb ihn =>
    rw [listedKeys, List.mem_append, List.mem_append] at h
    rcases h with h | h | h
    · split at h
      · obtain ⟨other, mem, declares⟩ := exists_of_mem_declaredKeys h
        exact ⟨other, by simp [Forest.labels, mem], declares⟩
      · simp at h
    · obtain ⟨other, mem, declares⟩ := ihb h
      exact ⟨other, by simp [Forest.labels, mem], declares⟩
    · obtain ⟨other, mem, declares⟩ := ihn h
      exact ⟨other, by simp [Forest.labels, mem], declares⟩
  | mark _ next ih => exact ih h

end Grove

/-- In a document that is read, participants that a group lists have columns. -/
theorem Document.mem_roster_of_listed (first : UInt32) (text : String) {key : String}
    (h : key ∈ (readFrom first text).groupedAliases) : key ∈ (readFrom first text).roster := by
  obtain ⟨grove, proper, -, -, planted⟩ := readFrom_eq_plant first text
  rw [planted] at h ⊢
  rw [Grove.groupedAliases_plant first proper] at h
  obtain ⟨seed, mem, declares⟩ := Grove.exists_of_mem_listedKeys h
  obtain ⟨declaration, found⟩ :=
    Option.isSome_iff_exists.1 (Grove.knows_register grove seed mem key declares)
  obtain ⟨node, p, declared, -⟩ := (Grove.keeps_register first proper).declared key _ found
  exact mem_roster_of_declaration? declared

end SequenceDiagram
