import SequenceDiagram.Proofs.Reprinting
import SequenceDiagram.Proofs.RoundTrip

set_option autoImplicit false

namespace SequenceDiagram

open Text

namespace Message

/-- A message that is written the same way again: unstyled, read as a comment, or not read with
another arrow. -/
def IsSteady (m : Message) : Prop :=
  m.style = none ∨ "//".toList <+: m.source.toList ∨ ¬m.Drifts

theorem write_of_readComment? {m : Message} (h : m.IsSpelled) {text : String}
    (comment : Line.readComment? m.write = some text) :
    m.write = '/' :: '/' :: text.toList := by
  rcases Line.eq_of_readComment? comment with slashes | hash
  · exact slashes
  · obtain ⟨more, source⟩ := slashes_of_readComment? h comment
    have written := write_eq m
    rw [hash, head, ← source] at written
    exact absurd (List.cons.inj written).1 (by decide)

theorem readComment?_of_slashes {m : Message} (slashes : "//".toList <+: m.source.toList) :
    Line.readComment? m.write ≠ none := by
  obtain ⟨more, source⟩ := slashes
  rw [write_eq, head, ← source]
  exact Option.some_ne_none _

end Message

namespace Element

variable {element : Element}

theorem IsSpelled.again (h : element.IsSpelled) : element.reread.IsSpelled := by
  cases last : element.writeEnd? with
  | none => exact isSpelled_of_isLine h.isTidy_writeHead (h.reread last).2.1
  | some line =>
    cases element with
    | fragment f => rwa [reread_fragment h]
    | group g => rwa [reread_group h]
    | note n => rwa [reread_note h.1]
    | _ => contradiction

theorem writeEnd?_reread (h : element.IsSpelled) :
    element.reread.writeEnd? = element.writeEnd? ∧
      element.reread.writeBlockText = element.writeBlockText := by
  cases element with
  | fragment f => rw [reread_fragment h]; exact ⟨rfl, rfl⟩
  | group g => rw [reread_group h]; exact ⟨rfl, rfl⟩
  | note n => rw [reread_note h.1]; exact ⟨rfl, rfl⟩
  | _ =>
    rcases reread_cases _ with ⟨text, same⟩ | ⟨m, same⟩ | same <;> rw [same] <;> exact ⟨rfl, rfl⟩

theorem writeHead_reread_iff (h : element.IsSpelled) :
    element.reread.writeHead = element.writeHead ↔ ∀ m, element = .message m → m.IsSteady := by
  cases element with
  | message m =>
    have steady : (∀ m', Element.message m = .message m' → m'.IsSteady) ↔ m.IsSteady :=
      ⟨fun all => all m rfl, fun steady m' same => Element.message.inj same ▸ steady⟩
    rw [steady]
    unfold reread
    rw [show (Element.message m).writeHead = m.write from rfl]
    obtain ⟨-, ⟨text, comment, read⟩ | ⟨plain, m', found, read⟩⟩ := Line.read_message h
    · rw [read]
      refine iff_of_true ?_ (Or.inr (Or.inl (Message.slashes_of_readComment? h comment)))
      exact (Message.write_of_readComment? h comment).symm
    · rw [read]
      refine (Message.write_eq_iff h found).trans (or_congr_right ?_)
      exact ⟨Or.inr, fun still => still.resolve_left fun slashes =>
        Message.readComment?_of_slashes slashes plain⟩
  | error fault =>
    refine iff_of_true ?_ fun _ same => nomatch same
    obtain ⟨text, written, -⟩ := h
    have read := (Line.read_slashes text).1
    unfold reread
    rw [show (Element.error fault).writeHead = fault.write from rfl, written, read]
    change '/' :: '/' :: (String.ofList text).toList = _
    rw [String.toList_ofList]
  | _ =>
    have same := reread_eq_self h rfl fun _ same => nomatch same
    exact iff_of_true (congrArg writeHead same) fun _ same => nomatch same

end Element

namespace Grove

theorem marks_regrow (line : Nat) (row : Grove) : (regrow line row).marks = row.marks := by
  induction row generalizing line with
  | nil => rfl
  | tree seed body next ihb ihn => simp only [regrow, Forest.marks, ihb, ihn]
  | mark clause next ih => simp only [regrow, Forest.marks, ih]

theorem isSpelled_regrow (line : Nat) {row : Grove} (h : IsSpelled row) :
    IsSpelled (regrow line row) where
  seeds seed mem := by
    have element := List.mem_map_of_mem (f := Seed.element) mem
    rw [elements_regrow, List.mem_map] at element
    obtain ⟨source, inside, same⟩ := element
    rw [← same]
    exact (h.seeds source inside).again
  clauses clause mem := h.clauses clause (marks_regrow line row ▸ mem)

structure Recalls (register : Register) (row : Grove) : Prop where
  agrees : ∀ seed ∈ row.labels, ∀ key, seed.key? = some key → register.listed key = true →
    ∃ first, register.declaration? key = some first ∧ first.element = seed.element
  listed : ∀ key ∈ row.listedKeys, register.listed key = true
  free : ∀ key ∈ row.freeKeys, register.listed key = false

def AllSteady (row : Grove) : Prop :=
  ∀ seed ∈ row.labels, ∀ m, seed.element = .message m → m.IsSteady

theorem allSteady_tree {seed : Seed} {body next : Grove} :
    AllSteady (.tree seed body next) ↔
      (∀ m, seed.element = .message m → m.IsSteady) ∧ AllSteady body ∧ AllSteady next := by
  simp only [AllSteady, Forest.labels, List.forall_mem_cons, List.forall_mem_append]

theorem allSteady_nil : AllSteady .nil :=
  fun _ mem => absurd mem List.not_mem_nil

theorem allSteady_alone {seed : Seed} {body next : Grove} :
    AllSteady (.tree seed body next) ↔ AllSteady (.tree seed body .nil) ∧ AllSteady next := by
  rw [allSteady_tree, allSteady_tree, and_iff_left allSteady_nil, and_assoc]

theorem settled_alone {keys : List (Option String)} {position : Nat} {seed : Seed}
    {body next : Grove} :
    Forest.Settled Seed.key? Seed.isGroup keys position (.tree seed body next) ↔
      Forest.Settled Seed.key? Seed.isGroup keys position (.tree seed body .nil) ∧
        next.Settled Seed.key? Seed.isGroup keys (position + 1 + body.size) := by
  simp only [Forest.Settled, and_true, and_assoc]

/-- There are no messages in groups. -/
theorem allSteady_of_proper {row : Grove} (proper : row.Proper .group) : AllSteady row := by
  induction row with
  | nil => exact allSteady_nil
  | tree seed body next ihb ihn =>
    have behind := ihn proper.2
    rw [allSteady_tree]
    obtain ⟨element, lineStart, lineEnd⟩ := seed
    cases element with
    | participant p =>
      obtain rfl := proper.1
      exact ⟨(fun _ same => nomatch same), allSteady_nil, behind⟩
    | group g => exact ⟨(fun _ same => nomatch same), ihb proper.1.2, behind⟩
    | error fault =>
      obtain rfl := proper.1
      exact ⟨(fun _ same => nomatch same), allSteady_nil, behind⟩
    | _ => exact absurd rfl proper.1.1
  | mark clause next ih => exact absurd proper.1 (by simp)

theorem allSteady_append {a b : Grove} :
    AllSteady (a.append b) ↔ AllSteady a ∧ AllSteady b := by
  simp only [AllSteady, Forest.labels_append, List.forall_mem_append]

theorem allSteady_strays (body : Grove) : AllSteady (strays body) := by
  induction body with
  | nil => exact allSteady_nil
  | tree seed body next ihb ihn =>
    obtain ⟨element, lineStart, lineEnd⟩ := seed
    cases element with
    | error fault => exact allSteady_tree.2 ⟨(fun _ same => nomatch same), allSteady_nil, ihn⟩
    | group g => exact allSteady_append.2 ⟨ihb, ihn⟩
    | _ => exact ihn
  | mark clause next ih => exact ih

section
variable {register : Register} {seed : Seed} {body next : Grove}

theorem Recalls.below (h : Recalls register (.tree seed body next))
    (free : ∀ key ∈ freeKeys body, register.listed key = false) : Recalls register body where
  agrees other mem := h.agrees other (by simp [Forest.labels, mem])
  listed key mem := h.listed key (by simp [listedKeys, mem])
  free := free

theorem Recalls.after (h : Recalls register (.tree seed body next)) : Recalls register next where
  agrees other mem := h.agrees other (by simp [Forest.labels, mem])
  listed key mem := h.listed key (by simp [listedKeys, mem])
  free key mem := h.free key (by simp [freeKeys, mem])

theorem Recalls.inside {g : ParticipantGroup} (h : Recalls register (.tree seed body next))
    (group : seed.element = .group g) (neat : body.Neat .group) :
    ∀ other ∈ body.labels, ∀ key, other.key? = some key →
      ∃ first, register.declaration? key = some first ∧ first.element = other.element := by
  intro other mem key declares
  refine h.agrees other (by simp [Forest.labels, mem]) key declares (h.listed key ?_)
  have among : key ∈ body.labels.filterMap Seed.key? := List.mem_filterMap.2 ⟨other, mem, declares⟩
  have count := count_keys_group (proper_of_neat neat) key
  have one := List.one_le_count_iff.2 among
  have either : key ∈ declaredKeys body ∨ key ∈ listedKeys body := by
    rw [← List.one_le_count_iff, ← List.one_le_count_iff]
    omega
  simp only [listedKeys, group, List.mem_append]
  exact either.imp_right Or.inl

theorem append_eq_append_iff_of_length {α : Type} {a b c d : List α} (same : a.length = c.length) :
    a ++ b = c ++ d ↔ a = c ∧ b = d :=
  ⟨fun whole => List.append_inj whole same, fun ⟨left, right⟩ => by rw [left, right]⟩

theorem treeLines_reread {depth : Nat} (spelled : seed.element.IsSpelled) (line last : Nat) :
    (treeLines depth (⟨seed.element.reread, line, last⟩, body)).length =
        (treeLines depth (seed, body)).length ∧
      (treeLines depth (⟨seed.element.reread, line, last⟩, body) = treeLines depth (seed, body) ↔
        ∀ m, seed.element = .message m → m.IsSteady) := by
  obtain ⟨ends, rows⟩ := Element.writeEnd?_reread spelled
  rw [treeLines_eq, treeLines_eq, ends, rows]
  refine ⟨rfl, ?_⟩
  rw [List.cons.injEq, and_iff_left rfl, ← Element.writeHead_reread_iff spelled]
  exact ⟨indented_inj spelled.again.isTidy_writeHead spelled.isTidy_writeHead,
    congrArg (indented depth)⟩

end

section
variable {register : Register} {whole : List Seed}

/-- The tree is written again as it was just when the condition holds, and always with as many
lines. -/
structure Rewrites (depth : Nat) (tree written : Seed × Grove) (same : Prop) : Prop where
  length : (treeLines depth tree).length = (treeLines depth written).length
  lines : treeLines depth tree = treeLines depth written ↔ same

def Reprints (register : Register) (whole : List Seed) (depth line position : Nat) (row : Grove) :
    Prop :=
  (Grove.lines depth (arrange register (regrow line row))).length =
      (Grove.lines depth row).length ∧
    (Grove.lines depth (arrange register (regrow line row)) = Grove.lines depth row ↔
      AllSteady row ∧ row.Settled Seed.key? Seed.isGroup (whole.map Seed.key?) position)

theorem arrange_group {seed : Seed} {g : ParticipantGroup} (h : seed.element = .group g)
    (body next : Grove) :
    arrange register (.tree seed body next) =
      .tree seed (members register body) ((strays body).append (arrange register next)) := by
  rw [arrange, h]

theorem arrange_fragment {seed : Seed} {f : Fragment} (h : seed.element = .fragment f)
    (body next : Grove) :
    arrange register (.tree seed body next) =
      .tree seed (arrange register body) (arrange register next) := by
  rw [arrange, h]

theorem sound_regrow (line : Nat) {row : Grove} (spelled : IsSpelled row) :
    ∀ seed ∈ (regrow line row).labels, seed.element.isError = false := by
  intro seed mem
  have element := List.mem_map_of_mem (f := Seed.element) mem
  rw [elements_regrow, List.mem_map] at element
  obtain ⟨source, inside, same⟩ := element
  rw [← same]
  exact Element.isError_reread (spelled.seeds source inside)

def Rewritten (register : Register) (whole : List Seed) (depth line position : Nat) (seed : Seed)
    (body next : Grove) : Prop :=
  ∃ tree, Grove.lines depth (arrange register (regrow line (.tree seed body next))) =
      treeLines depth tree ++ Grove.lines depth (arrange register (regrow (line + (
        seed.element.writeBlockText.length + (script body).length +
        seed.element.writeEnd?.toList.length) + 1) next)) ∧
    Rewrites depth tree (seed, body) (AllSteady (.tree seed body .nil) ∧
      Forest.Settled Seed.key? Seed.isGroup (whole.map Seed.key?) position (.tree seed body .nil))

section
variable {depth line position lineStart lineEnd : Nat} {body next : Grove}

/-- Of the elements that hold nothing, only a message can be written again in another way. -/
theorem rewritten_leaf {seed : Seed} (spelled : seed.element.IsSpelled)
    (single : seed.element.isGroup = false)
    (kept : ∀ line last next', arrange register (.tree ⟨seed.element.reread, line, last⟩ .nil next') =
      .tree ⟨seed.element.reread, line, last⟩ .nil (arrange register next')) :
    Rewritten register whole depth line position seed .nil next := by
  obtain ⟨count, same⟩ := treeLines_reread spelled line (line + (
    seed.element.writeBlockText.length + (script .nil).length +
    seed.element.writeEnd?.toList.length))
  refine ⟨_, ?_, count, same.trans ?_⟩
  · rw [regrow, regrow, kept, lines_tree]
  · rw [allSteady_tree]
    simp [allSteady_nil, Forest.Settled, Seed.isGroup, single]

theorem rewritten_fragment {f : Fragment} (spelled : (Element.fragment f).IsSpelled)
    (inside : Reprints register whole (depth + 1)
      (line + 1 + (Element.fragment f).writeBlockText.length) (position + 1) body) :
    Rewritten register whole depth line position ⟨.fragment f, lineStart, lineEnd⟩ body next := by
  obtain ⟨count, same⟩ := inside
  have written := Element.reread_fragment spelled
  rw [Rewritten, regrow, arrange_fragment written, lines_tree]
  refine ⟨_, rfl, ?_, ?_⟩
  · rw [treeLines_eq, treeLines_eq, written]
    simp only [List.length_cons, List.length_append, count]
  · rw [treeLines_inj written, same, allSteady_tree]
    simp [allSteady_nil, Forest.Settled, Seed.isGroup, Element.isGroup]

theorem rewritten_group (index : Indexes register whole) {g : ParticipantGroup}
    (recalls : Recalls register (.tree ⟨.group g, lineStart, lineEnd⟩ body next))
    (neat : body.Neat .group) (spelled : g.IsSpelled) (spelledBody : IsSpelled body)
    {rest : List Seed}
    (stands : whole.drop (position + 1) =
      (regrow (line + 1 + (Element.group g).writeBlockText.length) body).labels ++ rest) :
    Rewritten register whole depth line position ⟨.group g, lineStart, lineEnd⟩ body next := by
  obtain ⟨alike, entries⟩ :=
    entries_regrow index (recalls.inside rfl neat) neat spelledBody stands (depth + 1)
  obtain ⟨count, same⟩ := members_regrow index neat spelledBody stands alike
  have written := Element.reread_group spelled
  rw [Rewritten, regrow, arrange_group written, strays_eq_nil (sound_regrow _ spelledBody),
    lines_tree]
  refine ⟨_, rfl, ?_, ?_⟩
  · rw [treeLines_eq, treeLines_eq, written]
    simp only [List.length_cons, List.length_append, count]
  · rw [treeLines_inj written, same, entries, allSteady_tree]
    simp [allSteady_nil, allSteady_of_proper (proper_of_neat neat), Forest.Settled, Seed.isGroup,
      Element.isGroup]

theorem rewritten_tree (index : Indexes register whole) {place : Place} {seed : Seed}
    (recalls : Recalls register (.tree seed body next))
    (neat : Neat place (.tree seed body next)) (spelled : IsSpelled (.tree seed body next))
    {rest : List Seed}
    (stands : whole.drop position = (regrow line (.tree seed body next)).labels ++ rest)
    (inner : ∀ {line position : Nat} {rest : List Seed}, Recalls register body →
      body.Neat .fragment → whole.drop position = (regrow line body).labels ++ rest →
      Reprints register whole (depth + 1) line position body) :
    Rewritten register whole depth line position seed body next := by
  obtain ⟨-, under, -⟩ := stands_tree stands
  have spelledSeed := spelled.seed
  have spelledBody := spelled.body
  obtain ⟨element, lineStart, lineEnd⟩ := seed
  cases element with
  | fragment f =>
    have free : ∀ key ∈ freeKeys body, register.listed key = false :=
      fun key mem => recalls.free key (by simp [freeKeys, mem])
    exact rewritten_fragment spelledSeed (inner (recalls.below free) neat.1.2.2 under)
  | group g => exact rewritten_group index recalls neat.1.2 spelledSeed spelledBody under
  | participant p =>
    obtain rfl : body = .nil := neat.1
    have unlisted := recalls.free p.key (by simp [freeKeys])
    refine rewritten_leaf spelledSeed rfl fun line last next' => ?_
    rw [Element.reread_participant spelledSeed, arrange_participant register rfl,
      if_neg (by simp [unlisted])]
  | _ =>
    obtain rfl : body = .nil := neat.1.2
    refine rewritten_leaf spelledSeed rfl fun line last next' => ?_
    rcases Element.reread_cases _ with ⟨text, same⟩ | ⟨m, same⟩ | same <;> rw [same] <;> rfl

end

/-- A row outside of groups is written again as it was just when its messages are steady and its
groups are settled. -/
theorem reprints (index : Indexes register whole) {place : Place} {row : Grove}
    (outside : place ≠ .group) (recalls : Recalls register row) (neat : row.Neat place)
    (spelled : IsSpelled row) {line position : Nat} {rest : List Seed}
    (stands : whole.drop position = (regrow line row).labels ++ rest) (depth : Nat) :
    Reprints register whole depth line position row := by
  induction row generalizing place line position rest depth with
  | nil =>
    exact ⟨rfl, iff_of_true rfl ⟨fun _ mem => absurd mem List.not_mem_nil, trivial⟩⟩
  | tree seed body next ihb ihn =>
    obtain ⟨-, -, after⟩ := stands_tree stands
    obtain ⟨behindCount, behind⟩ := ihn outside recalls.after neat.2 spelled.next after depth
    obtain ⟨tree, parts, here⟩ := @rewritten_tree _ _ depth _ _ _ _ index _ _ recalls neat
      spelled _ stands fun recalls neat stands =>
        ihb (by simp) recalls neat spelled.body stands (depth + 1)
    rw [Reprints, parts, lines_tree, List.length_append, List.length_append, here.length,
      behindCount]
    refine ⟨rfl, ?_⟩
    rw [append_eq_append_iff_of_length here.length, here.lines, behind, and_and_and_comm,
      ← allSteady_alone, ← settled_alone]
  | mark clause next ih =>
    have after : whole.drop position = (regrow (line + 1) next).labels ++ rest := stands
    obtain ⟨count, same⟩ := ih outside
      ⟨recalls.agrees, recalls.listed, recalls.free⟩ neat.2.2 spelled.behind after depth
    rw [Reprints, regrow, arrange, Grove.lines, Grove.lines]
    refine ⟨congrArg Nat.succ count, ?_⟩
    rw [List.cons_inj_right, same]
    rfl

end

section
variable {register : Register}

theorem declaredKeys_ofTrees (trees : List (Seed × Grove)) :
    declaredKeys (ofTrees trees) = trees.flatMap fun tree => tree.1.key?.toList := by
  induction trees with
  | nil => rfl
  | cons tree trees ih =>
    obtain ⟨seed, body⟩ := tree
    rw [ofTrees, declaredKeys, ih, List.flatMap_cons]

theorem mem_listedKeys_ofTrees {trees : List (Seed × Grove)} {key : String}
    (mem : key ∈ listedKeys (ofTrees trees)) :
    ∃ tree ∈ trees, key ∈ declaredKeys tree.2 ∨ key ∈ listedKeys tree.2 := by
  induction trees with
  | nil => simp [ofTrees, listedKeys] at mem
  | cons tree trees ih =>
    obtain ⟨⟨element, lineStart, lineEnd⟩, body⟩ := tree
    rw [ofTrees, listedKeys, List.mem_append, List.mem_append] at mem
    rcases mem with mem | mem | mem
    · cases element with
      | group g => exact ⟨_, List.mem_cons_self, Or.inl mem⟩
      | _ => simp at mem
    · exact ⟨_, List.mem_cons_self, Or.inr mem⟩
    · obtain ⟨tree, inside, keys⟩ := ih mem
      exact ⟨tree, List.mem_cons_of_mem _ inside, keys⟩

theorem key_of_mem_declarations (declares : register.Declares) {body : Grove}
    {tree : Seed × Grove} (mem : tree ∈ declarations register body) {key : String}
    (declared : tree.1.key? = some key) : key ∈ declaredKeys body := by
  induction body with
  | nil => simp [declarations] at mem
  | tree seed body next _ ih =>
    rw [declarations, List.mem_append] at mem
    rw [declaredKeys, List.mem_append]
    rcases mem with mem | mem
    · obtain ⟨first, found, rfl⟩ := List.mem_map.1 mem
      obtain ⟨other, same, found⟩ := Option.bind_eq_some_iff.1 (Option.mem_toList.1 found)
      obtain rfl : other = key := Option.some.inj ((declares other first found).symm.trans declared)
      exact Or.inl (by rw [same]; exact List.mem_singleton_self _)
    · exact Or.inr (ih mem)
  | mark clause next ih => exact ih mem

theorem key?_of_mem_groups {body : Grove} {tree : Seed × Grove}
    (mem : tree ∈ groups register body) : tree.1.key? = none := by
  induction body with
  | nil => simp [groups] at mem
  | tree seed body next _ ih =>
    rw [groups, List.mem_append] at mem
    rcases mem with mem | mem
    · obtain ⟨element, lineStart, lineEnd⟩ := seed
      cases element with
      | group g =>
        obtain rfl := List.mem_singleton.1 mem
        rfl
      | _ => simp at mem
    · exact ih mem
  | mark clause next ih => exact ih mem

theorem keys_members (declares : register.Declares) {body : Grove}
    (inner : ∀ tree ∈ groups register body, ∀ key ∈ declaredKeys tree.2 ++ listedKeys tree.2,
      key ∈ listedKeys body) {key : String}
    (mem : key ∈ declaredKeys (members register body) ++ listedKeys (members register body)) :
    key ∈ declaredKeys body ++ listedKeys body := by
  rw [List.mem_append] at mem ⊢
  rcases mem with mem | mem
  · rw [members, declaredKeys_ofTrees] at mem
    obtain ⟨tree, inside, declared⟩ := List.mem_flatMap.1 mem
    have declared := Option.mem_toList.1 declared
    rcases List.mem_append.1 (mem_ordered.1 inside) with inside | inside
    · exact Or.inl (key_of_mem_declarations declares inside declared)
    · rw [key?_of_mem_groups inside] at declared
      contradiction
  · obtain ⟨tree, inside, keys⟩ := mem_listedKeys_ofTrees mem
    rcases List.mem_append.1 (mem_ordered.1 inside) with inside | inside
    · obtain ⟨-, none⟩ := @forall_declarations _ (fun _ => True) (fun _ _ _ => trivial) _ _ inside
      rw [none] at keys
      simp [declaredKeys, listedKeys] at keys
    · exact Or.inr (inner tree inside key (List.mem_append.2 keys))

theorem keys_of_mem_groups (declares : register.Declares) {body : Grove} {tree : Seed × Grove}
    (mem : tree ∈ groups register body) :
    ∀ key ∈ declaredKeys tree.2 ++ listedKeys tree.2, key ∈ listedKeys body := by
  induction body generalizing tree with
  | nil => simp [groups] at mem
  | tree seed body next ihb ihn =>
    intro key keys
    rw [groups, List.mem_append] at mem
    rw [listedKeys, List.mem_append, List.mem_append]
    rcases mem with mem | mem
    · obtain ⟨element, lineStart, lineEnd⟩ := seed
      cases element with
      | group g =>
        obtain rfl := List.mem_singleton.1 mem
        have kept := keys_members declares (fun tree inside => ihb inside) keys
        exact (List.mem_append.1 kept).imp_right Or.inl
      | _ => simp at mem
    · exact Or.inr (Or.inr (ihn mem key keys))
  | mark clause next ih => exact ih mem

theorem listedKeys_append (a b : Grove) :
    listedKeys (a.append b) = listedKeys a ++ listedKeys b := by
  induction a with
  | nil => rfl
  | tree seed body next _ ih => simp only [Forest.append, listedKeys, ih, List.append_assoc]
  | mark clause next ih => exact ih

theorem freeKeys_append (a b : Grove) : freeKeys (a.append b) = freeKeys a ++ freeKeys b := by
  induction a with
  | nil => rfl
  | tree seed body next _ ih => simp only [Forest.append, freeKeys, ih, List.append_assoc]
  | mark clause next ih => exact ih

theorem keys_strays (body : Grove) :
    listedKeys (strays body) = [] ∧ freeKeys (strays body) = [] := by
  induction body with
  | nil => exact ⟨rfl, rfl⟩
  | tree seed body next ihb ihn =>
    obtain ⟨element, lineStart, lineEnd⟩ := seed
    cases element with
    | error fault => exact ihn
    | group g =>
      rw [strays, listedKeys_append, freeKeys_append, ihb.1, ihb.2, ihn.1, ihn.2]
      exact ⟨rfl, rfl⟩
    | _ => exact ihn
  | mark clause next ih => exact ih

theorem keys_arrange (declares : register.Declares) (row : Grove) :
    (∀ key ∈ listedKeys (arrange register row), key ∈ listedKeys row) ∧
      ∀ key ∈ freeKeys (arrange register row), register.listed key = false := by
  induction row with
  | nil => exact ⟨fun _ mem => mem, fun _ mem => absurd mem List.not_mem_nil⟩
  | tree seed body next ihb ihn =>
    obtain ⟨element, lineStart, lineEnd⟩ := seed
    cases element with
    | fragment f =>
      simp only [arrange, listedKeys, freeKeys, List.nil_append, List.mem_append]
      exact ⟨fun key => Or.imp (ihb.1 key) (ihn.1 key),
        fun key mem => mem.elim (ihb.2 key) (ihn.2 key)⟩
    | group g =>
      obtain ⟨listed, free⟩ := keys_strays body
      simp only [arrange, listedKeys, freeKeys, listedKeys_append, freeKeys_append, listed, free,
        List.nil_append]
      refine ⟨fun key mem => ?_, ihn.2⟩
      rw [← List.append_assoc, List.mem_append] at mem ⊢
      exact mem.imp (keys_members declares fun tree inside => keys_of_mem_groups declares inside)
        (ihn.1 key)
    | participant p =>
      rw [arrange_participant register rfl]
      have wide : ∀ key ∈ listedKeys (arrange register next),
          key ∈ listedKeys (.tree ⟨.participant p, lineStart, lineEnd⟩ body next) :=
        fun key mem => by simp [listedKeys, ihn.1 key mem]
      split
      · exact ⟨wide, ihn.2⟩
      · rename_i unlisted
        refine ⟨wide, ?_⟩
        rw [freeKeys, List.singleton_append, List.forall_mem_cons]
        exact ⟨by simpa using unlisted, ihn.2⟩
    | _ =>
      refine ⟨fun key mem => ?_, ihn.2⟩
      simp only [listedKeys, List.nil_append, List.mem_append]
      exact Or.inr (ihn.1 key mem)
  | mark clause next ih => exact ih

theorem declaration_of_arranged (declares : register.Declares) {row : Grove} {seed : Seed}
    (mem : seed ∈ (arrange register row).labels) {key : String} (declared : seed.key? = some key)
    (listed : register.listed key = true) : register.declaration? key = some seed := by
  have all := @forall_arrange register (fun seed => ∀ key, seed.key? = some key →
      register.listed key = true → register.declaration? key = some seed)
    (fun key seed found other declared _ => by
      obtain rfl := Option.some.inj ((declares key seed found).symm.trans declared)
      exact found)
    _ (fun seed _ unlisted key declared listed => by
      rw [unlisted key declared] at listed
      contradiction) seed mem
  exact all key declared listed

end

theorem indexes_regrow {row : Grove} (spelled : IsSpelled row) :
    Indexes (regrow 1 row).register (regrow 1 row).labels where
  declaration _ := rfl
  ascends := (ascends_regrow 1 row).2
  spelled := (isSpelled_regrow 1 spelled).seeds

theorem recalls_arranged {grove : Grove} (spelled : IsSpelled grove.arranged) :
    Recalls (regrow 1 grove.arranged).register grove.arranged := by
  have declares := declares_register grove
  obtain ⟨fewer, free⟩ := keys_arrange declares grove
  have listed (key : String) : (regrow 1 grove.arranged).register.listed key = true ↔
      key ∈ listedKeys grove.arranged := by
    rw [← listedKeys_regrow 1 spelled]
    exact List.contains_iff_mem
  have grouped {key : String} (mem : key ∈ listedKeys grove.arranged) :
      grove.register.listed key = true := List.contains_iff_mem.2 (fewer key mem)
  refine ⟨fun seed mem key declared isListed => ?_, fun key => (listed key).2, fun key mem => ?_⟩
  · have inGroup := grouped ((listed key).1 isListed)
    have known : some key ∈ (regrow 1 grove.arranged).labels.map Seed.key? := by
      rw [keys_regrow 1 spelled]
      exact List.mem_map.2 ⟨seed, mem, declared⟩
    obtain ⟨again, there, keyed⟩ := List.mem_map.1 known
    have found : ((regrow 1 grove.arranged).register.declaration? key).isSome = true := by
      rw [register, List.find?_isSome]
      exact ⟨again, there, by simpa using keyed⟩
    obtain ⟨first, found⟩ := Option.isSome_iff_exists.1 found
    refine ⟨first, found, ?_⟩
    have element := List.mem_map_of_mem (f := Seed.element) (List.mem_of_find?_eq_some found)
    rw [elements_regrow, List.mem_map] at element
    obtain ⟨source, inside, same⟩ := element
    have sourceKey : source.key? = some key := by
      rw [← Seed.key?_reread (spelled.seeds source inside) first.lineStart first.lineEnd, same]
      exact declares_register _ key first found
    obtain rfl := Option.some.inj ((declaration_of_arranged declares inside sourceKey inGroup).symm.trans
      (declaration_of_arranged declares mem declared inGroup))
    obtain ⟨p, isParticipant, -⟩ := Seed.exists_participant declared
    have spelledP := spelled.seeds source mem
    rw [isParticipant] at spelledP
    rw [← same, isParticipant, Element.reread_participant spelledP]
  · rw [← Bool.not_eq_true, listed]
    intro mem'
    exact absurd (grouped mem') (by simp [free key mem])

theorem allSteady_arrange {register : Register} (declares : register.Declares) {place : Place}
    {row : Grove} (outside : place ≠ .group) (proper : row.Proper place) :
    AllSteady (arrange register row) ↔ AllSteady row := by
  induction row generalizing place with
  | nil => exact Iff.rfl
  | tree seed body next ihb ihn =>
    have behind := ihn outside proper.2
    have neat := neat_arrange declares outside proper
    obtain ⟨element, lineStart, lineEnd⟩ := seed
    cases element with
    | fragment f =>
      have inside := @ihb .fragment (by simp) proper.1.2.2
      rw [arrange_fragment rfl, allSteady_tree, allSteady_tree, inside, behind]
    | group g =>
      rw [arrange_group (g := g) rfl] at neat ⊢
      rw [allSteady_tree, allSteady_tree, allSteady_append, behind]
      simp [allSteady_of_proper (proper_of_neat neat.1.2), allSteady_of_proper proper.1.2,
        allSteady_strays]
    | participant p =>
      obtain rfl := proper.1
      rw [arrange_participant register rfl]
      split
      · rw [behind, allSteady_tree]
        simp [allSteady_nil]
      · rw [allSteady_tree, allSteady_tree, behind]
    | error fault =>
      obtain rfl := proper.1
      rw [arrange, allSteady_tree, allSteady_tree, behind]
    | _ =>
      obtain rfl := proper.1.2
      rw [arrange, allSteady_tree, allSteady_tree, behind]
  | mark clause next ih => exact ih outside proper.2.2

theorem allSteady_iff {grove : Grove} (proper : grove.Proper .top) :
    AllSteady grove ↔ ∀ node ∈ grove.plant 0 0, ∀ m, node.element = .message m → m.IsSteady := by
  have bare (element : Element) (m : Message) : element.bare = .message m ↔ element = .message m :=
    ⟨Element.message_of_bare, fun same => by rw [same]; rfl⟩
  rw [AllSteady, ← labels_plant 0 proper 0, List.forall_mem_map]
  simp only [Node.seed, bare]

end Grove

namespace Document

theorem ofList_lines_inj {a b : List (List Char)} (ha : ∀ line ∈ a, '\n' ∉ line)
    (hb : ∀ line ∈ b, '\n' ∉ line) :
    String.ofList (a.flatMap fun line => line ++ ['\n']) =
      String.ofList (b.flatMap fun line => line ++ ['\n']) ↔ a = b := by
  refine ⟨fun same => ?_, fun same => by rw [same]⟩
  have texts := congrArg String.toList same
  rw [String.toList_ofList, String.toList_ofList] at texts
  rw [← Text.lines_flatMap ha, texts, Text.lines_flatMap hb]

/-- Formatting twice is formatting once just when every message is steady and the outline is
settled. -/
theorem format_format_iff (text : String) (fits : (read text).nodes.length ≤ 2 ^ 32) :
    ∃ outline, (read text).outline? = some outline ∧
      (format (format text) = format text ↔
        (∀ node ∈ (read text).nodes, ∀ m, node.element = .message m → m.IsSteady) ∧
          outline.IsSettled) := by
  obtain ⟨grove, proper, -, isRead, planted⟩ := readFrom_eq_plant 0 text
  have planted : read text = ⟨grove.plant 0 0⟩ := planted
  rw [planted, Grove.length_plant] at fits
  have spelled := Grove.isSpelled_arranged proper isRead.isSpelled
  have neat := Grove.neat_arranged proper
  obtain ⟨outline, found, shown⟩ := @Grove.outline_plant 0 _ proper fits
  have written : format text =
      String.ofList ((grove.arranged.lines 0).flatMap fun line => line ++ ['\n']) := by
    rw [format, planted, write?, found, Option.map_some, Option.getD_some, Outline.toText,
      shown.lines_eq]
  let again := Grove.regrow 1 grove.arranged
  have reread : read (format text) = ⟨again.plant 0 0⟩ := by
    rw [written]
    exact readFrom_lines 0 neat spelled
  have properAgain : again.Proper .top := Grove.proper_of_neat (Grove.neat_regrow 1 neat spelled)
  have spelledAgain := Grove.isSpelled_arranged properAgain (Grove.isSpelled_regrow 1 spelled)
  have fitsAgain : again.size ≤ NodeId.count := by
    rw [Grove.size_regrow]
    exact (Grove.size_arrange _ _).trans fits
  obtain ⟨outline', found', shown'⟩ := @Grove.outline_plant 0 _ properAgain fitsAgain
  have rewritten : format (format text) =
      String.ofList ((again.arranged.lines 0).flatMap fun line => line ++ ['\n']) := by
    rw [format, reread, write?, found', Option.map_some, Option.getD_some, Outline.toText,
      shown'.lines_eq]
  obtain ⟨-, same⟩ := @Grove.reprints _ _ (Grove.indexes_regrow spelled) .top _ (by simp)
    (Grove.recalls_arranged spelled) neat spelled 1 0 []
    (by rw [List.drop_zero, List.append_nil]) 0
  refine ⟨outline, planted ▸ found, ?_⟩
  rw [rewritten, written, ofList_lines_inj (Grove.trim_lines 0 spelledAgain).2
    (Grove.trim_lines 0 spelled).2]
  refine same.trans (and_congr ?_ ?_)
  · rw [planted, ← Grove.allSteady_iff proper]
    exact @Grove.allSteady_arrange _ (Grove.declares_register grove) .top _ (by simp) proper
  · rw [Outline.IsSettled, shown.settled_iff, shown.keys_eq, Grove.keys_regrow 1 spelled]

/-- The source `a-` and the arrow `->` are read as `a` and `-->` the second time. -/
theorem format_format_of_dash :
    let text := "a- -[#red]->b"
    format (format text) ≠ format text ∧
      ∃ outline, (read text).outline? = some outline ∧
        ¬((∀ node ∈ (read text).nodes, ∀ m, node.element = .message m → m.IsSteady) ∧
          outline.IsSettled) := by
  intro text
  have differ : format (format text) ≠ format text := by decide +kernel
  obtain ⟨outline, found, same⟩ := format_format_iff text (by decide +kernel)
  exact ⟨differ, outline, found, fun steady => differ (same.2 steady)⟩

end Document

end SequenceDiagram
