import SequenceDiagram.Line.MessageLine
import SequenceDiagram.Proofs.Aliases
import SequenceDiagram.Proofs.Cuts
import SequenceDiagram.Proofs.Numerals

set_option autoImplicit false

/-!
# Where the arrow of a message is found

The ends of a message are read at the first place where an arrow has an alias on both sides.
Behind the source that is the arrow that was written; the places inside of the source are those
where the source ends in a dash of a longer arrow, or holds an arrow of a lost message.
-/
namespace SequenceDiagram

open Text

section
variable {β : Type} {f : Nat → Option β}

theorem findSome?_range {count i : Nat} {b : β} (lt : i < count) (hit : f i = some b)
    (earlier : ∀ j < i, f j = none) : (List.range count).findSome? f = some b := by
  induction count with
  | zero => contradiction
  | succ count ih =>
    rw [List.range_succ, List.findSome?_append]
    by_cases last : i = count
    · have none : (List.range count).findSome? f = none :=
        List.findSome?_eq_none_iff.2 fun j mem => earlier j (last ▸ List.mem_range.1 mem)
      rw [none, Option.none_or, ← last, List.findSome?_singleton, hit]
    · rw [ih (by omega), Option.some_or]

theorem exists_first {count : Nat} {b : β} (h : (List.range count).findSome? f = some b) :
    ∃ i < count, f i = some b ∧ ∀ j < i, f j = none := by
  induction count with
  | zero => contradiction
  | succ count ih =>
    rw [List.range_succ, List.findSome?_append] at h
    cases before : (List.range count).findSome? f with
    | some b' =>
      rw [before, Option.some_or] at h
      obtain ⟨i, lt, hit, earlier⟩ := ih (before.trans h)
      exact ⟨i, by omega, hit, earlier⟩
    | none =>
      rw [before, Option.none_or, List.findSome?_singleton] at h
      exact ⟨count, by omega, h, fun j lt =>
        List.findSome?_eq_none_iff.1 before j (List.mem_range.2 lt)⟩

end

namespace Message

def readAt? (text : List Char) (i : Nat) : Option Ends :=
  arrowsLongestFirst.findSome? fun arrow =>
    (after? arrow.token.toList (text.drop i)).bind fun rest => readEnds? (text.take i) arrow rest

def readPlaces? (text : List Char) : Option Ends :=
  (arrowPlaces text).findSome? fun place => readEnds? place.1 place.2.1 place.2.2

theorem readPlaces?_eq (text : List Char) :
    readPlaces? text = (List.range text.length).findSome? (readAt? text) := by
  have row (i : Nat) (arrows : List Arrow) :
      (arrows.filterMap fun arrow => (after? arrow.token.toList (text.drop i)).map
        fun rest => (text.take i, arrow, rest)).findSome?
          (fun place => readEnds? place.1 place.2.1 place.2.2) =
        arrows.findSome? fun arrow => (after? arrow.token.toList (text.drop i)).bind
          fun rest => readEnds? (text.take i) arrow rest := by
    induction arrows with
    | nil => rfl
    | cons arrow arrows ih =>
      rw [List.findSome?_cons]
      cases found : after? arrow.token.toList (text.drop i) with
      | none => rw [List.filterMap_cons_none (by simp [found]), ih, Option.bind_none]
      | some rest =>
        rw [List.filterMap_cons_some (by rw [found]; rfl), List.findSome?_cons, ih,
          Option.bind_some]
  unfold readPlaces? arrowPlaces
  induction List.range text.length with
  | nil => rfl
  | cons i rest ih =>
    rw [List.flatMap_cons, List.findSome?_append, row, ih, List.findSome?_cons]
    unfold readAt?
    split
    · rename_i b hit
      rw [hit, Option.some_or]
    · rename_i miss
      rw [miss, Option.none_or]

theorem after?_append_cases {start text rest after : List Char}
    (h : after? start (text ++ rest) = some after) :
    (∃ inner, text = start ++ inner ∧ after = inner ++ rest) ∨
      ∃ outer, outer ≠ [] ∧ start = text ++ outer ∧ rest = outer ++ after := by
  rcases List.append_eq_append_iff.1 (eq_append_of_after? h) with ⟨outer, token, parts⟩ | inside
  · by_cases none : outer = []
    · refine Or.inl ⟨[], ?_, ?_⟩
      · rw [token, none, List.append_nil, List.append_nil]
      · rw [parts, none]
        rfl
    · exact Or.inr ⟨outer, none, token, parts⟩
  · exact Or.inl inside

def star (m : Message) : Bool :=
  m.isCreate && !hasCreateMarker m.label.toList

theorem writeStar_eq (m : Message) : m.writeStar = if m.star then ['*'] else [] := rfl

def tail (delay : Option UInt32) (star : Bool) (target : List Char) : List Char :=
  writeDelay delay ++ ((if star then ['*'] else []) ++ target)

section
variable {delay : Option UInt32} {star : Bool} {target : List Char}

theorem exists_starred (valid : Alias.isValid target = true) :
    ∃ c rest, (if star then ['*'] else []) ++ target = c :: rest ∧ isBlank c = false ∧
      c ≠ '(' ∧ c ≠ '-' ∧ c ≠ '>' := by
  cases star with
  | true => exact ⟨'*', target, rfl, by decide, by decide, by decide, by decide⟩
  | false =>
    have word := Alias.isWord_of_isValid valid
    obtain ⟨c, rest, parts⟩ := List.exists_cons_of_ne_nil word.nonempty
    have mem : c ∈ target := by
      rw [parts]
      exact List.mem_cons_self
    refine ⟨c, rest, parts, word.ink c mem, ?_, ?_, ?_⟩
    · exact Alias.ne_of_mem valid mem (by decide)
    · rintro rfl
      exact Alias.head?_ne (d := '-') valid (Or.inl (by decide)) (by rw [parts]; rfl)
    · exact Alias.ne_of_mem valid mem (by decide)

theorem exists_tail (valid : Alias.isValid target = true) :
    ∃ c rest, tail delay star target = c :: rest ∧ isBlank c = false ∧ c ≠ '-' ∧ c ≠ '>' := by
  cases delay with
  | some d => exact ⟨'(', _, rfl, by decide, by decide, by decide⟩
  | none =>
    obtain ⟨c, rest, parts, ink, -, dash, head⟩ := exists_starred valid
    exact ⟨c, rest, parts, ink, dash, head⟩

theorem readDelay?_tail (valid : Alias.isValid target = true) :
    readDelay? (trimStart (tail delay star target)) =
      some (delay, (if star then ['*'] else []) ++ target) := by
  obtain ⟨c, rest, parts, ink, paren, -, -⟩ := exists_starred valid
  have starts : StartsInk ((if star then ['*'] else []) ++ target) := by
    rw [parts]
    exact startsInk_cons.2 ink
  cases delay with
  | none =>
    rw [tail, writeDelay, List.nil_append, trimStart_eq_self_of_startsInk starts, parts]
    unfold readDelay?
    split
    · rename_i same
      exact absurd (List.cons.inj same).1 paren
    · rfl
  | some d =>
    have word := isWord_writeUInt32 d
    have digits : ')' ∉ writeUInt32 d := fun mem =>
      ne_of_isDigit (isDigit_of_mem_writeNat mem) (by decide) rfl
    have written : tail (some d) star target =
        '(' :: (writeUInt32 d ++ ')' :: ((if star then ['*'] else []) ++ target)) := by
      simp [tail, writeDelay]
    rw [written, trimStart_eq_self (by decide), readDelay?, cut?_append digits]
    simp only [Option.bind_eq_bind, Option.bind_some]
    rw [trim_eq_self word.startsInk word.endsInk, readUInt32?_writeUInt32,
      trimStart_eq_self_of_startsInk starts, Option.bind_some]

theorem readEnds?_tail {source : List Char} {arrow : Arrow}
    (validSource : Alias.isValid source = true) (valid : Alias.isValid target = true) :
    readEnds? source arrow (tail delay star target) =
      some ⟨String.ofList source, arrow, delay, star, String.ofList target⟩ := by
  have left := Alias.isWord_of_isValid validSource
  have right := Alias.isWord_of_isValid valid
  rw [readEnds?, readDelay?_tail valid, Option.bind_eq_bind, Option.bind_some]
  cases star with
  | true =>
    simp only [if_true, List.singleton_append]
    rw [trim_eq_self left.startsInk left.endsInk, trim_eq_self right.startsInk right.endsInk]
    simp [Alias.read?, validSource, valid]
  | false =>
    obtain ⟨c, rest, parts⟩ := List.exists_cons_of_ne_nil right.nonempty
    have plain : c ≠ '*' :=
      Alias.ne_of_mem valid (by rw [parts]; exact List.mem_cons_self) (by decide)
    have trimmed := trim_eq_self right.startsInk right.endsInk
    simp only [Bool.false_eq_true, if_false, List.nil_append]
    rw [trim_eq_self left.startsInk left.endsInk]
    rw [parts] at trimmed valid ⊢
    simp [plain, trimmed, Alias.read?, validSource, valid]

end

theorem readEnds?_bare {before after : List Char} {arrow : Arrow} {c : Char}
    (ink : ∀ d ∈ c :: after, isBlank d = false) (paren : c ≠ '(') (starred : c ≠ '*') :
    readEnds? before arrow (c :: after) =
      (Alias.read? (trim before)).bind fun source =>
        (Alias.read? (c :: after)).map fun target => ⟨source, arrow, none, false, target⟩ := by
  have word : IsWord (c :: after) := ⟨List.cons_ne_nil _ _, ink⟩
  have delay : readDelay? (trimStart (c :: after)) = some (none, c :: after) := by
    rw [trimStart_eq_self_of_startsInk word.startsInk]
    unfold readDelay?
    split
    · rename_i same
      exact absurd (List.cons.inj same).1 paren
    · rfl
  have trimmed := trim_eq_self word.startsInk word.endsInk
  rw [readEnds?, delay, Option.bind_eq_bind, Option.bind_some]
  simp only [List.cons.injEq, starred, false_and, imp_self, implies_true, trimmed,
    Option.bind_eq_bind, Option.map_eq_bind, Function.comp_def]

/-- The readings of `source`, `arrow` and what follows at a place inside of the source. -/
inductive Inside (source : List Char) (arrow : Arrow) (delay : Option UInt32) (star : Bool)
    (target : List Char) : Ends → Prop
  /-- The last dash of the source belongs to a longer arrow. -/
  | dash (front : List Char) (longer : Arrow) (parts : source = front ++ ['-'])
      (token : longer.token.toList = '-' :: arrow.token.toList) :
      Inside source arrow delay star target
        ⟨String.ofList front, longer, delay, star, String.ofList target⟩
  /-- The source holds an arrow, and the rest of the line is an alias as a whole. -/
  | lost (front inner : List Char) (other : Arrow)
      (parts : source = front ++ (other.token.toList ++ inner))
      (kind : other.rightHead = "x") (same : arrow.rightHead = "x")
      (some : inner ≠ []) (marker : ∀ c ∈ inner.head?, c ∉ Alias.markers)
      (prompt : delay = none) (plain : star = false) :
      Inside source arrow delay star target
        ⟨String.ofList front, other, none, false,
          String.ofList (inner ++ (arrow.token.toList ++ target))⟩

theorem isValid_of_front {front rest : List Char} (h : Alias.isValid (front ++ rest) = true)
    (some : front ≠ []) : Alias.isValid front = true := by
  obtain ⟨word, marker, reserved⟩ := Alias.isValid_iff.1 h
  refine Alias.isValid_iff.2 ⟨⟨some, fun c mem => word.ink c (List.mem_append_left _ mem)⟩, ?_,
    fun c mem => reserved c (List.mem_append_left _ mem)⟩
  obtain ⟨c, rest', parts⟩ := List.exists_cons_of_ne_nil some
  rw [parts] at marker ⊢
  exact marker

theorem token_of_rightHead {arrow : Arrow} (h : arrow.rightHead = "x") :
    ∃ rest, arrow.token.toList = '-' :: rest ∧ ∀ c ∈ arrow.token.toList, c = '-' ∨ c = 'x' := by
  have all : ∀ arrow ∈ Arrow.all, arrow.rightHead = "x" →
      arrow.token.toList = '-' :: arrow.token.toList.tail ∧
        ∀ c ∈ arrow.token.toList, c = '-' ∨ c = 'x' := by
    decide +kernel
  exact ⟨_, all arrow (Arrow.mem_all arrow) h⟩

/-- What stands behind an arrow in the source is an alias together with the rest of the line. -/
theorem isValid_inner {source inner target : List Char} {arrow : Arrow} (held : inner ⊆ source)
    (validSource : Alias.isValid source = true) (valid : Alias.isValid target = true)
    (lost : arrow.rightHead = "x") (some : inner ≠ [])
    (marker : ∀ c ∈ inner.head?, c ∉ Alias.markers) :
    Alias.isValid (inner ++ (arrow.token.toList ++ target)) = true := by
  obtain ⟨word, -, reserved⟩ := Alias.isValid_iff.1 validSource
  obtain ⟨word', -, reserved'⟩ := Alias.isValid_iff.1 valid
  obtain ⟨-, -, chars⟩ := token_of_rightHead lost
  refine Alias.isValid_iff.2 ⟨⟨by simp [some], ?_⟩, ?_, ?_⟩
  · intro c mem
    rcases List.mem_append.1 mem with mem | mem
    · exact word.ink c (held mem)
    · rcases List.mem_append.1 mem with mem | mem
      · rcases chars c mem with rfl | rfl <;> decide
      · exact word'.ink c mem
  · obtain ⟨c, rest, rfl⟩ := List.exists_cons_of_ne_nil some
    exact marker
  · intro c mem
    rcases List.mem_append.1 mem with mem | mem
    · exact reserved c (held mem)
    · rcases List.mem_append.1 mem with mem | mem
      · rcases chars c mem with rfl | rfl <;> decide
      · exact reserved' c mem

/-- Inside of a source only the arrows of lost messages can stand. -/
theorem rightHead_of_mem {arrow : Arrow} (h : '>' ∉ arrow.token.toList)
    (h' : '<' ∉ arrow.token.toList) : arrow.rightHead = "x" := by
  cases arrow <;> first | rfl | exact absurd (by decide) h | exact absurd (by decide) h'

theorem overhang (longer arrow : Arrow) {count : Nat} (lt : count < 5) :
    0 < count → '<' ∉ longer.token.toList.take count → longer.token.toList.drop count ≠ [] →
    (longer.token.toList.drop count <+: arrow.token.toList ∨
      arrow.token.toList <+: longer.token.toList.drop count) →
    longer.token.toList.take count = ['-'] ∧
      (longer.token.toList.drop count = arrow.token.toList ∨
        arrow.token.toList = longer.token.toList.drop count ++ ['>'] ∨
        longer.token.toList.drop count = arrow.token.toList ++ ['>']) := by
  have all : ∀ longer ∈ Arrow.all, ∀ arrow ∈ Arrow.all, ∀ count ∈ List.range 5,
      0 < count → '<' ∉ longer.token.toList.take count → longer.token.toList.drop count ≠ [] →
      (longer.token.toList.drop count <+: arrow.token.toList ∨
        arrow.token.toList <+: longer.token.toList.drop count) →
      longer.token.toList.take count = ['-'] ∧
        (longer.token.toList.drop count = arrow.token.toList ∨
          arrow.token.toList = longer.token.toList.drop count ++ ['>'] ∨
          longer.token.toList.drop count = arrow.token.toList ++ ['>']) := by
    decide +kernel
  exact all longer (Arrow.mem_all longer) arrow (Arrow.mem_all arrow) count (List.mem_range.2 lt)

theorem length_token (arrow : Arrow) : arrow.token.toList.length < 6 := by
  cases arrow <;> decide

theorem token_of_overhang {longer arrow : Arrow} {text outer tail after : List Char} {c : Char}
    (some : text ≠ []) (head : '<' ∉ text) (token : longer.token.toList = text ++ outer)
    (more : outer ≠ []) (rest : arrow.token.toList ++ c :: tail = outer ++ after)
    (angle : c ≠ '>') :
    text = ['-'] ∧ (longer.token.toList = '-' :: arrow.token.toList ∧ after = c :: tail ∨
      after = '>' :: c :: tail) := by
  have short := length_token longer
  rw [token, List.length_append] at short
  have positive := List.length_pos_iff.2 more
  have parts := overhang longer arrow (by omega) (List.length_pos_iff.2 some)
  rw [token, List.take_left, List.drop_left] at parts
  have alike : outer <+: arrow.token.toList ∨ arrow.token.toList <+: outer := by
    rcases List.append_eq_append_iff.1 rest with ⟨front, h, -⟩ | ⟨front, h, -⟩
    · exact Or.inr ⟨front, h.symm⟩
    · exact Or.inl ⟨front, h.symm⟩
  obtain ⟨single, same | shorter | longer'⟩ := parts head more alike
  · refine ⟨single, Or.inl ⟨?_, ?_⟩⟩
    · rw [token, single, same]
      rfl
    · rw [same] at rest
      exact (List.append_cancel_left rest).symm
  · refine ⟨single, Or.inr ?_⟩
    rw [shorter, List.append_assoc] at rest
    exact (List.append_cancel_left rest).symm
  · rw [longer', List.append_assoc] at rest
    exact absurd (List.cons.inj (List.append_cancel_left rest)).1 angle

theorem mem_arrowsLongestFirst (arrow : Arrow) : arrow ∈ arrowsLongestFirst := by
  cases arrow <;> decide

/-- Longer arrows are tried before those that they begin with. -/
theorem exists_longer (arrow : Arrow) :
    ∃ longer shorter, arrowsLongestFirst = longer ++ arrow :: shorter ∧
      ∀ other ∈ longer, ¬other.token.toList <+: arrow.token.toList := by
  have all : ∀ arrow ∈ Arrow.all,
      arrowsLongestFirst = arrowsLongestFirst.takeWhile (· ≠ arrow) ++
        arrow :: (arrowsLongestFirst.dropWhile (· ≠ arrow)).tail ∧
      ∀ other ∈ arrowsLongestFirst.takeWhile (· ≠ arrow),
        ¬other.token.toList <+: arrow.token.toList := by
    decide +kernel
  exact ⟨_, _, all arrow (Arrow.mem_all arrow)⟩

theorem angle_of_longer {other arrow : Arrow} {c : Char} {rest : List Char}
    (h : other.token.toList = arrow.token.toList ++ c :: rest) : c = '-' ∨ c = '>' := by
  have all : ∀ other ∈ Arrow.all, ∀ arrow ∈ Arrow.all, arrow.token.toList <+: other.token.toList →
      ∀ c ∈ (other.token.toList.drop arrow.token.toList.length).head?, c = '-' ∨ c = '>' := by
    decide +kernel
  refine all other (Arrow.mem_all other) arrow (Arrow.mem_all arrow) ⟨_, h.symm⟩ c ?_
  rw [h, List.drop_left]
  rfl

theorem ink_of_mem_token {arrow : Arrow} {c : Char} (h : c ∈ arrow.token.toList) :
    isBlank c = false := by
  have all : ∀ arrow ∈ Arrow.all, ∀ c ∈ arrow.token.toList, isBlank c = false := by decide +kernel
  exact all arrow (Arrow.mem_all arrow) c h

theorem exists_token (arrow : Arrow) :
    ∃ c rest, arrow.token.toList = c :: rest ∧ c ≠ '(' ∧ c ≠ '*' ∧ (c = '-' ∨ c = '<') := by
  have all : ∀ arrow ∈ Arrow.all, ∀ c ∈ arrow.token.toList.head?, c = '-' ∨ c = '<' := by
    decide +kernel
  have some : arrow.token.toList ≠ [] := by cases arrow <;> decide
  obtain ⟨c, rest, parts⟩ := List.exists_cons_of_ne_nil some
  have head := all arrow (Arrow.mem_all arrow) c (by rw [parts]; rfl)
  refine ⟨c, rest, parts, ?_, ?_, head⟩
  · rcases head with rfl | rfl <;> decide
  · rcases head with rfl | rfl <;> decide

section
variable {source target : List Char} {arrow : Arrow} {delay : Option UInt32} {star : Bool}

theorem readAt?_source (validSource : Alias.isValid source = true)
    (valid : Alias.isValid target = true) :
    readAt? (source ++ (arrow.token.toList ++ tail delay star target)) source.length =
      some ⟨String.ofList source, arrow, delay, star, String.ofList target⟩ := by
  obtain ⟨longer, shorter, parts, apart⟩ := exists_longer arrow
  obtain ⟨c, rest, tail_eq, -, dash, angle⟩ :=
    exists_tail valid
  rw [readAt?, List.drop_left, List.take_left, parts, List.findSome?_eq_some_iff]
  refine ⟨longer, arrow, shorter, rfl, ?_, ?_⟩
  · rw [after?_append, Option.bind_some, readEnds?_tail validSource valid]
  · intro other mem
    have missing : after? other.token.toList
        (arrow.token.toList ++ tail delay star target) = none := by
      cases found : after? other.token.toList (arrow.token.toList ++ tail delay star target) with
      | none => rfl
      | some after =>
        rcases after?_append_cases found with ⟨inner, token, -⟩ | ⟨outer, more, token, rest_eq⟩
        · exact absurd ⟨inner, token.symm⟩ (apart other mem)
        · obtain ⟨d, outer', rfl⟩ := List.exists_cons_of_ne_nil more
          rw [tail_eq] at rest_eq
          obtain ⟨rfl, -⟩ := List.cons.inj rest_eq
          rcases angle_of_longer token with rfl | rfl
          · exact absurd rfl dash
          · exact absurd rfl angle
    rw [missing, Option.bind_none]

theorem isWord_tail (valid : Alias.isValid target = true) : IsWord (tail delay star target) where
  nonempty := by
    obtain ⟨c, rest, parts, -⟩ := exists_tail valid
    rw [parts]
    exact List.cons_ne_nil _ _
  ink c mem := by
    rcases List.mem_append.1 mem with mem | mem
    · cases delay with
      | none => contradiction
      | some d =>
        rcases List.mem_cons.1 mem with rfl | mem
        · decide
        · rcases List.mem_append.1 mem with mem | mem
          · exact (isWord_writeUInt32 d).ink c mem
          · rw [List.mem_singleton.1 mem]
            decide
    · rcases List.mem_append.1 mem with mem | mem
      · cases star with
        | true =>
          rw [List.mem_singleton.1 mem]
          decide
        | false => contradiction
      · exact (Alias.isWord_of_isValid valid).ink c mem

/-- The rest of a line is an alias only if an arrow of a lost message is all that breaks it. -/
theorem eq_of_isValid_rest {inner : List Char}
    (valid : Alias.isValid (inner ++ (arrow.token.toList ++ tail delay star target)) = true) :
    inner ≠ [] ∧ arrow.rightHead = "x" ∧ delay = none ∧ star = false := by
  have clean := (Alias.isValid_iff.1 valid).2.2
  have tokenClean : ∀ c ∈ arrow.token.toList, c ∉ Alias.reserved := fun c mem =>
    clean c (List.mem_append_right _ (List.mem_append_left _ mem))
  have tailClean : ∀ c ∈ tail delay star target, c ∉ Alias.reserved := fun c mem =>
    clean c (List.mem_append_right _ (List.mem_append_right _ mem))
  refine ⟨?_, ?_, ?_, ?_⟩
  · rintro rfl
    obtain ⟨c, rest, token, -, -, head⟩ := exists_token arrow
    rcases head with rfl | rfl
    · exact Alias.head?_ne (d := '-') valid (Or.inl (by decide)) (by rw [token]; rfl)
    · exact tokenClean '<' (by rw [token]; exact List.mem_cons_self) (by decide)
  · exact rightHead_of_mem (fun mem => tokenClean _ mem (by decide))
      fun mem => tokenClean _ mem (by decide)
  · cases delay with
    | none => rfl
    | some d => exact absurd (by decide) (tailClean '(' List.mem_cons_self)
  · cases star with
    | false => rfl
    | true => exact absurd (by decide) (tailClean '*' (List.mem_append_right _ List.mem_cons_self))

theorem exists_rest {inner : List Char} (word : ∀ c ∈ inner, isBlank c = false)
    (reserved : ∀ c ∈ inner, c ∉ Alias.reserved) (valid : Alias.isValid target = true) :
    ∃ c rest, inner ++ (arrow.token.toList ++ tail delay star target) = c :: rest ∧
      (∀ d ∈ c :: rest, isBlank d = false) ∧ c ≠ '(' ∧ c ≠ '*' := by
  have ink : ∀ c ∈ inner ++ (arrow.token.toList ++ tail delay star target),
      isBlank c = false := by
    intro c mem
    rcases List.mem_append.1 mem with mem | mem
    · exact word c mem
    · rcases List.mem_append.1 mem with mem | mem
      · exact ink_of_mem_token mem
      · exact (isWord_tail valid).ink c mem
  cases inner with
  | nil =>
    obtain ⟨c, rest, token, paren, starred, -⟩ := exists_token arrow
    rw [token] at ink ⊢
    exact ⟨c, _, rfl, ink, paren, starred⟩
  | cons c inner =>
    have clean := reserved c List.mem_cons_self
    exact ⟨c, _, rfl, ink, fun same => clean (same ▸ by decide), fun same => clean (same ▸ by decide)⟩

/-- An arrow that the source holds as a whole is read with the rest of the line as its target. -/
theorem inside_of_held {front inner : List Char} {other : Arrow} {ends : Ends}
    (parts : source = front ++ (other.token.toList ++ inner))
    (validSource : Alias.isValid source = true) (valid : Alias.isValid target = true)
    (read : readEnds? front other (inner ++ (arrow.token.toList ++ tail delay star target)) =
      some ends) :
    Inside source arrow delay star target ends ∧ ends.source.toList = front := by
  obtain ⟨word, -, reserved⟩ := Alias.isValid_iff.1 validSource
  have ofFront : ∀ c ∈ front, c ∈ source := fun c mem => by simp [parts, mem]
  have ofToken : ∀ c ∈ other.token.toList, c ∈ source := fun c mem => by simp [parts, mem]
  have ofInner : ∀ c ∈ inner, c ∈ source := fun c mem => by simp [parts, mem]
  obtain ⟨c, rest, rest_eq, ink, paren, starred⟩ := @exists_rest target arrow delay star inner
    (fun c mem => word.ink c (ofInner c mem)) (fun c mem => reserved c (ofInner c mem)) valid
  rw [rest_eq, readEnds?_bare ink paren starred] at read
  obtain ⟨front', named, read⟩ := Option.bind_eq_some_iff.1 read
  obtain ⟨target', named', made⟩ := Option.map_eq_some_iff.1 read
  obtain ⟨-, spelled⟩ := Alias.isValid_of_read? named
  obtain ⟨valid', spelled'⟩ := Alias.isValid_of_read? named'
  rw [spelled', ← rest_eq] at valid'
  obtain ⟨some, lost, rfl, rfl⟩ := eq_of_isValid_rest valid'
  have marker : ∀ c ∈ inner.head?, c ∉ Alias.markers := fun c mem =>
    (Alias.isValid_iff.1 valid').2.1 c (by
      rw [List.head?_append, mem]
      rfl)
  have kind : other.rightHead = "x" :=
    rightHead_of_mem (fun mem => reserved _ (ofToken _ mem) (by decide))
      fun mem => reserved _ (ofToken _ mem) (by decide)
  have trimmed : trim front = front :=
    trim_eq_self (fun c mem => word.ink c (ofFront c (List.mem_of_mem_head? mem)))
      fun c mem => word.ink c (ofFront c (List.mem_of_mem_getLast? mem))
  have front_eq : front' = String.ofList front := by
    rw [← trimmed, ← spelled, String.ofList_toList]
  have target_eq : target' = String.ofList (inner ++ (arrow.token.toList ++ target)) := by
    rw [show target = tail none false target from rfl, rest_eq, ← spelled', String.ofList_toList]
  rw [← made, front_eq, target_eq, String.toList_ofList]
  exact ⟨.lost front inner other parts kind lost some marker rfl rfl, rfl⟩

/-- An arrow that begins inside of the source and ends behind it takes in the source's last dash. -/
theorem inside_of_overhang {front text outer after : List Char} {other : Arrow} {ends : Ends}
    (parts : source = front ++ text) (nonempty : text ≠ [])
    (token : other.token.toList = text ++ outer) (more : outer ≠ [])
    (rest : arrow.token.toList ++ tail delay star target = outer ++ after)
    (validSource : Alias.isValid source = true) (valid : Alias.isValid target = true)
    (read : readEnds? front other after = some ends) :
    Inside source arrow delay star target ends ∧ ends.source.toList = front := by
  obtain ⟨c, tail', tail_eq, -, dash, angle⟩ := @exists_tail delay star _ valid
  have head : '<' ∉ text := fun mem =>
    (Alias.isValid_iff.1 validSource).2.2 '<' (by simp [parts, mem]) (by decide)
  rw [tail_eq] at rest
  obtain ⟨rfl, ⟨longer, rfl⟩ | rfl⟩ := token_of_overhang nonempty head token more rest angle
  · have before : front ≠ [] := by
      rintro rfl
      exact Alias.head?_ne (d := '-') validSource (Or.inl (by decide)) (by rw [parts]; rfl)
    have validFront : Alias.isValid front = true := isValid_of_front (parts ▸ validSource) before
    rw [← tail_eq, readEnds?_tail validFront valid] at read
    rw [← Option.some.inj read, String.toList_ofList]
    exact ⟨.dash front other parts longer, rfl⟩
  · -- The longer arrow lacks the head of the one that was written, and no alias begins with it.
    have ink : ∀ d ∈ '>' :: c :: tail', isBlank d = false := by
      intro d mem
      rcases List.mem_cons.1 mem with rfl | mem
      · decide
      · exact (isWord_tail valid).ink d (tail_eq ▸ mem)
    rw [readEnds?_bare ink (by decide) (by decide)] at read
    obtain ⟨front', -, read⟩ := Option.bind_eq_some_iff.1 read
    obtain ⟨target', named, -⟩ := Option.map_eq_some_iff.1 read
    obtain ⟨valid', spelled⟩ := Alias.isValid_of_read? named
    rw [spelled] at valid'
    exact absurd List.mem_cons_self (Alias.not_mem_of_isValid valid' (d := '>') (by decide))

theorem inside_of_readAt? (validSource : Alias.isValid source = true)
    (valid : Alias.isValid target = true) {i : Nat} (lt : i < source.length) {ends : Ends}
    (h : readAt? (source ++ (arrow.token.toList ++ tail delay star target)) i = some ends) :
    Inside source arrow delay star target ends ∧ ends.source.toList = source.take i := by
  obtain ⟨other, -, hit⟩ := List.exists_of_findSome?_eq_some h
  obtain ⟨after, found, read⟩ := Option.bind_eq_some_iff.1 hit
  rw [List.drop_append_of_le_length (Nat.le_of_lt lt)] at found
  rw [List.take_append_of_le_length (Nat.le_of_lt lt)] at read
  have whole := (List.take_append_drop i source).symm
  have some : source.drop i ≠ [] := by simpa using lt
  rcases after?_append_cases found with ⟨inner, parts, rfl⟩ | ⟨outer, more, token, rest⟩
  · rw [parts] at whole
    exact inside_of_held whole validSource valid read
  · exact inside_of_overhang whole some token more rest validSource valid read

theorem exists_readAt?_of_inside (validSource : Alias.isValid source = true)
    (valid : Alias.isValid target = true) {ends : Ends}
    (h : Inside source arrow delay star target ends) :
    ∃ i < source.length,
      readAt? (source ++ (arrow.token.toList ++ tail delay star target)) i ≠ none := by
  -- Any arrow that can be read at a place makes the place a hit.
  have hit {front rest : List Char} {other : Arrow} {ends : Ends}
      (read : readEnds? front other rest = some ends) :
      readAt? (front ++ (other.token.toList ++ rest)) front.length ≠ none := by
    rw [← Option.isSome_iff_ne_none, readAt?, List.findSome?_isSome_iff]
    refine ⟨other, mem_arrowsLongestFirst other, ?_⟩
    rw [List.drop_left, List.take_left, after?_append, Option.bind_some, read]
    rfl
  have nonempty {front rest : List Char} {c : Char} (parts : source = front ++ c :: rest)
      (marker : c ∈ Alias.markers) : front ≠ [] := by
    rintro rfl
    exact Alias.head?_ne (d := c) validSource (Or.inl marker) (by rw [parts]; rfl)
  cases h with
  | dash front longer parts token =>
    have validFront := isValid_of_front (parts ▸ validSource) (nonempty parts (by decide))
    refine ⟨front.length, by simp [parts], ?_⟩
    rw [parts, List.append_assoc, List.singleton_append, ← List.cons_append, ← token]
    exact hit (readEnds?_tail validFront valid)
  | lost front inner other parts kind same some marker prompt plain =>
    subst prompt plain
    obtain ⟨rest, token, -⟩ := token_of_rightHead kind
    have validFront := isValid_of_front (parts ▸ validSource)
      (nonempty (parts.trans (by rw [token]; rfl)) (by decide))
    have validTarget : Alias.isValid (inner ++ (arrow.token.toList ++ target)) = true :=
      isValid_inner (fun d mem => by rw [parts]; simp [mem]) validSource valid same some marker
    have read := @readEnds?_tail none false _ _ other validFront validTarget
    refine ⟨front.length, by simp [parts, token], ?_⟩
    rw [parts, List.append_assoc, List.append_assoc]
    exact hit read

/-- The ends of a line are its own, unless an arrow is found inside of the source. -/
theorem exists_readPlaces? (validSource : Alias.isValid source = true)
    (valid : Alias.isValid target = true) :
    ∃ ends, readPlaces? (source ++ (arrow.token.toList ++ tail delay star target)) = some ends ∧
      (Inside source arrow delay star target ends ∨
        (∀ ends, ¬Inside source arrow delay star target ends) ∧
          ends = ⟨String.ofList source, arrow, delay, star, String.ofList target⟩) := by
  have own := @readAt?_source _ _ arrow delay star validSource valid
  have within : source.length <
      (source ++ (arrow.token.toList ++ tail delay star target)).length := by
    obtain ⟨c, rest, token, -⟩ := exists_token arrow
    simp [token]
  rw [readPlaces?_eq]
  by_cases early : ∃ i < source.length,
      readAt? (source ++ (arrow.token.toList ++ tail delay star target)) i ≠ none
  · obtain ⟨i, lt, found⟩ := early
    have some : ((List.range (source ++ (arrow.token.toList ++ tail delay star target)).length).findSome?
        (readAt? (source ++ (arrow.token.toList ++ tail delay star target)))).isSome := by
      rw [List.findSome?_isSome_iff]
      exact ⟨i, List.mem_range.2 (by omega), Option.isSome_iff_ne_none.2 found⟩
    obtain ⟨ends, first⟩ := Option.isSome_iff_exists.1 some
    obtain ⟨j, -, hit, earlier⟩ := exists_first first
    have le : j ≤ i := by
      by_cases lt : i < j
      · exact absurd (earlier i lt) found
      · omega
    exact ⟨ends, first, Or.inl (inside_of_readAt? validSource valid (by omega) hit).1⟩
  · refine ⟨_, findSome?_range within own fun j lt => ?_, Or.inr ⟨?_, rfl⟩⟩
    · by_cases miss : readAt? (source ++ (arrow.token.toList ++ tail delay star target)) j = none
      · exact miss
      · exact absurd ⟨j, lt, miss⟩ early
    · exact fun ends inside => early (exists_readAt?_of_inside validSource valid inside)

end

end Message

end SequenceDiagram
