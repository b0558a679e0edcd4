import SequenceDiagram.Proofs.Arrows
import SequenceDiagram.Proofs.Styles

set_option autoImplicit false

namespace SequenceDiagram

open Text

namespace Message

structure IsSpelled (m : Message) : Prop where
  source : Alias.isValid m.source.toList = true
  target : Alias.isValid m.target.toList = true
  style : ∀ s ∈ m.style, s.IsLine ∧ s ≠ .empty
  label : IsTidy m.label.toList
  create : hasCreateMarker m.label.toList = true → m.isCreate = true

def head (m : Message) : List Char :=
  m.source.toList ++
    (writeArrow m.arrow (writeStyle m.style) ++ tail m.delay m.star m.target.toList)

def plain (m : Message) : List Char :=
  m.source.toList ++ (m.arrow.token.toList ++ tail m.delay m.star m.target.toList)

def front (m : Message) : List Char :=
  m.source.toList ++ m.arrow.leftHead.toList

def back (m : Message) : List Char :=
  m.arrow.afterStyle.toList ++ tail m.delay m.star m.target.toList

theorem write_eq (m : Message) : m.write = m.head ++ writeLabel m.label.toList := by
  simp only [write, head, tail, writeStar_eq, List.append_assoc]

theorem cutAtText?_eq_none {text : List Char} (h : '[' ∉ text) :
    cutAtText? ['-', '['] text = none := by
  induction text with
  | nil => rfl
  | cons c text ih =>
    have later : '[' ∉ text := fun mem => h (List.mem_cons_of_mem _ mem)
    unfold cutAtText?
    split
    · rename_i rest found
      have parts := eq_append_of_after? found
      refine absurd ?_ h
      rw [parts]
      simp
    · rw [ih later]
      rfl

theorem cutAtText?_append {front : List Char} (h : '[' ∉ front) (rest : List Char) :
    cutAtText? ['-', '['] (front ++ '-' :: '[' :: rest) = some (front, rest) := by
  induction front with
  | nil => rfl
  | cons c front ih =>
    have later : '[' ∉ front := fun mem => h (List.mem_cons_of_mem _ mem)
    rw [List.cons_append]
    unfold cutAtText?
    split
    · rename_i rest' found
      have parts := eq_append_of_after? found
      cases front with
      | nil =>
        have second := (List.cons.inj (List.cons.inj parts).2).1
        contradiction
      | cons d front =>
        have second := (List.cons.inj (List.cons.inj parts).2).1
        exact absurd (second ▸ List.mem_cons_self) later
    · rw [ih later]
      rfl

theorem ne_of_mem_tail {delay : Option UInt32} {star : Bool} {target : List Char}
    (valid : Alias.isValid target = true) {c d : Char} (mem : c ∈ tail delay star target)
    (other : d ∈ [':', '[', ']']) : c ≠ d := by
  have foreign : d.isDigit = false ∧ d ≠ '(' ∧ d ≠ ')' ∧ d ≠ '*' ∧ d ∈ Alias.reserved := by
    revert d
    decide
  rcases List.mem_append.1 mem with mem | mem
  · cases delay with
    | none => contradiction
    | some n =>
      rcases List.mem_cons.1 mem with rfl | mem
      · exact Ne.symm foreign.2.1
      · rcases List.mem_append.1 mem with mem | mem
        · exact ne_of_isDigit (isDigit_of_mem_writeNat mem) foreign.1
        · rw [List.mem_singleton.1 mem]
          exact Ne.symm foreign.2.2.1
  · rcases List.mem_append.1 mem with mem | mem
    · cases star with
      | true =>
        rw [List.mem_singleton.1 mem]
        exact Ne.symm foreign.2.2.2.1
      | false => contradiction
    · exact Alias.ne_of_mem valid mem foreign.2.2.2.2

theorem ne_of_mem_token {arrow : Arrow} {c d : Char} (mem : c ∈ arrow.token.toList)
    (other : d ∈ [':', '[', ']']) : c ≠ d := by
  have all : ∀ arrow ∈ Arrow.all, ∀ c ∈ arrow.token.toList, ∀ d ∈ [':', '[', ']'], c ≠ d := by
    decide +kernel
  exact all arrow (Arrow.mem_all arrow) c mem d other

theorem token_parts (arrow : Arrow) :
    arrow.beforeStyle.toList = arrow.leftHead.toList ++ ['-'] ∧
      arrow.token.toList = arrow.leftHead.toList ++ arrow.afterStyle.toList := by
  cases arrow <;> decide +kernel

theorem writeStyle_eq_nil_iff {style : Option Style} (h : ∀ s ∈ style, s.IsLine ∧ s ≠ .empty) :
    writeStyle style = [] ↔ style = none := by
  cases style with
  | none => simp [writeStyle]
  | some s => simp [writeStyle, (h s rfl).1.writeLine_ne_nil (h s rfl).2]

theorem not_mem_writeStyle {style : Option Style} (h : ∀ s ∈ style, s.IsLine ∧ s ≠ .empty)
    {c : Char} (other : c ∈ [':', '[', ']']) : c ∉ writeStyle style := by
  have foreign : isStyleChar c = false ∧ c ≠ ' ' := by
    revert c
    decide
  cases style with
  | none => exact List.not_mem_nil
  | some s =>
    rw [writeStyle, Style.writeLine_eq]
    exact Style.not_mem_wordsThen (fun _ => (h s rfl).1.isStyleWord) foreign.1 foreign.2

section
variable {m : Message}

theorem writeArrow_styled (h : m.IsSpelled) {style : Style} (styled : m.style = some style) :
    writeArrow m.arrow (writeStyle m.style) =
      m.arrow.leftHead.toList ++ '-' :: '[' :: (style.writeLine ++ ']' :: m.arrow.afterStyle.toList) := by
  have some : writeStyle m.style ≠ [] := by
    rw [ne_eq, writeStyle_eq_nil_iff h.style, styled]
    exact Option.some_ne_none style
  rw [writeArrow, if_neg some, (token_parts m.arrow).1, List.append_assoc, styled]
  rfl

theorem head_of_unstyled (unstyled : m.style = none) : m.head = m.plain := by
  rw [head, unstyled]
  rfl

theorem head_of_styled (h : m.IsSpelled) {style : Style} (styled : m.style = some style) :
    m.head = m.front ++ '-' :: '[' :: (style.writeLine ++ ']' :: m.back) := by
  rw [head, writeArrow_styled h styled]
  simp only [front, back, List.append_assoc, List.cons_append]

theorem not_mem_source (h : m.IsSpelled) {c : Char} (other : c ∈ [':', '[', ']']) :
    c ∉ m.source.toList := by
  have reserved : c ∈ Alias.reserved := by
    revert c
    decide
  exact Alias.not_mem_of_isValid h.source reserved

theorem not_mem_front (h : m.IsSpelled) {c : Char} (other : c ∈ [':', '[', ']']) :
    c ∉ m.front := by
  intro mem
  rcases List.mem_append.1 mem with mem | mem
  · exact not_mem_source h other mem
  · refine @ne_of_mem_token m.arrow _ _ ?_ other rfl
    rw [(token_parts m.arrow).2]
    exact List.mem_append_left _ mem

theorem not_mem_back (h : m.IsSpelled) {c : Char} (other : c ∈ [':', '[', ']']) :
    c ∉ m.back := by
  intro mem
  rcases List.mem_append.1 mem with mem | mem
  · refine @ne_of_mem_token m.arrow _ _ ?_ other rfl
    rw [(token_parts m.arrow).2]
    exact List.mem_append_right _ mem
  · exact ne_of_mem_tail h.target mem other rfl

theorem plain_eq (m : Message) : m.plain = m.front ++ m.back := by
  rw [plain, (token_parts m.arrow).2]
  simp only [front, back, List.append_assoc]

theorem not_mem_plain (h : m.IsSpelled) {c : Char} (other : c ∈ [':', '[', ']']) :
    c ∉ m.plain := by
  intro mem
  rw [plain_eq] at mem
  exact (List.mem_append.1 mem).elim (not_mem_front h other) (not_mem_back h other)

theorem not_mem_head (h : m.IsSpelled) : ':' ∉ m.head := by
  cases styled : m.style with
  | none =>
    rw [head_of_unstyled styled]
    exact not_mem_plain h (by decide)
  | some style =>
    have spelled := not_mem_writeStyle h.style (c := ':') (by decide)
    rw [styled] at spelled
    rw [head_of_styled h styled]
    simp only [List.mem_append, List.mem_cons, not_or]
    exact ⟨not_mem_front h (by decide), by decide, by decide, spelled, by decide,
      not_mem_back h (by decide)⟩

theorem cutLabel_write (h : m.IsSpelled) : cutLabel m.write = (m.head, m.label.toList) := by
  rw [write_eq, writeLabel, cutLabel]
  by_cases empty : m.label.toList = []
  · rw [if_pos empty, List.append_nil, cut?_eq_none_iff.2 (not_mem_head h), empty]
  · rw [if_neg empty, cut?_append (not_mem_head h)]
    simp only
    rw [h.label.trim_eq]

theorem takeStyle?_head (h : m.IsSpelled) :
    takeStyle? m.head = some (m.plain, m.style.map Style.writeLine) := by
  cases styled : m.style with
  | none =>
    rw [head_of_unstyled styled, takeStyle?, cutAtText?_eq_none (not_mem_plain h (by decide))]
    rfl
  | some style =>
    have closed := not_mem_writeStyle h.style (c := ']') (by decide)
    rw [styled, writeStyle] at closed
    rw [head_of_styled h styled, takeStyle?, cutAtText?_append (not_mem_front h (by decide))]
    simp only
    rw [cut?_append closed, plain_eq]
    rfl

theorem readStyle?_map (h : m.IsSpelled) : readStyle? (m.style.map Style.writeLine) = some m.style := by
  cases styled : m.style with
  | none => rfl
  | some style =>
    obtain ⟨line, nonempty⟩ := h.style style styled
    rw [Option.map_some, readStyle?, line.words_writeLine, Style.readLine?_lineWords line,
      Option.map_some, Style.nonEmpty?_of_ne nonempty]

def withEnds (m : Message) (ends : Ends) : Message :=
  { m with
    source := ends.source
    target := ends.target
    arrow := ends.arrow
    delay := ends.delay
    isCreate := ends.star || hasCreateMarker m.label.toList }

theorem read?_write_eq (h : m.IsSpelled) : read? m.write = (readPlaces? m.plain).map m.withEnds := by
  rw [read?, cutLabel_write h]
  simp only
  rw [takeStyle?_head h, Option.bind_eq_bind, Option.bind_some]
  simp only [readStyle?_map h, Option.bind_eq_bind, Option.bind_some]
  rw [readPlaces?, Option.map_eq_bind]
  simp only [String.ofList_toList, Function.comp_def]
  rfl

/-- Whether an arrow is found inside of the source. -/
def Drifts (m : Message) : Prop :=
  ∃ ends, Inside m.source.toList m.arrow m.delay m.star m.target.toList ends

theorem withEnds_self (h : m.IsSpelled) :
    m.withEnds ⟨String.ofList m.source.toList, m.arrow, m.delay, m.star,
      String.ofList m.target.toList⟩ = m := by
  have create : (m.star || hasCreateMarker m.label.toList) = m.isCreate := by
    unfold star
    cases marked : hasCreateMarker m.label.toList with
    | false => simp
    | true => simp [h.create marked]
  unfold withEnds
  simp only [String.ofList_toList, create]

theorem star_withEnds (m : Message) (ends : Ends) :
    (m.withEnds ends).star = (ends.star && !hasCreateMarker m.label.toList) := by
  unfold withEnds star
  cases hasCreateMarker m.label.toList <;> simp

theorem length_leftHead {longer arrow : Arrow}
    (h : longer.token.toList = '-' :: arrow.token.toList ∨ longer.rightHead = "x") :
    longer.leftHead.toList.length ≤ arrow.leftHead.toList.length := by
  have all : ∀ longer ∈ Arrow.all, ∀ arrow ∈ Arrow.all,
      longer.token.toList = '-' :: arrow.token.toList ∨ longer.rightHead = "x" →
      longer.leftHead.toList.length ≤ arrow.leftHead.toList.length := by
    decide +kernel
  exact all longer (Arrow.mem_all longer) arrow (Arrow.mem_all arrow) h

theorem plain_withEnds {ends : Ends}
    (h : Inside m.source.toList m.arrow m.delay m.star m.target.toList ends) :
    (m.withEnds ends).plain = m.plain ∧ (m.withEnds ends).front.length < m.front.length := by
  have settled : (m.star && !hasCreateMarker m.label.toList) = m.star := by
    unfold star
    cases hasCreateMarker m.label.toList <;> simp
  unfold plain
  rw [star_withEnds]
  cases h with
  | dash front longer parts token =>
    have heads := length_leftHead (Or.inl token)
    constructor
    · simp only [withEnds, String.toList_ofList, settled, token, parts]
      simp
    · simp only [Message.front, withEnds, String.toList_ofList, parts, List.length_append,
        List.length_singleton]
      omega
  | lost front inner other parts kind same some marker prompt plain =>
    have heads := @length_leftHead _ m.arrow (Or.inr kind)
    obtain ⟨rest, token, -⟩ := token_of_rightHead kind
    constructor
    · simp only [withEnds, String.toList_ofList, prompt, plain, parts, Bool.false_and]
      simp [tail, writeDelay]
    · simp only [Message.front, withEnds, String.toList_ofList, parts, token, List.length_append,
        List.length_cons]
      omega

/-- A written message is read as itself, or with an arrow inside of its source. -/
theorem exists_read?_write (h : m.IsSpelled) :
    ∃ m', read? m.write = some m' ∧ m'.plain = m.plain ∧ m'.style = m.style ∧
      m'.label = m.label ∧
      (m' = m ∧ ¬m.Drifts ∨ m'.front.length < m.front.length ∧ m.Drifts) := by
  obtain ⟨ends, found, inside | ⟨apart, rfl⟩⟩ := @exists_readPlaces? _ _ m.arrow
    m.delay m.star h.source h.target
  · obtain ⟨same, shorter⟩ := plain_withEnds inside
    refine ⟨m.withEnds ends, ?_, same, rfl, rfl, Or.inr ⟨shorter, ends, inside⟩⟩
    rw [read?_write_eq h, plain, found]
    rfl
  · refine ⟨m, ?_, rfl, rfl, rfl, Or.inl ⟨rfl, fun ⟨ends, inside⟩ => apart ends inside⟩⟩
    rw [read?_write_eq h, plain, found, Option.map_some, withEnds_self h]

theorem read?_write (h : m.IsSpelled) (steady : ¬m.Drifts) : read? m.write = some m := by
  obtain ⟨m', read, -, -, -, ⟨rfl, -⟩ | ⟨-, drifts⟩⟩ := exists_read?_write h
  · exact read
  · exact absurd drifts steady

end

theorem valid_of_readEnds? {before after : List Char} {arrow : Arrow} {ends : Ends}
    (h : readEnds? before arrow after = some ends) :
    Alias.isValid ends.source.toList = true ∧ Alias.isValid ends.target.toList = true := by
  obtain ⟨⟨delay, rest⟩, -, h⟩ := Option.bind_eq_some_iff.1 h
  obtain ⟨source, named, h⟩ := Option.bind_eq_some_iff.1 h
  obtain ⟨target, named', made⟩ := Option.bind_eq_some_iff.1 h
  rw [← Option.some.inj made]
  exact ⟨(Alias.isValid_of_read? named).1, (Alias.isValid_of_read? named').1⟩

theorem isTidy_cutLabel {line : List Char} (single : '\n' ∉ line) : IsTidy (cutLabel line).2 := by
  unfold cutLabel
  split
  · rename_i head tail cut
    obtain ⟨parts, -⟩ := eq_of_cut? cut
    refine isTidy_trim fun mem => single ?_
    rw [parts]
    simp [mem]
  · exact isTidy_nil

theorem isLine_of_readStyle? {spec : Option (List Char)} {style : Option Style}
    (h : readStyle? spec = some style) : ∀ s ∈ style, s.IsLine ∧ s ≠ .empty := by
  intro s hs
  cases spec with
  | none =>
    rw [← Option.some.inj h] at hs
    contradiction
  | some spec =>
    obtain ⟨line, read, same⟩ := Option.map_eq_some_iff.1 h
    rw [← same] at hs
    obtain ⟨rfl, nonempty⟩ := Style.nonEmpty?_eq_some_iff.1 hs
    exact ⟨Style.isLine_of_readLine? read, nonempty⟩

theorem isSpelled_of_read? {line : List Char} (single : '\n' ∉ line) {m : Message}
    (h : read? line = some m) : m.IsSpelled := by
  obtain ⟨⟨plain, spec⟩, -, h⟩ := Option.bind_eq_some_iff.1 h
  obtain ⟨ends, found, h⟩ := Option.bind_eq_some_iff.1 h
  obtain ⟨style, styled, made⟩ := Option.bind_eq_some_iff.1 h
  obtain ⟨place, -, ends_eq⟩ := List.exists_of_findSome?_eq_some found
  obtain ⟨source, target⟩ := valid_of_readEnds? ends_eq
  have label := isTidy_cutLabel single
  rw [← Option.some.inj made]
  refine ⟨source, target, isLine_of_readStyle? styled, ?_, ?_⟩
  · rw [String.toList_ofList]
    exact label
  · rw [String.toList_ofList]
    intro marked
    simp [marked]

section
variable {m m' : Message}

theorem isWord_plain (h : m.IsSpelled) : IsWord m.plain where
  nonempty := by
    obtain ⟨c, rest, token, -⟩ := exists_token m.arrow
    simp [plain, token]
  ink c mem := by
    rcases List.mem_append.1 mem with mem | mem
    · exact (Alias.isWord_of_isValid h.source).ink c mem
    · rcases List.mem_append.1 mem with mem | mem
      · exact ink_of_mem_token mem
      · exact (isWord_tail h.target).ink c mem

theorem single_head (h : m.IsSpelled) : '\n' ∉ m.head := by
  have word := isWord_plain h
  cases styled : m.style with
  | none =>
    rw [head_of_unstyled styled]
    exact word.single
  | some style =>
    have line := (h.style style styled).1.isTidy_writeLine.single
    have parts := word.single
    rw [plain_eq, List.mem_append, not_or] at parts
    rw [head_of_styled h styled]
    simp only [List.mem_append, List.mem_cons, not_or]
    exact ⟨parts.1, by decide, by decide, line, by decide, parts.2⟩

theorem isTidy_write (h : m.IsSpelled) : IsTidy m.write := by
  have source := Alias.isWord_of_isValid h.source
  have behind := @isWord_tail _ m.delay m.star h.target
  rw [write_eq]
  refine ⟨?_, ?_, ?_⟩
  · rw [head, List.append_assoc, startsInk_append source.nonempty]
    exact source.startsInk
  · unfold writeLabel
    split
    · rw [List.append_nil, head, ← List.append_assoc, endsInk_append behind.nonempty]
      exact behind.endsInk
    · rename_i some
      rw [← List.singleton_append, ← List.append_assoc, endsInk_append some]
      exact h.label.ends
  · intro mem
    rcases List.mem_append.1 mem with mem | mem
    · exact single_head h mem
    · unfold writeLabel at mem
      split at mem
      · contradiction
      · rcases List.mem_cons.1 mem with colon | mem
        · contradiction
        · exact h.label.single mem

theorem front_of_write (h : m.IsSpelled) (styled : m.style ≠ none) :
    (cut? '[' m.write).map Prod.fst = some (m.front ++ ['-']) := by
  obtain ⟨style, some⟩ := Option.ne_none_iff_exists'.1 styled
  have front : '[' ∉ m.front ++ ['-'] := by
    simpa using not_mem_front h (c := '[') (by decide)
  have shape : m.write = (m.front ++ ['-']) ++ '[' :: (style.writeLine ++ ']' :: m.back ++
      writeLabel m.label.toList) := by
    rw [write_eq, head_of_styled h some]
    simp only [List.append_assoc, List.cons_append, List.nil_append]
  rw [shape, cut?_append front]
  rfl

/-- What is read from a written message is written alike, unless a style would move. -/
theorem write_eq_iff (h : m.IsSpelled) (read : read? m.write = some m') :
    m'.write = m.write ↔ m.style = none ∨ ¬m.Drifts := by
  have h' := isSpelled_of_read? (isTidy_write h).single read
  obtain ⟨m'', read', plain, style, label, cases⟩ := exists_read?_write h
  rw [read, Option.some.injEq] at read'
  subst read'
  constructor
  · intro written
    by_cases styled : m.style = none
    · exact Or.inl styled
    · refine Or.inr fun drifts => ?_
      rcases cases with ⟨-, steady⟩ | ⟨shorter, -⟩
      · exact steady drifts
      · have front := front_of_write h styled
        rw [← written, front_of_write h' (style ▸ styled), Option.some.injEq] at front
        rw [List.append_cancel_right front] at shorter
        exact absurd shorter (Nat.lt_irrefl _)
  · rintro (unstyled | steady)
    · rw [write_eq, write_eq, head_of_unstyled unstyled, head_of_unstyled (style.trans unstyled),
        plain, label]
    · rcases cases with ⟨rfl, -⟩ | ⟨-, drifts⟩
      · rfl
      · exact absurd drifts steady

end

end Message

end SequenceDiagram
