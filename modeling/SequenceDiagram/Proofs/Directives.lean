import SequenceDiagram.Line.DirectiveLine
import SequenceDiagram.Proofs.Aliases
import SequenceDiagram.Proofs.Decimals
import SequenceDiagram.Proofs.Styles

set_option autoImplicit false

namespace SequenceDiagram

open Text

namespace Directive

def IsSpelled : Directive → Prop
  | title text => text.toList ≠ [] ∧ IsTidy text.toList
  | fontFamily family => family.toList ≠ [] ∧ IsTidy family.toList
  | lifelineStyle participant style =>
    (∀ key ∈ participant, Alias.isValid key.toList = true) ∧ style.IsLine ∧ style ≠ .empty
  | frame label style => StyleRun.IsFree label.toList ∧ Style.IsOptional style
  | destroy key | destroyAfter key | destroySilent key | deactivate key | deactivateAfter key =>
    Alias.isValid key.toList = true
  | activate key color => Alias.isValid key.toList = true ∧ Color.IsSpelled color
  | activeColor color => Color.isValid color.toList = true
  | namedStyle name style => StyleName.isValid name.toList = true ∧ style.IsDefinition
  | typeStyle _ style => style.IsDefinition
  | entrySpacing _ | autonumber _ | space _ | participantSpacing _ | linear _ | parallel _
  | bottomParticipants | autoActivation _ => True

def keyword : Directive → String
  | title _ => "title"
  | entrySpacing _ => "entryspacing"
  | autonumber _ => "autonumber"
  | space _ => "space"
  | participantSpacing _ => "participantspacing"
  | lifelineStyle _ _ => "lifelinestyle"
  | linear _ => "linear"
  | parallel _ => "parallel"
  | bottomParticipants => "bottomparticipants"
  | fontFamily _ => "fontfamily"
  | frame _ _ => "frame"
  | destroy _ => "destroy"
  | destroyAfter _ => "destroyafter"
  | destroySilent _ => "destroysilent"
  | activate _ _ => "activate"
  | deactivate _ => "deactivate"
  | deactivateAfter _ => "deactivateafter"
  | autoActivation _ => "autoactivation"
  | activeColor _ => "activecolor"
  | namedStyle _ _ => "style"
  | typeStyle target _ => target.keyword

def payload : Directive → List Char
  | title text => text.toList
  | entrySpacing factor => if factor = .one then [] else factor.write
  | autonumber none => "off".toList
  | autonumber (some start) => if start = 1 then [] else writeUInt32 start
  | space steps => if steps = 1 then [] else writeInt32 steps
  | participantSpacing .equal => "equal".toList
  | participantSpacing (.gap amount) => amount.write
  | lifelineStyle none style => style.writeLine
  | lifelineStyle (some key) style => wordsThen [key.toList] style.writeLine
  | linear on | parallel on => if on then [] else "off".toList
  | bottomParticipants => []
  | fontFamily family => family.toList
  | frame label style => wordsThen (Style.optionalWords style) label.toList
  | destroy key | destroyAfter key | destroySilent key | deactivate key | deactivateAfter key =>
    key.toList
  | activate key none => key.toList
  | activate key (some color) => wordsThen [key.toList] color.toList
  | autoActivation on => if on then "on".toList else "off".toList
  | activeColor color => color.toList
  | namedStyle name style => wordsThen [name.toList] style.writeDefinition
  | typeStyle _ style => style.writeDefinition

theorem isKeyword_target (target : StyleTarget) : IsKeyword target.keyword := by
  cases target <;> decide

theorem isKeyword_keyword (d : Directive) : IsKeyword d.keyword := by
  cases d with
  | typeStyle target _ => exact isKeyword_target target
  | _ =>
    dsimp only [keyword]
    decide

theorem readEntrySpacing?_write (factor : Magnitude) :
    readEntrySpacing? factor.write = some (entrySpacing factor) := by
  rw [readEntrySpacing?, if_neg factor.write_ne_nil, Magnitude.read?_write, Option.map_some]

theorem readAutonumber?_write (start : UInt32) :
    readAutonumber? (writeUInt32 start) = some (autonumber (some start)) := by
  have off : writeUInt32 start ≠ "off".toList := by
    intro same
    have digit := isDigit_of_mem_writeNat (n := start.toNat) (c := 'o') (by
      change 'o' ∈ writeUInt32 start
      rw [same]
      decide)
    contradiction
  rw [readAutonumber?, if_neg (isWord_writeUInt32 start).nonempty, if_neg off,
    readUInt32?_writeUInt32, Option.map_some]

theorem readSpace?_write (steps : Int32) : readSpace? (writeInt32 steps) = some (space steps) := by
  rw [readSpace?, if_neg (writeInt32_ne_nil steps), readInt32?_writeInt32, Option.map_some]

theorem readParticipantSpacing?_write (amount : Magnitude) :
    readParticipantSpacing? amount.write = some (participantSpacing (.gap amount)) := by
  have equal : amount.write ≠ "equal".toList := by
    intro same
    have read := Magnitude.read?_write amount
    rw [same, show Magnitude.read? "equal".toList = none by decide] at read
    contradiction
  rw [readParticipantSpacing?, if_neg equal, Magnitude.read?_write, Option.map_some]

theorem readLifelineStyle?_none {style : Style} (h : style.IsLine) (nonempty : style ≠ .empty) :
    readLifelineStyle? style.writeLine = some (lifelineStyle none style) := by
  obtain ⟨word, rest, parts⟩ := List.exists_cons_of_ne_nil (h.lineWords_ne_nil nonempty)
  have styled := fun word mem => @Style.IsLine.isStyleWord _ h word mem
  have first := nextWord?_wordsThen
    (fun other mem => (styled other (parts ▸ mem)).isWord) startsInk_nil
  rw [← parts, ← Style.writeLine_eq] at first
  have marker := StyleRun.head?_of_looksLikeStyle
    (styled word (by rw [parts]; exact List.mem_cons_self)).looks
  rw [readLifelineStyle?, first]
  simp only [Option.bind_eq_bind, Option.bind_some, if_pos marker]
  rw [h.readLine?_writeLine nonempty, Option.bind_some]

theorem readLifelineStyle?_some {key : String} (valid : Alias.isValid key.toList = true)
    {style : Style} (h : style.IsLine) (nonempty : style ≠ .empty) :
    readLifelineStyle? (wordsThen [key.toList] style.writeLine) =
      some (lifelineStyle (some key) style) := by
  have starts : StartsInk style.writeLine := by
    rw [Style.writeLine_eq]
    exact startsInk_wordsThen
      (fun word mem => (h.isStyleWord mem).isWord) startsInk_nil
  have first := @nextWord?_wordsThen _ [] _
    (by simpa using Alias.isWord_of_isValid valid) starts
  have marker : ¬(key.toList.head? = some '#' ∨ key.toList.head? = some ';') := by
    rintro (hash | semicolon)
    · exact Alias.head?_ne valid (Or.inl (by decide)) hash
    · exact Alias.head?_ne valid (Or.inr (by decide)) semicolon
  rw [readLifelineStyle?, first]
  simp only [Option.bind_eq_bind, Option.bind_some, if_neg marker, Alias.read?_ofList valid,
    Option.map_some, wordsThen, List.foldr_nil]
  rw [h.readLine?_writeLine nonempty, Option.bind_some]

theorem readActivate?_none {key : String} (valid : Alias.isValid key.toList = true) :
    readActivate? key.toList = some (activate key none) := by
  rw [readActivate?, nextWord?_word (Alias.isWord_of_isValid valid)]
  simp [Alias.read?_ofList valid]

theorem readActivate?_some {key color : String} (valid : Alias.isValid key.toList = true)
    (spelled : Color.isValid color.toList = true) :
    readActivate? (wordsThen [key.toList] color.toList) = some (activate key (some color)) := by
  have word := (StyleRun.isStyleWord_color spelled).isWord
  rw [readActivate?, nextWord?_wordsThen (by simpa using Alias.isWord_of_isValid valid)
    word.startsInk]
  simp [Alias.read?_ofList valid, Color.read?_ofList spelled, wordsThen, word.nonempty]

theorem readNamedStyle?_write {name : String} (valid : StyleName.isValid name.toList = true)
    {style : Style} (h : style.IsDefinition) :
    readNamedStyle? (wordsThen [name.toList] style.writeDefinition) =
      some (namedStyle name style) := by
  have word := StyleName.isWord_of_isValid valid
  rw [readNamedStyle?, nextWord?_wordsThen (by simpa using word)
    (Style.isTidy_writeDefinition h).starts]
  simp [valid, wordsThen, Style.readDefinition?_writeDefinition h.isDefinable]

theorem readTypeStyle?_write (target : StyleTarget) {style : Style} (h : style.IsDefinition) :
    readTypeStyle? target.keyword style.writeDefinition = some (typeStyle target style) := by
  rw [readTypeStyle?, StyleTarget.ofKeyword?_keyword]
  simp [Style.readDefinition?_writeDefinition h.isDefinable]

theorem readFrame?_write {label : String} {style : Option Style}
    (free : StyleRun.IsFree label.toList) (h : Style.IsOptional style) :
    readFrame? (wordsThen (Style.optionalWords style) label.toList) =
      some (frame label style) := by
  rw [readFrame?, StyleRun.splitLeading_wordsThen ?_ free]
  · simp [Style.readOptional?_optionalWords h]
  · intro word mem
    exact ⟨(h.isStyleWord mem).isWord, (h.isStyleWord mem).looks⟩

theorem isTidy_unless {p : Prop} [Decidable p] {text : List Char} (h : IsTidy text) :
    IsTidy (if p then [] else text) := by
  split
  · exact isTidy_nil
  · exact h

theorem isTidy_payload {d : Directive} (h : d.IsSpelled) : IsTidy d.payload := by
  have named {key : String} (valid : Alias.isValid key.toList = true) : IsTidy key.toList :=
    (Alias.isWord_of_isValid valid).isTidy
  have after {word rest : List Char} (first : IsWord word) (tidy : IsTidy rest) :
      IsTidy (wordsThen [word] rest) :=
    isTidy_wordsThen (by simpa using first) tidy
  have color {color : String} (valid : Color.isValid color.toList = true) :
      IsTidy color.toList :=
    (StyleRun.isStyleWord_color valid).isWord.isTidy
  cases d with
  | title text => exact h.2
  | fontFamily family => exact h.2
  | entrySpacing factor => exact isTidy_unless factor.isWord_write.isTidy
  | autonumber start =>
    cases start with
    | none => exact IsWord.isTidy ⟨by decide, by decide⟩
    | some start => exact isTidy_unless (isWord_writeUInt32 start).isTidy
  | space steps => exact isTidy_unless (isWord_writeInt32 steps).isTidy
  | participantSpacing spacing =>
    cases spacing with
    | equal => exact IsWord.isTidy ⟨by decide, by decide⟩
    | gap amount => exact amount.isWord_write.isTidy
  | lifelineStyle participant style =>
    have line := h.2.1.isTidy_writeLine
    cases participant with
    | none => exact line
    | some key => exact after (Alias.isWord_of_isValid (h.1 key rfl)) line
  | frame label style =>
    exact isTidy_wordsThen (fun _ mem => (h.2.isStyleWord mem).isWord) h.1.tidy
  | activate key color' =>
    cases color' with
    | none => exact named h.1
    | some c => exact after (Alias.isWord_of_isValid h.1) (color (h.2 c rfl))
  | activeColor c => exact color h
  | namedStyle name style =>
    exact after (StyleName.isWord_of_isValid h.1) (Style.isTidy_writeDefinition h.2)
  | typeStyle target style => exact Style.isTidy_writeDefinition h
  | destroy key | destroyAfter key | destroySilent key | deactivate key | deactivateAfter key =>
    exact named h
  | linear on | parallel on => exact isTidy_unless (IsWord.isTidy ⟨by decide, by decide⟩)
  | bottomParticipants => exact isTidy_nil
  | autoActivation on =>
    cases on <;> exact IsWord.isTidy ⟨by decide, by decide⟩

theorem ite_padded {p : Prop} [Decidable p] {keyword payload : List Char} (h : payload ≠ []) :
    (if p then keyword else keyword ++ ' ' :: payload) =
      wordsThen [keyword] (if p then [] else payload) := by
  split
  · simp [wordsThen, padded_nil]
  · rw [wordsThen_singleton, padded_of_ne h]

theorem write_eq {d : Directive} (h : d.IsSpelled) :
    d.write = wordsThen [d.keyword.toList] d.payload := by
  have written {keyword : String} {payload : List Char} (some : payload ≠ []) :
      writeWith keyword payload = wordsThen [keyword.toList] payload := by
    rw [wordsThen_singleton, padded_of_ne some]
    rfl
  have named {key : String} (valid : Alias.isValid key.toList = true) : key.toList ≠ [] :=
    (Alias.isWord_of_isValid valid).nonempty
  have after {keyword : String} {word rest : List Char} (first : word ≠ []) (some : rest ≠ []) :
      writeWith keyword (word ++ ' ' :: rest) =
        wordsThen [keyword.toList] (wordsThen [word] rest) := by
    rw [written (by simp [first]), wordsThen_singleton word, padded_of_ne some]
  have color {color : String} (valid : Color.isValid color.toList = true) : color.toList ≠ [] :=
    (StyleRun.isStyleWord_color valid).nonempty
  cases d with
  | title text => exact written h.1
  | fontFamily family => exact written h.1
  | entrySpacing factor => exact ite_padded factor.write_ne_nil
  | autonumber start =>
    cases start with
    | none => rfl
    | some start => exact ite_padded (isWord_writeUInt32 start).nonempty
  | space steps => exact ite_padded (writeInt32_ne_nil steps)
  | participantSpacing spacing =>
    cases spacing with
    | equal => rfl
    | gap amount => exact written amount.write_ne_nil
  | lifelineStyle participant style =>
    have line := h.2.1.writeLine_ne_nil h.2.2
    cases participant with
    | none => exact written line
    | some key => exact after (named (h.1 key rfl)) line
  | frame label style =>
    change spaced (["frame".toList] ++ [Style.writeOptional style, label.toList]) = _
    rw [Style.spaced_optional, wordsThen_append]
    rfl
  | activate key color' =>
    cases color' with
    | none => exact written (named h.1)
    | some c => exact after (named h.1) (color (h.2 c rfl))
  | activeColor c => exact written (color h)
  | namedStyle name style =>
    exact after (StyleName.isWord_of_isValid h.1).nonempty (Style.writeDefinition_ne_nil h.2.isDefinable)
  | typeStyle target style => exact written (Style.writeDefinition_ne_nil h.isDefinable)
  | destroy key | destroyAfter key | destroySilent key | deactivate key | deactivateAfter key =>
    exact written (named h)
  | linear on | parallel on => exact ite_padded (by decide)
  | bottomParticipants => rfl
  | autoActivation on => cases on <;> rfl

theorem readPayload?_payload {d : Directive} (h : d.IsSpelled) :
    readPayload? d.keyword d.payload = some d := by
  cases d with
  | title text => simp [keyword, payload, readPayload?, h.1]
  | fontFamily family => simp [keyword, payload, readPayload?, h.1]
  | entrySpacing factor =>
    simp only [keyword, payload, readPayload?]
    split
    · rename_i one
      rw [one]
      rfl
    · exact readEntrySpacing?_write factor
  | autonumber start =>
    cases start with
    | none => simp [keyword, payload, readPayload?, readAutonumber?]
    | some start =>
      simp only [keyword, payload, readPayload?]
      split
      · rename_i one
        rw [one]
        rfl
      · exact readAutonumber?_write start
  | space steps =>
    simp only [keyword, payload, readPayload?]
    split
    · rename_i one
      rw [one]
      rfl
    · exact readSpace?_write steps
  | participantSpacing spacing =>
    simp only [keyword, payload, readPayload?]
    cases spacing with
    | equal => rfl
    | gap amount => exact readParticipantSpacing?_write amount
  | lifelineStyle participant style =>
    simp only [keyword, readPayload?]
    cases participant with
    | none => exact readLifelineStyle?_none h.2.1 h.2.2
    | some key => exact readLifelineStyle?_some (h.1 key rfl) h.2.1 h.2.2
  | frame label style =>
    simp only [keyword, readPayload?]
    exact readFrame?_write h.1 h.2
  | activate key color =>
    simp only [keyword, readPayload?]
    cases color with
    | none => exact readActivate?_none h.1
    | some c => exact readActivate?_some h.1 (h.2 c rfl)
  | activeColor c => simp [keyword, payload, readPayload?, Color.read?_ofList h]
  | namedStyle name style =>
    simp only [keyword, readPayload?]
    exact readNamedStyle?_write h.1 h.2
  | typeStyle target style =>
    have reads : readPayload? target.keyword style.writeDefinition =
        readTypeStyle? target.keyword style.writeDefinition := by
      cases target <;> simp [readPayload?, StyleTarget.keyword, StyleTarget.name]
    exact reads.trans (readTypeStyle?_write target h)
  | destroy key | destroyAfter key | destroySilent key | deactivate key | deactivateAfter key =>
    have valid : Alias.isValid key.toList = true := h
    simp [keyword, payload, readPayload?, Alias.readOnly?_ofList valid]
  | linear on | parallel on => cases on <;> simp [keyword, payload, readPayload?, readSwitch?]
  | bottomParticipants => simp [keyword, payload, readPayload?]
  | autoActivation on =>
    cases on <;> simp [keyword, payload, readPayload?, readExplicitSwitch?]

theorem read?_write {d : Directive} (h : d.IsSpelled) : read? d.write = some d := by
  have word : ∀ word ∈ [d.keyword.toList], IsWord word := by
    simpa using d.isKeyword_keyword.isWord
  rw [write_eq h, read?, nextWord?_wordsThen word (isTidy_payload h).starts]
  simpa [wordsThen] using readPayload?_payload h

theorem isTidy_write {d : Directive} (h : d.IsSpelled) : IsTidy d.write := by
  rw [write_eq h]
  exact isTidy_wordsThen (by simpa using d.isKeyword_keyword.isWord) (isTidy_payload h)

section
variable {rest : List Char} {d : Directive}

theorem isSpelled_of_readLifelineStyle? (h : readLifelineStyle? rest = some d) : d.IsSpelled := by
  obtain ⟨⟨first, tail⟩, -, h⟩ := Option.bind_eq_some_iff.1 h
  have made {participant : Option String} {spec : List Char}
      (named : ∀ key ∈ participant, Alias.isValid key.toList = true)
      (h : ((Style.readLine? (words spec)).bind Style.nonEmpty?).bind
        (fun style => some (lifelineStyle participant style)) = some d) : d.IsSpelled := by
    obtain ⟨style, read, made⟩ := Option.bind_eq_some_iff.1 h
    obtain ⟨line, words, nonempty⟩ := Option.bind_eq_some_iff.1 read
    obtain ⟨rfl, set⟩ := Style.nonEmpty?_eq_some_iff.1 nonempty
    rw [← Option.some.inj made]
    exact ⟨named, Style.isLine_of_readLine? words, set⟩
  simp only at h
  split at h
  · exact made (by simp) h
  · obtain ⟨⟨participant, spec⟩, named, h⟩ := Option.bind_eq_some_iff.1 h
    obtain ⟨key, read, same⟩ := Option.map_eq_some_iff.1 named
    obtain ⟨rfl, rfl⟩ := Prod.mk.inj same
    refine made ?_ h
    intro key' found
    rw [Option.mem_def, Option.some.injEq] at found
    exact found ▸ (Alias.isValid_of_read? read).1

theorem isSpelled_of_readFrame? (tidy : IsTidy rest) (h : readFrame? rest = some d) :
    d.IsSpelled := by
  obtain ⟨style, read, made⟩ := Option.bind_eq_some_iff.1 h
  rw [← Option.some.inj made]
  refine ⟨?_, Style.isOptional_of_readOptional? read⟩
  rw [String.toList_ofList]
  exact StyleRun.isFree_splitLeading tidy

theorem isSpelled_of_readActivate? (h : readActivate? rest = some d) : d.IsSpelled := by
  obtain ⟨⟨word, tail⟩, -, h⟩ := Option.bind_eq_some_iff.1 h
  obtain ⟨key, named, h⟩ := Option.bind_eq_some_iff.1 h
  have valid := (Alias.isValid_of_read? named).1
  split at h
  · rw [← Option.some.inj h]
    exact ⟨valid, nofun⟩
  · obtain ⟨color, read, made⟩ := Option.map_eq_some_iff.1 h
    rw [← made]
    refine ⟨valid, ?_⟩
    intro c found
    rw [Option.mem_def, Option.some.injEq] at found
    exact found ▸ (Color.isValid_of_read? read).1

theorem isSpelled_of_readNamedStyle? (single : '\n' ∉ rest) (h : readNamedStyle? rest = some d) :
    d.IsSpelled := by
  obtain ⟨⟨name, payload⟩, first, h⟩ := Option.bind_eq_some_iff.1 h
  simp only at h
  split at h
  · rename_i valid
    obtain ⟨style, read, made⟩ := Option.map_eq_some_iff.1 h
    rw [← made]
    refine ⟨?_, Style.isDefinition_of_readDefinition? ?_ read⟩
    · rw [String.toList_ofList]
      exact valid
    · exact fun mem => single ((suffix_of_nextWord? first).mem mem)
  · contradiction

theorem isSpelled_of_readTypeStyle? (single : '\n' ∉ rest) {keyword : String}
    (h : readTypeStyle? keyword rest = some d) : d.IsSpelled := by
  obtain ⟨target, -, h⟩ := Option.bind_eq_some_iff.1 h
  obtain ⟨style, read, made⟩ := Option.bind_eq_some_iff.1 h
  rw [← Option.some.inj made]
  exact Style.isDefinition_of_readDefinition? single read

theorem isSpelled_of_readKey? {make : String → Directive}
    (spelled : ∀ key, Alias.isValid key.toList = true → (make key).IsSpelled)
    (h : (Alias.readOnly? rest).map make = some d) : d.IsSpelled := by
  obtain ⟨key, read, made⟩ := Option.map_eq_some_iff.1 h
  rw [← made]
  exact spelled key (Alias.isValid_of_readOnly? read)

theorem isSpelled_of_map {α : Type} {make : α → Directive} {value : Option α}
    (h : value.map make = some d) (spelled : ∀ a, (make a).IsSpelled) : d.IsSpelled := by
  obtain ⟨a, -, made⟩ := Option.map_eq_some_iff.1 h
  rw [← made]
  exact spelled a

theorem isSpelled_of_readText? {make : String → Directive} (tidy : IsTidy rest)
    (spelled : ∀ text : String, text.toList ≠ [] ∧ IsTidy text.toList → (make text).IsSpelled)
    (h : (if rest = [] then none else some (make (String.ofList rest))) = some d) :
    d.IsSpelled := by
  split at h
  · contradiction
  · rename_i nonempty
    rw [← Option.some.inj h]
    refine spelled _ ?_
    rw [String.toList_ofList]
    exact ⟨nonempty, tidy⟩

end

theorem isSpelled_of_readPayload? {keyword : String} {rest : List Char} (tidy : IsTidy rest)
    {d : Directive} (h : readPayload? keyword rest = some d) : d.IsSpelled := by
  unfold readPayload? at h
  split at h
  case h_1 => exact isSpelled_of_readText? tidy (fun _ => id) h
  case h_2 =>
    unfold readEntrySpacing? at h
    split at h
    · exact Option.some.inj h ▸ trivial
    · exact isSpelled_of_map h fun _ => trivial
  case h_3 =>
    unfold readAutonumber? at h
    split at h
    · exact Option.some.inj h ▸ trivial
    · split at h
      · exact Option.some.inj h ▸ trivial
      · exact isSpelled_of_map h fun _ => trivial
  case h_4 =>
    unfold readSpace? at h
    split at h
    · exact Option.some.inj h ▸ trivial
    · exact isSpelled_of_map h fun _ => trivial
  case h_5 =>
    unfold readParticipantSpacing? at h
    split at h
    · exact Option.some.inj h ▸ trivial
    · exact isSpelled_of_map h fun _ => trivial
  case h_6 => exact isSpelled_of_readLifelineStyle? h
  case h_7 => exact isSpelled_of_map h fun _ => trivial
  case h_8 => exact isSpelled_of_map h fun _ => trivial
  case h_9 =>
    split at h
    · exact Option.some.inj h ▸ trivial
    · contradiction
  case h_10 => exact isSpelled_of_readText? tidy (fun _ => id) h
  case h_11 => exact isSpelled_of_readFrame? tidy h
  case h_12 => exact isSpelled_of_readKey? (fun _ => id) h
  case h_13 => exact isSpelled_of_readKey? (fun _ => id) h
  case h_14 => exact isSpelled_of_readKey? (fun _ => id) h
  case h_15 => exact isSpelled_of_readActivate? h
  case h_16 => exact isSpelled_of_readKey? (fun _ => id) h
  case h_17 => exact isSpelled_of_readKey? (fun _ => id) h
  case h_18 => exact isSpelled_of_map h fun _ => trivial
  case h_19 =>
    obtain ⟨color, read, made⟩ := Option.map_eq_some_iff.1 h
    rw [← made]
    exact (Color.isValid_of_read? read).1
  case h_20 => exact isSpelled_of_readNamedStyle? tidy.single h
  case h_21 => exact isSpelled_of_readTypeStyle? tidy.single h

theorem isSpelled_of_read? {line : List Char} (tidy : IsTidy line) {d : Directive}
    (h : read? line = some d) : d.IsSpelled := by
  obtain ⟨⟨keyword, rest⟩, first, read⟩ := Option.bind_eq_some_iff.1 h
  exact isSpelled_of_readPayload?
    (tidy.of_suffix (suffix_of_nextWord? first) (startsInk_of_nextWord? first)) read

/-- The directive grammar loses nothing. What is written for a directive is one line that is read
back as that directive, short forms and defaults included, exactly if its payload is one that a
line can carry. -/
theorem written_directives_are_read (d : Directive) :
    d.IsSpelled ↔ IsTidy d.write ∧ read? d.write = some d := by
  constructor
  · exact fun spelled => ⟨isTidy_write spelled, read?_write spelled⟩
  · rintro ⟨tidy, read⟩
    exact isSpelled_of_read? tidy read

def keywords : List String :=
  ["title", "entryspacing", "autonumber", "space", "participantspacing", "lifelinestyle", "linear",
    "parallel", "bottomparticipants", "fontfamily", "frame", "destroy", "destroyafter",
    "destroysilent", "activate", "deactivate", "deactivateafter", "autoactivation", "activecolor",
    "style"] ++ StyleTarget.all.map StyleTarget.keyword

theorem isKeyword_of_mem {keyword : String} (h : keyword ∈ keywords) : IsKeyword keyword := by
  have all : ∀ keyword ∈ keywords, IsKeyword keyword := by decide
  exact all keyword h

theorem mem_keywords_of_readPayload? {keyword : String} {rest : List Char} {d : Directive}
    (h : readPayload? keyword rest = some d) : keyword ∈ keywords := by
  unfold readPayload? at h
  split at h
  case h_21 =>
    obtain ⟨target, found, -⟩ := Option.bind_eq_some_iff.1 h
    exact List.mem_append_right _ (List.mem_map.2 ⟨target, keyword_of_find? found⟩)
  all_goals decide

theorem keyword_mem (d : Directive) : d.keyword ∈ keywords := by
  have typed (target : StyleTarget) : target.keyword ∈ keywords := by
    cases target <;> decide
  cases d with
  | typeStyle target _ => exact typed target
  | _ =>
    dsimp only [keyword]
    decide

/-- A line whose first word is none of the keywords is no directive. -/
theorem read?_eq_none {line word rest : List Char} (first : nextWord? line = some (word, rest))
    (other : ∀ keyword ∈ keywords, word ≠ keyword.toList) : read? line = none := by
  rw [read?, first]
  cases h : readPayload? (String.ofList word) rest with
  | none => simp [h]
  | some d =>
    refine absurd ?_ (other _ (mem_keywords_of_readPayload? h))
    rw [String.toList_ofList]

end Directive

end SequenceDiagram
