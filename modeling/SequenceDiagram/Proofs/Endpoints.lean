import SequenceDiagram.Proofs.Fixpoint

set_option autoImplicit false

namespace SequenceDiagram

namespace Message
variable {m : Message}

/-- The source ends in a dash, and with one more dash the arrow is an arrow as well. -/
def Lengthens (m : Message) : Prop :=
  m.source.toList.getLast? = some '-' ∧ m.arrow ∈ [.sync, .async, .lost]

/-- The message is lost, nothing stands between its arrow and the target, and its source has the
arrow `-x` within it, before the beginning of an alias. -/
def SplitsSource (m : Message) : Prop :=
  m.arrow ∈ [.lost, .dashedLost] ∧ m.delay = none ∧ m.star = false ∧
    ∃ front inner c, m.source.toList = front ++ ("-x".toList ++ c :: inner) ∧ c ∉ Alias.markers

theorem exists_longer_iff (arrow : Arrow) :
    (∃ longer : Arrow, longer.token.toList = '-' :: arrow.token.toList) ↔
      arrow ∈ [.sync, .async, .lost] := by
  have all : ∀ arrow ∈ Arrow.all,
      (∃ longer ∈ Arrow.all, longer.token.toList = '-' :: arrow.token.toList) ↔
        arrow ∈ [.sync, .async, .lost] := by
    decide +kernel
  rw [← all arrow (Arrow.mem_all arrow)]
  exact ⟨fun ⟨longer, token⟩ => ⟨longer, Arrow.mem_all longer, token⟩,
    fun ⟨longer, _, token⟩ => ⟨longer, token⟩⟩

theorem token_of_lost {arrow : Arrow} (kind : arrow.rightHead = "x") :
    ∃ dashes, arrow.token.toList = dashes ++ "-x".toList := by
  cases arrow with
  | lost => exact ⟨[], by decide⟩
  | dashedLost => exact ⟨['-'], by decide⟩
  | _ => exact absurd kind (by decide)

theorem rightHead_eq_iff (arrow : Arrow) :
    arrow.rightHead = "x" ↔ arrow ∈ [.lost, .dashedLost] := by
  have all : ∀ arrow ∈ Arrow.all,
      arrow.rightHead = "x" ↔ arrow ∈ [.lost, .dashedLost] := by decide +kernel
  exact all arrow (Arrow.mem_all arrow)

/-- The two ways in which an arrow is found inside of the source. -/
theorem drifts_iff : m.Drifts ↔ m.Lengthens ∨ m.SplitsSource := by
  constructor
  · rintro ⟨ends, inside⟩
    cases inside with
    | dash front longer parts token =>
      exact .inl ⟨by rw [parts, List.getLast?_concat], (exists_longer_iff _).1 ⟨longer, token⟩⟩
    | lost front inner other parts kind same some marker prompt plain =>
      obtain ⟨dashes, token⟩ := token_of_lost kind
      obtain ⟨c, rest, rfl⟩ := List.exists_cons_of_ne_nil some
      refine .inr ⟨(rightHead_eq_iff _).1 same, prompt, plain, front ++ dashes, rest, c, ?_,
        marker c rfl⟩
      rw [parts, token]
      simp only [List.append_assoc]
  · rintro (⟨dash, arrow⟩ | ⟨arrow, prompt, plain, front, inner, c, parts, marker⟩)
    · obtain ⟨longer, token⟩ := (exists_longer_iff _).2 arrow
      obtain ⟨front, parts⟩ := List.getLast?_eq_some_iff.1 dash
      exact ⟨_, .dash front longer parts token⟩
    · refine ⟨_, .lost front (c :: inner) .lost parts rfl ((rightHead_eq_iff _).2 arrow)
        (List.cons_ne_nil _ _) ?_ prompt plain⟩
      rintro _ ⟨⟩
      exact marker

/-- A message between any two aliases, with any arrow, delay, style and label, is read from its
own line if and only if its source begins no comment, ends in no dash of a longer arrow, and is
not split at an arrow of a lost message. -/
theorem read_write_eq_iff (h : m.IsSpelled) :
    Line.read m.write = .message m ↔
      ¬"//".toList <+: m.source.toList ∧ ¬m.Lengthens ∧ ¬m.SplitsSource := by
  rw [← not_or, ← drifts_iff]
  obtain ⟨m', read, -, -, -, cases⟩ := exists_read?_write h
  constructor
  · intro same
    obtain ⟨⟨-, comment, -⟩, -, -, -, -, -, found⟩ := Line.read_eq_message_iff.1 same
    obtain rfl := Option.some.inj (read.symm.trans found)
    refine ⟨fun slashes => readComment?_of_slashes slashes comment, fun drifts => ?_⟩
    rcases cases with ⟨-, steady⟩ | ⟨shorter, -⟩
    · exact steady drifts
    · exact absurd shorter (Nat.lt_irrefl _)
  · rintro ⟨plain, steady⟩
    obtain ⟨-, ⟨text, comment, -⟩ | ⟨-, m'', read', line⟩⟩ := Line.read_message h
    · exact absurd (slashes_of_readComment? h comment) plain
    · rw [read?_write h steady] at read'
      rw [line, Option.some.inj read']

/-- An alias that ends in `-x` is read back, with a style even; one that has it within is split. -/
theorem read_write_eq_iff_of_lost :
    let style : Style := { border := some "#red" }
    let m : Message := ⟨"a-x", "c", .lost, none, false, some style, "sent"⟩
    let m' : Message := ⟨"a-xb", "c", .lost, none, false, none, "sent"⟩
    m.IsSpelled ∧ m'.IsSpelled ∧
      (Line.read m.write = .message m ↔
        ¬"//".toList <+: m.source.toList ∧ ¬m.Lengthens ∧ ¬m.SplitsSource) ∧
      (Line.read m'.write = .message m' ↔
        ¬"//".toList <+: m'.source.toList ∧ ¬m'.Lengthens ∧ ¬m'.SplitsSource) ∧
      Line.read m.write = .message m ∧ m'.SplitsSource := by
  intro style m m'
  have spelled : m.IsSpelled :=
    @isSpelled_of_read? "a-x -[#red]-xc:sent".toList (by decide) m (by decide +kernel)
  have spelled' : m'.IsSpelled :=
    @isSpelled_of_read? "a-xb -xc:sent".toList (by decide) m' (by decide +kernel)
  exact ⟨spelled, spelled', read_write_eq_iff spelled, read_write_eq_iff spelled',
    by decide +kernel, by decide, rfl, rfl, ['a'], [], 'b', by decide, by decide⟩

end Message

end SequenceDiagram
