import SequenceDiagram.Line.Line

set_option autoImplicit false

namespace SequenceDiagram.Line
variable {line : List Char}

def IsPlain (line : List Char) : Prop :=
  line ≠ [] ∧ readComment? line = none ∧ Directive.read? line = none

theorem read_eq_comment_iff {text : String} :
    read line = .comment text ↔ readComment? line = some text := by
  unfold read
  repeat' split
  all_goals simp_all [readComment?]

theorem read_eq_directive_iff {d : Directive} :
    read line = .directive d ↔
      line ≠ [] ∧ readComment? line = none ∧ Directive.read? line = some d := by
  unfold read
  repeat' split
  all_goals simp_all [Option.eq_none_iff_forall_ne_some]

theorem read_eq_divider_iff {d : Divider} :
    read line = .divider d ↔ IsPlain line ∧ Divider.read? line = some d := by
  unfold read IsPlain
  repeat' split
  all_goals simp_all [Option.eq_none_iff_forall_ne_some]

theorem read_eq_note_iff {n : Note} :
    read line = .note n ↔
      IsPlain line ∧ Divider.read? line = none ∧ Note.read? line = some n := by
  unfold read IsPlain
  repeat' split
  all_goals simp_all [Option.eq_none_iff_forall_ne_some]

theorem read_eq_fragment_iff {f : Fragment} :
    read line = .fragment f ↔
      IsPlain line ∧ Divider.read? line = none ∧ Note.read? line = none ∧
        Fragment.readHead? line = some f := by
  unfold read IsPlain
  repeat' split
  all_goals simp_all [Option.eq_none_iff_forall_ne_some]

theorem read_eq_group_iff {g : ParticipantGroup} :
    read line = .group g ↔
      IsPlain line ∧ Divider.read? line = none ∧ Note.read? line = none ∧
        Fragment.readHead? line = none ∧ ParticipantGroup.readHead? line = some g := by
  unfold read IsPlain
  repeat' split
  all_goals simp_all [Option.eq_none_iff_forall_ne_some]

theorem read_eq_participant_iff {p : Participant} :
    read line = .participant p ↔
      IsPlain line ∧ Divider.read? line = none ∧ Note.read? line = none ∧
        Fragment.readHead? line = none ∧ ParticipantGroup.readHead? line = none ∧
        Participant.read? line = some p := by
  unfold read IsPlain
  repeat' split
  all_goals simp_all [Option.eq_none_iff_forall_ne_some]

theorem read_eq_message_iff {m : Message} :
    read line = .message m ↔
      IsPlain line ∧ Divider.read? line = none ∧ Note.read? line = none ∧
        Fragment.readHead? line = none ∧ ParticipantGroup.readHead? line = none ∧
        Participant.read? line = none ∧ Message.read? line = some m := by
  unfold read IsPlain
  repeat' split
  all_goals simp_all [Option.eq_none_iff_forall_ne_some]

end SequenceDiagram.Line
