import SequenceDiagram.Diagram.StyleSheet

set_option autoImplicit false

namespace SequenceDiagram

namespace Style

inductive Field
  | fill
  | border
  | borderWidth
  | borderStyle
  | operatorColor
  | textMarkup
  | styleName
deriving DecidableEq, Repr

def Field.Value : Field → Type
  | .fill | .border | .operatorColor | .textMarkup | .styleName => String
  | .borderWidth => UInt32
  | .borderStyle => BorderStyle

def get? (style : Style) : (field : Field) → Option field.Value
  | .fill => style.fill
  | .border => style.border
  | .borderWidth => style.borderWidth
  | .borderStyle => style.borderStyle
  | .operatorColor => style.operatorColor
  | .textMarkup => style.textMarkup
  | .styleName => style.styleName

theorem eq_iff_get? {a b : Style} : a = b ↔ ∀ field, b.get? field = a.get? field := by
  constructor
  · rintro rfl field
    rfl
  · intro same
    cases a
    cases b
    rw [Style.mk.injEq]
    exact ⟨(same .fill).symm, (same .border).symm, (same .borderWidth).symm,
      (same .borderStyle).symm, (same .operatorColor).symm, (same .textMarkup).symm,
      (same .styleName).symm⟩

theorem get?_mergedOver (style base : Style) (field : Field) :
    (style.mergedOver base).get? field = (style.get? field).or (base.get? field) := by
  cases field <;> rfl

theorem get?_empty (field : Field) : empty.get? field = none := by
  cases field <;> rfl

def firstSet? (styles : List (Option Style)) (field : Field) : Option field.Value :=
  styles.findSome? fun style => style.bind (get? · field)

theorem get?_getD_empty (style : Option Style) (field : Field) :
    (style.getD empty).get? field = style.bind (get? · field) := by
  cases style with
  | none => exact get?_empty field
  | some style => rfl

theorem firstSet?_cons (style : Option Style) (styles : List (Option Style)) (field : Field) :
    firstSet? (style :: styles) field =
      (style.bind (get? · field)).or (firstSet? styles field) := by
  rw [firstSet?, List.findSome?_cons]
  cases style.bind (get? · field) <;> rfl

theorem firstSet?_singleton (style : Option Style) (field : Field) :
    firstSet? [style] field = style.bind (get? · field) := by
  rw [firstSet?_cons]
  exact Option.or_none

end Style

def valuesOf {κ β : Type} [DecidableEq κ] (key : κ) (entries : List (κ × β)) : List β :=
  (entries.filter fun entry => entry.1 = key).map Prod.snd

theorem lookup_reverse {κ β : Type} [DecidableEq κ] (key : κ) (entries : List (κ × β)) :
    entries.reverse.lookup key = (valuesOf key entries).getLast? := by
  induction entries with
  | nil => rfl
  | cons entry entries ih =>
    obtain ⟨other, value⟩ := entry
    rw [List.reverse_cons, List.lookup_append, ih]
    by_cases same : other = key
    · have shown : valuesOf key ((other, value) :: entries) = value :: valuesOf key entries := by
        simp [valuesOf, same]
      have alone : [(other, value)].lookup key = some value := by simp [same]
      rw [shown, alone, List.getLast?_cons]
      cases (valuesOf key entries).getLast? <;> rfl
    · have hidden : valuesOf key ((other, value) :: entries) = valuesOf key entries := by
        simp [valuesOf, same]
      have alone : [(other, value)].lookup key = none := by
        simp [List.lookup_cons, beq_eq_false_iff_ne.2 (Ne.symm same)]
      rw [hidden, alone, Option.or_none]

namespace Element

def namedStyle? : Element → Option (String × Style)
  | .directive (.namedStyle name style) => some (name, style)
  | _ => none

def typeStyle? : Element → Option (StyleTarget × Style)
  | .directive (.typeStyle target style) => some (target, style)
  | _ => none

end Element

namespace Document

def stylesNamed (document : Document) (name : String) : List Style :=
  valuesOf name (document.nodes.filterMap fun node => node.element.namedStyle?)

def stylesFor (document : Document) (target : StyleTarget) : List Style :=
  valuesOf target (document.nodes.filterMap fun node => node.element.typeStyle?)

end Document

namespace StyleSheet

theorem named_define (sheet : StyleSheet) (node : Node) :
    (sheet.define node).named = node.element.namedStyle?.toList ++ sheet.named := by
  obtain ⟨id, lineStart, lineEnd, element⟩ := node
  cases element with
  | directive d => cases d <;> rfl
  | _ => rfl

theorem typed_define (sheet : StyleSheet) (node : Node) :
    (sheet.define node).typed = node.element.typeStyle?.toList ++ sheet.typed := by
  obtain ⟨id, lineStart, lineEnd, element⟩ := node
  cases element with
  | directive d => cases d <;> rfl
  | _ => rfl

theorem view_foldl_define {β : Type} {view : StyleSheet → List β} {entry : Node → Option β}
    (step : ∀ sheet node, view (sheet.define node) = (entry node).toList ++ view sheet)
    (nodes : List Node) (sheet : StyleSheet) :
    view (nodes.foldl define sheet) = (nodes.filterMap entry).reverse ++ view sheet := by
  induction nodes generalizing sheet with
  | nil => rfl
  | cons node nodes ih =>
    rw [List.foldl_cons, ih, step]
    cases found : entry node with
    | none => rw [List.filterMap_cons_none found, Option.toList_none, List.nil_append]
    | some value =>
      rw [List.filterMap_cons_some found, List.reverse_cons, List.append_assoc]
      rfl

theorem named?_ofDocument (document : Document) (name : String) :
    (ofDocument document).named? name = (document.stylesNamed name).getLast? := by
  have listed : (ofDocument document).named = _ := view_foldl_define named_define document.nodes {}
  rw [named?, listed, List.append_nil, lookup_reverse]
  rfl

theorem typed?_ofDocument (document : Document) (target : StyleTarget) :
    (ofDocument document).typed? target = (document.stylesFor target).getLast? := by
  have listed : (ofDocument document).typed = _ := view_foldl_define typed_define document.nodes {}
  rw [typed?, listed, List.append_nil, lookup_reverse]
  rfl

/-- Where a resolved style takes its fields from, whatever the sheet holds. -/
theorem get?_resolve (sheet : StyleSheet) (target : StyleTarget) (inline : Option Style)
    (field : Style.Field) :
    (sheet.resolve target inline).get? field =
      Style.firstSet? [inline, (inline.bind Style.styleName).bind sheet.named?, sheet.typed? target]
        field := by
  have base := Style.get?_getD_empty (sheet.typed? target) field
  rw [Style.firstSet?_cons, Style.firstSet?_cons, Style.firstSet?_singleton, ← base]
  cases inline with
  | none => rfl
  | some style =>
    rw [Option.bind_some, Option.bind_some, resolve]
    cases style.styleName.bind sheet.named? with
    | none => exact Style.get?_mergedOver style _ field
    | some named =>
      rw [Option.bind_some, ← Style.get?_mergedOver, ← Style.get?_mergedOver]

end StyleSheet

namespace Element

def styleWord? : Element → Option String
  | .note n => some n.kind.keyword
  | .participant _ => some "participant"
  | .message _ => some "message"
  | .divider _ => some "divider"
  | .fragment _ => some "fragment"
  | .group _ => some "participantgroup"
  | .comment _ | .blankLine | .directive _ | .error _ => none

def styleTarget? (element : Element) : Option StyleTarget :=
  element.styleWord?.bind fun word => StyleTarget.ofKeyword? (word ++ "style")

/-- What is written on an element itself. A group has a fill if it has a color. -/
def inlineStyle? : Element → Option Style
  | .participant p => p.style
  | .message m => m.style
  | .note n => n.style
  | .divider d => d.style
  | .fragment f => f.style
  | .group g => g.color.map fun color => { fill := some color }
  | .comment _ | .blankLine | .directive _ | .error _ => none

theorem styleTarget?_of_name (element : Element) (target : StyleTarget)
    (word : element.styleWord? = some target.name) : element.styleTarget? = some target := by
  rw [styleTarget?, word]
  exact StyleTarget.ofKeyword?_keyword target

theorem name_styleTarget (kind : NoteKind) : kind.styleTarget.name = kind.keyword := by
  cases kind <;> rfl

theorem resolveElement?_eq (sheet : StyleSheet) (element : Element) :
    sheet.resolveElement? element =
      element.styleTarget?.map fun target => sheet.resolve target element.inlineStyle? := by
  cases element with
  | participant p =>
    rw [styleTarget?_of_name (.participant p) .participant rfl]
    rfl
  | message m =>
    rw [styleTarget?_of_name (.message m) .message rfl]
    rfl
  | note n =>
    have word : (Element.note n).styleWord? = some n.kind.styleTarget.name :=
      congrArg some (name_styleTarget n.kind).symm
    rw [styleTarget?_of_name _ _ word]
    rfl
  | divider d =>
    rw [styleTarget?_of_name (.divider d) .divider rfl]
    rfl
  | fragment f =>
    rw [styleTarget?_of_name (.fragment f) .fragment rfl]
    rfl
  | group g =>
    -- a style that sets nothing counts as much as none
    have fill : sheet.resolve .participantGroup (some { fill := g.color }) =
        sheet.resolve .participantGroup (Element.group g).inlineStyle? := by
      refine Style.eq_iff_get?.2 fun field => ?_
      rw [StyleSheet.get?_resolve, StyleSheet.get?_resolve, inlineStyle?]
      cases g.color with
      | none => cases field <;> rfl
      | some color => rfl
    rw [styleTarget?_of_name (.group g) .participantGroup rfl,
      Option.map_some, ← fill]
    rfl
  | _ => rfl

end Element

namespace Document

/-- The styles that a style is resolved from, the one that counts most first. -/
def stylesOf (document : Document) (target : StyleTarget) (inline : Option Style) :
    List (Option Style) :=
  [inline, (inline.bind Style.styleName).bind fun name => (document.stylesNamed name).getLast?,
    (document.stylesFor target).getLast?]

/-- Every field of a resolved style is the first one that is set on the node, in the last
definition of the name that the node refers to, or in the last definition for the target; nothing
else resolves so. Nodes that are drawn in a style resolve for the target of their own kind, and
other nodes do not resolve. -/
theorem resolves_first_set (document : Document) :
    (∀ target inline style, (StyleSheet.ofDocument document).resolve target inline = style ↔
      ∀ field, style.get? field = Style.firstSet? (document.stylesOf target inline) field) ∧
    ∀ element : Element, (StyleSheet.ofDocument document).resolveElement? element =
      element.styleTarget?.map fun target =>
        (StyleSheet.ofDocument document).resolve target element.inlineStyle? := by
  refine ⟨fun target inline style => ?_, Element.resolveElement?_eq _⟩
  have named : (StyleSheet.ofDocument document).named? = fun name =>
      (document.stylesNamed name).getLast? := funext (StyleSheet.named?_ofDocument document)
  have resolved (field : Style.Field) : ((StyleSheet.ofDocument document).resolve target
      inline).get? field = Style.firstSet? (document.stylesOf target inline) field := by
    rw [StyleSheet.get?_resolve, named, StyleSheet.typed?_ofDocument, stylesOf]
  rw [Style.eq_iff_get?]
  exact forall_congr' fun field => by rw [resolved field]

end Document

end SequenceDiagram
