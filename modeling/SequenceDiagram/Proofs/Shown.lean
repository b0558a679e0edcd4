import SequenceDiagram.Layout.Canvas
import SequenceDiagram.Proofs.Roster
import SequenceDiagram.Proofs.Visible

set_option autoImplicit false

namespace SequenceDiagram

namespace Document

/-- A group lists a participant, itself or through a group in it. -/
def ListsMember (document : Document) (node : Node) : Prop :=
  ∃ inner, Relation.ReflTransGen document.Holds node inner ∧
    inner.element.groupAliases ≠ []

/-- The last title directive. -/
def IsTitle (document : Document) (node : Node) : Prop :=
  ∃ before after text, document.nodes = before ++ node :: after ∧
    node.element = .directive (.title text) ∧
    ∀ other ∈ after, ∀ text', other.element ≠ .directive (.title text')

/-- A node that is to be seen. -/
def IsShown (document : Document) (node : Node) : Prop :=
  match node.element with
  | .message _ | .note _ | .divider _ | .blankLine | .error _ | .fragment _
  | .directive (.frame _ _) => ¬document.IsHidden node
  | .participant _ => True
  | .group _ => document.ListsMember node
  | .directive (.title _) => document.IsTitle node
  | .directive _ | .comment _ => False

end Document

namespace Layout

/-- The kind of drawing that an element has, with a height for every section that begins in an
open fragment after the first one. -/
def Geometry.Depicts {α : Type} (geometry : Geometry α) : Element → Prop
  | .message _ => ∃ arrow, geometry = .message arrow
  | .fragment f => ∃ frame : FragmentGeometry α, geometry = .fragment frame ∧
    frame.elseYs.length = if f.isCollapsed then 0 else f.elseClauses.length
  | .participant _ | .group _ | .note _ | .divider _ | .comment _ | .blankLine | .directive _
  | .error _ => ∃ rect, geometry = .box rect

theorem Geometry.Depicts.shiftX {α : Type} [Scalar α] {geometry : Geometry α} {element : Element}
    (depicts : geometry.Depicts element) (dx : α) : (geometry.shiftX dx).Depicts element := by
  cases element with
  | message =>
    obtain ⟨arrow, rfl⟩ := depicts
    exact ⟨_, rfl⟩
  | fragment =>
    obtain ⟨frame, rfl, sections⟩ := depicts
    exact ⟨_, rfl, sections⟩
  | _ =>
    obtain ⟨rect, rfl⟩ := depicts
    exact ⟨_, rfl⟩

/-- Something is drawn exactly if it is due, and it is of the kind of the element. -/
def Renders {α : Type} (drawing : Option (Geometry α)) (element : Element) (due : Prop) : Prop :=
  (drawing.isSome ↔ due) ∧ ∀ geometry ∈ drawing, geometry.Depicts element

theorem Renders.move {α : Type} [Scalar α] {drawing : Option (Geometry α)} {element : Element}
    {due : Prop} (renders : Renders drawing element due) {move : Geometry α → Geometry α}
    (moves : move = id ∨ ∃ dx, move = Geometry.shiftX dx) :
    Renders (drawing.map move) element due := by
  obtain rfl | ⟨dx, rfl⟩ := moves
  · rwa [Option.map_id]
  · refine ⟨Option.isSome_map.symm ▸ renders.1, fun geometry found => ?_⟩
    obtain ⟨before, drawn, rfl⟩ := Option.map_eq_some_iff.1 found
    exact (renders.2 before drawn).shiftX dx

end Layout

namespace Tour

def clauses : Tour → Nat
  | .nil => 0
  | .tree _ _ next => clauses next
  | .mark _ next => clauses next + 1

theorem clauses_append (a b : Tour) : Tour.clauses (a.append b) = a.clauses + b.clauses := by
  induction a with
  | nil => exact (Nat.zero_add _).symm
  | tree node body next _ ih => exact ih
  | mark _ next ih =>
    simp only [Forest.append, clauses, ih]
    omega

end Tour

namespace Document
variable {document : Document} {body : Node → Tour}

theorem clauses_rowOf (row : List Node) : (rowOf body row).clauses = 0 := by
  induction row with
  | nil => rfl
  | cons node row ih => exact ih

theorem clauses_sectionsOf (sections : List (List NodeId)) :
    (document.sectionsOf body sections).clauses = sections.length - 1 := by
  have marked (sections : List (List NodeId)) :
      (document.markedOf body sections).clauses = sections.length := by
    induction sections with
    | nil => rfl
    | cons ids sections ih =>
      rw [markedOf, Tour.clauses, Tour.clauses_append, ih, sectionOf, clauses_rowOf,
        List.length_cons]
      omega
  cases sections with
  | nil => rfl
  | cons ids sections =>
    rw [sectionsOf, Tour.clauses_append, marked, sectionOf, clauses_rowOf, List.length_cons]
    omega

theorem IsForest.clauses_tourUnder (forest : document.IsForest) {node : Node}
    (mem : node ∈ document.nodes) {f : Fragment} (element : node.element = .fragment f) :
    (document.tourUnder .openFragments node).clauses =
      if f.isCollapsed then 0 else f.elseClauses.length := by
  rw [forest.tourUnder_eq Route.isDown_openFragments mem, clauses_sectionsOf, element]
  unfold Route.openFragments
  dsimp only
  split <;> simp [Fragment.sections]

end Document

namespace Layout
variable {α : Type} [Scalar α]

theorem Setting.length_placeRow (setting : Setting α) (linear parallel : Bool) (tour : Tour)
    (progress : Progress α) :
    (setting.placeRow linear parallel tour progress).2.length = tour.clauses := by
  induction tour generalizing linear parallel progress with
  | nil => rfl
  | tree node body next _ ih => exact ih linear parallel _
  | mark _ next ih => exact congrArg (· + 1) (ih linear parallel _)

namespace GeometryMap

def drawAll (draw : Node → Option (Geometry α)) (nodes : List Node) (map : GeometryMap α) :
    GeometryMap α :=
  nodes.foldl (fun map node => (draw node).elim map (map.insert node.id)) map

omit [Scalar α] in
theorem get?_map (map : GeometryMap α) (f : Geometry α → Geometry α) (id : NodeId) :
    get? (map.map fun entry => (entry.1, f entry.2)) id = (map.get? id).map f := by
  induction map with
  | nil => rfl
  | cons entry map ih =>
    rw [List.map_cons, get?, get?, List.lookup_cons, List.lookup_cons]
    split
    · rfl
    · exact ih

variable {draw : Node → Option (Geometry α)}

omit [Scalar α] in
theorem get?_draw_of_ne (map : GeometryMap α) {node : Node} {id : NodeId} (apart : id ≠ node.id) :
    ((draw node).elim map (map.insert node.id)).get? id = map.get? id := by
  cases draw node with
  | none => rfl
  | some geometry => exact get?_insert_of_ne map apart geometry

omit [Scalar α] in
theorem get?_drawAll_of_ne {nodes : List Node} {id : NodeId}
    (apart : ∀ node ∈ nodes, id ≠ node.id) (map : GeometryMap α) :
    (drawAll draw nodes map).get? id = map.get? id := by
  induction nodes generalizing map with
  | nil => rfl
  | cons node nodes ih =>
    exact (ih (fun other mem => apart other (List.mem_cons_of_mem _ mem)) _).trans
      (get?_draw_of_ne map (apart node List.mem_cons_self))

omit [Scalar α] in
theorem get?_drawAll {nodes : List Node} (nodup : (nodes.map Node.id).Nodup) {node : Node}
    (mem : node ∈ nodes) (map : GeometryMap α) :
    (drawAll draw nodes map).get? node.id = (draw node).or (map.get? node.id) := by
  induction nodes generalizing map with
  | nil => exact absurd mem List.not_mem_nil
  | cons first nodes ih =>
    rw [List.map_cons, List.nodup_cons] at nodup
    have split : drawAll draw (first :: nodes) map =
        drawAll draw nodes ((draw first).elim map (map.insert first.id)) := rfl
    rw [split]
    rcases List.mem_cons.1 mem with rfl | mem
    · have apart : ∀ other ∈ nodes, node.id ≠ other.id :=
        fun other mem same => nodup.1 (same ▸ List.mem_map_of_mem mem)
      rw [get?_drawAll_of_ne apart]
      cases draw node with
      | none => rfl
      | some geometry => exact get?_insert_self _ _ _
    · rw [ih nodup.2 mem, get?_draw_of_ne]
      exact fun same => nodup.1 (same ▸ List.mem_map_of_mem mem)

end GeometryMap

namespace Setting
variable (setting : Setting α) (rowTop : α) (progress : Progress α)

def participantDrawing? (node : Node) : Option (Geometry α) :=
  match node.element with
  | .participant p => ((setting.finalBoxes progress).lookup p.key).map .box
  | _ => none

def groupDrawing? (node : Node) : Option (Geometry α) :=
  if node.element.isGroup then (setting.groupBox? rowTop progress node).map .box else none

omit [Scalar α] in
theorem drawParticipants_eq (map : GeometryMap α) :
    setting.drawParticipants progress map =
      map.drawAll (setting.participantDrawing? progress) setting.document.nodes := by
  unfold drawParticipants GeometryMap.drawAll
  dsimp only
  congr 1
  funext map node
  obtain ⟨id, lineStart, lineEnd, element⟩ := node
  cases element with
  | participant p =>
    unfold participantDrawing?
    dsimp only
    cases (setting.finalBoxes progress).lookup p.key <;> rfl
  | _ => rfl

theorem drawGroups_eq (map : GeometryMap α) :
    setting.drawGroups rowTop progress map =
      map.drawAll (setting.groupDrawing? rowTop progress) setting.document.nodes := by
  unfold drawGroups GeometryMap.drawAll
  congr 1
  funext map node
  unfold groupDrawing?
  split
  · cases setting.groupBox? rowTop progress node <;> rfl
  · rfl

variable {setting rowTop progress} {node : Node} (entry : node.element.isEntry = true)
include entry

omit [Scalar α] in
theorem participantDrawing?_eq_none : setting.participantDrawing? progress node = none := by
  unfold participantDrawing?
  split
  · rename_i element
    rw [element] at entry
    cases entry
  · rfl

theorem groupDrawing?_eq_none : setting.groupDrawing? rowTop progress node = none := by
  refine if_neg fun group => ?_
  obtain ⟨g, element⟩ := Element.exists_of_isGroup group
  rw [element] at entry
  cases entry

end Setting

section
variable {setting : Setting α} {arrival : Arrival α}

theorem Setting.isSome_messageShape? {message : Message} (spacing : α)
    (known : ∀ key ∈ (Element.message message).mentions, key ∈ setting.columns.order) :
    (setting.messageShape? spacing message).isSome := by
  obtain ⟨fromX, source⟩ := Option.isSome_iff_exists.1
    ((setting.columns.isSome_center?_iff message.source).2 (known _ (by simp [Element.mentions])))
  obtain ⟨toX, target⟩ := Option.isSome_iff_exists.1
    ((setting.columns.isSome_center?_iff message.target).2 (known _ (by simp [Element.mentions])))
  simp [messageShape?, source, target]

theorem Arrival.isSome_drawing? (row : arrival.node.element.takesRow = true)
    (known : ∀ key ∈ arrival.node.element.mentions, key ∈ setting.columns.order) :
    (arrival.drawing? setting).isSome := by
  obtain ⟨⟨id, lineStart, lineEnd, element⟩, progress⟩ := arrival
  cases element with
  | message m => exact Option.isSome_map.trans (Setting.isSome_messageShape? _ known)
  | note => rfl
  | divider => rfl
  | blankLine => rfl
  | error => rfl
  | _ => exact absurd row nofun

theorem Arrival.drawing?_eq_none (rowless : arrival.node.element.takesRow = false) :
    arrival.drawing? setting = none := by
  obtain ⟨⟨id, lineStart, lineEnd, element⟩, progress⟩ := arrival
  cases element with
  | message | note | divider | blankLine | error => exact absurd rowless nofun
  | _ => rfl

theorem Arrival.depicts_drawing? {geometry : Geometry α}
    (drawn : arrival.drawing? setting = some geometry) :
    geometry.Depicts arrival.node.element := by
  obtain ⟨⟨id, lineStart, lineEnd, element⟩, progress⟩ := arrival
  cases element with
  | message m =>
    obtain ⟨shape, -, rfl⟩ := Option.map_eq_some_iff.1 drawn
    exact ⟨_, rfl⟩
  | note | divider | blankLine | error => exact ⟨_, (Option.some.inj drawn).symm⟩
  | _ => exact absurd drawn nofun

end

omit [Scalar α] in
theorem Setting.isSome_lookup_finalBoxes_iff (setting : Setting α) (progress : Progress α)
    {key : String} :
    ((setting.finalBoxes progress).lookup key).isSome ↔ key ∈ setting.columns.order := by
  rw [isSome_lookup_iff, finalBoxes, List.map_map]
  rfl

theorem Span.isSome_cover?_iff {spans : List (Span α)} :
    (cover? spans).isSome ↔ ∃ span, span ∈ spans := by
  cases spans with
  | nil => simp [cover?]
  | cons span spans => exact iff_of_true rfl ⟨span, List.mem_cons_self⟩

namespace Canvas

/-- At the end everything moves to the right alike, or stays. -/
theorem get?_moveIn (canvas : Canvas α) (margin : α) :
    ∃ move : Geometry α → Geometry α, (move = id ∨ ∃ dx, move = Geometry.shiftX dx) ∧
      ∀ node, (canvas.moveIn margin).get? node = (canvas.get? node).map move := by
  have still : ∃ move : Geometry α → Geometry α, (move = id ∨ ∃ dx, move = Geometry.shiftX dx) ∧
      ∀ node, canvas.get? node = (canvas.get? node).map move :=
    ⟨id, Or.inl rfl, fun node => by rw [Option.map_id, id]⟩
  unfold moveIn
  split
  · exact still
  · split
    · rename_i left _ _
      exact ⟨_, Or.inr ⟨margin - left, rfl⟩, fun node => GeometryMap.get?_map _ _ _⟩
    · exact still

theorem names_moveIn (canvas : Canvas α) (margin : α) :
    (canvas.moveIn margin).order = canvas.order ∧
      (canvas.moveIn margin).footers.map Prod.fst = canvas.footers.map Prod.fst ∧
      (canvas.moveIn margin).lifelines.map (fun line => (line.participant, line.endKind)) =
        canvas.lifelines.map fun line => (line.participant, line.endKind) := by
  unfold moveIn
  split
  · exact ⟨rfl, rfl, rfl⟩
  · split
    · exact ⟨List.map_map, List.map_map, List.map_map⟩
    · exact ⟨rfl, rfl, rfl⟩

theorem get?_drawFrame (canvas : Canvas α) (config : Config α) (frames : List NodeId)
    (id : NodeId) :
    (canvas.drawFrame config frames).get? id =
      if id ∈ frames then some (.box (canvas.frameRect config)) else canvas.get? id := by
  have inserted (map : GeometryMap α) (geometry : Geometry α) :
      (frames.foldl (fun map id => map.insert id geometry) map).get? id =
        if id ∈ frames then some geometry else map.get? id := by
    induction frames generalizing map with
    | nil => simp
    | cons first frames ih =>
      rw [List.foldl_cons, ih]
      by_cases later : id ∈ frames
      · simp [later]
      · by_cases same : id = first
        · simp [same, GeometryMap.get?_insert_self]
        · simp [later, same, GeometryMap.get?_insert_of_ne]
  unfold drawFrame
  split
  · rename_i none
    simp [List.isEmpty_iff.1 none]
  · exact inserted _ _

end Canvas

end Layout

namespace Document
open Layout
variable {document : Document} {α : Type} [Scalar α]

/-- Everyone who is mentioned has a column. -/
theorem mem_order_of_mentions {node : Node} (mem : node ∈ document.nodes) (config : Config α)
    {key : String} (mentions : key ∈ node.element.mentions) :
    key ∈ (setting document config).columns.order :=
  (Columns.order_ofDocument document config _).symm ▸ mem_roster_of_mentions mem mentions

def titleDrawing? (document : Document) (config : Config α) (id : NodeId) :
    Option (Geometry α) :=
  match title? document with
  | some (titled, text) =>
    if id = titled then some (.box (titleBox (setting document config) text)) else none
  | none => none

theorem get?_beginning (config : Config α) (id : NodeId) :
    (document.beginning config).geometry.get? id = document.titleDrawing? config id := by
  rw [beginning, drawTitle, titleDrawing?,
    show (setting document config).document = document from rfl]
  cases title? document with
  | none => rfl
  | some title =>
    obtain ⟨titled, text⟩ := title
    by_cases same : id = titled
    · simp [Progress.draw, same, GeometryMap.get?_insert_self]
    · refine (GeometryMap.get?_insert_of_ne _ same _).trans ?_
      simp [same, Progress.start, GeometryMap.get?]

theorem frames_beginning (config : Config α) : (document.beginning config).frames = [] := by
  unfold beginning drawTitle
  split <;> rfl

theorem depicts_titleDrawing? {config : Config α} {id : NodeId} {geometry : Geometry α}
    (drawn : document.titleDrawing? config id = some geometry) :
    ∃ rect, geometry = .box rect := by
  unfold titleDrawing? at drawn
  split at drawn
  · split at drawn
    · exact ⟨_, (Option.some.inj drawn).symm⟩
    · cases drawn
  · cases drawn

namespace IsForest
variable (forest : document.IsForest) (config : Config α)
include forest

theorem title?_eq_some_iff {node : Node} (mem : node ∈ document.nodes) :
    (∃ text, title? document = some (node.id, text)) ↔ document.IsTitle node := by
  constructor
  · rintro ⟨text, found⟩
    obtain ⟨after, other, before, parts, named, none⟩ := List.findSome?_eq_some_iff.1 found
    have known : other ∈ document.nodes := List.mem_reverse.1 (parts ▸ by simp)
    have order := congrArg List.reverse parts
    rw [List.reverse_reverse, List.reverse_append, List.reverse_cons, List.append_assoc] at order
    split at named
    · rename_i title element
      obtain ⟨same, -⟩ := Prod.mk.inj (Option.some.inj named)
      obtain rfl := forest.eq_of_id known mem same
      refine ⟨before.reverse, after.reverse, title, order, element, fun later inside text => ?_⟩
      intro titled
      have absent := none later (List.mem_reverse.1 inside)
      rw [titled] at absent
      cases absent
    · cases named
  · rintro ⟨before, after, text, parts, element, none⟩
    refine ⟨text, List.findSome?_eq_some_iff.2 ⟨after.reverse, node, before.reverse, ?_, ?_, ?_⟩⟩
    · simp [parts]
    · rw [element]
    · intro other inside
      split
      · rename_i text' titled
        exact absurd titled (none other (List.mem_reverse.1 inside) text')
      · rfl

theorem isSome_titleDrawing?_iff {node : Node} (mem : node ∈ document.nodes) :
    (document.titleDrawing? config node.id).isSome ↔ document.IsTitle node := by
  rw [← forest.title?_eq_some_iff mem, titleDrawing?]
  cases title? document with
  | none => simp
  | some title =>
    obtain ⟨id, text⟩ := title
    by_cases same : node.id = id
    · simp [same]
    · simp [same, Ne.symm same]

theorem get?_placeAll_of_not_mem {node : Node} (mem : node ∈ document.nodes)
    (absent : node ∉ (document.tour .openFragments).labels) :
    (placeAll (setting document config)).geometry.get? node.id =
      document.titleDrawing? config node.id := by
  refine ((document.reaches_placeAll config).get?_eq fun other inside same => absent ?_).trans
    (get?_beginning config node.id)
  exact forest.eq_of_id mem (mem_nodes_of_tour inside) same ▸ inside

/-- What a tour comes by is drawn as it comes up, on top of what the title left. -/
theorem exists_get?_leaf {node : Node} (mem : node ∈ (document.tour .openFragments).labels)
    (leaf : ∀ f, node.element ≠ .fragment f) :
    ∃ before, ⟨node, before⟩ ∈ document.arrivals config ∧
      (placeAll (setting document config)).geometry.get? node.id =
      (Arrival.drawing? (setting document config) ⟨node, before⟩).or
        (document.titleDrawing? config node.id) := by
  obtain ⟨before, arrives, -, -, drawn⟩ := forest.exists_moment config mem
  obtain ⟨none, some⟩ := drawn node List.mem_cons_self
  refine ⟨before, arrives, some.trans ?_⟩
  rw [Setting.placeTree_leaf leaf, Setting.get?_placeLeaf_self, none, get?_beginning]

theorem exists_get?_fragment {node : Node} (mem : node ∈ (document.tour .openFragments).labels)
    {f : Fragment} (element : node.element = .fragment f) :
    ∃ frame : FragmentGeometry α,
      (placeAll (setting document config)).geometry.get? node.id = some (.fragment frame) ∧
      frame.elseYs.length = if f.isCollapsed then 0 else f.elseClauses.length := by
  obtain ⟨before, -, -, -, drawn⟩ := forest.exists_moment config mem
  rw [(drawn node List.mem_cons_self).2, Setting.placeTree_fragment element]
  refine ⟨_, GeometryMap.get?_insert_self _ _ _, ?_⟩
  rw [Setting.length_placeRow, forest.clauses_tourUnder (mem_nodes_of_tour mem) element]

theorem mem_frames_iff {node : Node} (mem : node ∈ document.nodes) :
    node.id ∈ (placeAll (setting document config)).frames ↔
      node.element.asksFrame = true ∧ node ∈ (document.tour .openFragments).labels := by
  constructor
  · intro framed
    rcases (document.reaches_placeAll config).exists_of_mem_frames framed with
      early | ⟨other, inside, same, asks⟩
    · rw [frames_beginning] at early
      exact absurd early List.not_mem_nil
    · obtain rfl := forest.eq_of_id (mem_nodes_of_tour inside) mem same
      exact ⟨asks, inside⟩
  · rintro ⟨asks, inside⟩
    obtain ⟨before, -, -, late, -⟩ := forest.exists_moment config inside
    refine late.frames_subset ?_
    rw [Setting.placeTree_leaf, (Setting.writes_placeLeaf node before).2, if_pos asks]
    · exact List.mem_append_right _ (List.mem_singleton_self _)
    · intro f element
      rw [element] at asks
      cases asks

theorem titleDrawing?_eq_none {node : Node} (mem : node ∈ document.nodes)
    (other : ∀ text, node.element ≠ .directive (.title text)) :
    document.titleDrawing? config node.id = none := by
  rw [← Option.not_isSome_iff_eq_none, forest.isSome_titleDrawing?_iff config mem]
  rintro ⟨_, _, text, _, element, -⟩
  exact other text element

theorem renders_row {node : Node} (mem : node ∈ document.nodes)
    (row : node.element.takesRow = true) :
    Renders ((placeAll (setting document config)).geometry.get? node.id) node.element
      (¬document.IsHidden node) := by
  have entry : node.element.isEntry = true := by
    unfold Element.takesRow at row
    unfold Element.isEntry
    split at row <;> simp_all
  have untitled := forest.titleDrawing?_eq_none config mem fun text element => by
    rw [element] at row
    exact absurd row nofun
  rw [← forest.mem_tour_iff_not_hidden mem entry]
  by_cases toured : node ∈ (document.tour .openFragments).labels
  · have leaf : ∀ f, node.element ≠ .fragment f := fun f element => by
      rw [element] at row
      exact absurd row nofun
    obtain ⟨before, -, drawn⟩ := forest.exists_get?_leaf config toured leaf
    rw [untitled, Option.or_none] at drawn
    have known : ∀ key ∈ node.element.mentions, key ∈ (setting document config).columns.order :=
      fun _ => mem_order_of_mentions mem config
    rw [drawn]
    exact ⟨iff_of_true (Arrival.isSome_drawing? row known) toured, fun geometry found =>
      Arrival.depicts_drawing? found⟩
  · rw [forest.get?_placeAll_of_not_mem config mem toured, untitled]
    exact ⟨iff_of_false Bool.false_ne_true toured, fun _ absent => absurd absent nofun⟩

theorem renders_fragment {node : Node} (mem : node ∈ document.nodes) {f : Fragment}
    (element : node.element = .fragment f) :
    Renders ((placeAll (setting document config)).geometry.get? node.id) node.element
      (¬document.IsHidden node) := by
  have entry : node.element.isEntry = true := by
    rw [element]
    rfl
  rw [← forest.mem_tour_iff_not_hidden mem entry]
  by_cases toured : node ∈ (document.tour .openFragments).labels
  · obtain ⟨frame, drawn, sections⟩ := forest.exists_get?_fragment config toured element
    rw [drawn, element]
    exact ⟨iff_of_true rfl toured, fun geometry found =>
      ⟨frame, (Option.some.inj found).symm, sections⟩⟩
  · have untitled := forest.titleDrawing?_eq_none config mem fun text title => by
      rw [element] at title
      exact absurd title nofun
    rw [forest.get?_placeAll_of_not_mem config mem toured, untitled]
    exact ⟨iff_of_false Bool.false_ne_true toured, fun _ absent => absurd absent nofun⟩

/-- For what takes no row, at most the title is drawn. -/
theorem get?_placeAll_of_rowless {node : Node} (mem : node ∈ document.nodes)
    (rowless : node.element.takesRow = false) (leaf : ∀ f, node.element ≠ .fragment f) :
    (placeAll (setting document config)).geometry.get? node.id =
      document.titleDrawing? config node.id := by
  by_cases toured : node ∈ (document.tour .openFragments).labels
  · obtain ⟨before, -, drawn⟩ := forest.exists_get?_leaf config toured leaf
    rw [drawn, Arrival.drawing?_eq_none rowless, Option.none_or]
  · exact forest.get?_placeAll_of_not_mem config mem toured

end IsForest

/-- The aliases that a group's box is drawn around are those that it lists, itself or through the
groups in it. -/
theorem IsForest.mem_boxedAliases_iff (forest : document.IsForest) {node : Node}
    (mem : node ∈ document.nodes) {g : ParticipantGroup} (element : node.element = .group g)
    (key : String) :
    key ∈ node.element.groupAliases ++
        (document.tourUnder .nestedGroups node).labels.flatMap
          (fun node => node.element.groupAliases) ↔
      ∃ inner, Relation.ReflTransGen document.Holds node inner ∧
        key ∈ inner.element.groupAliases := by
  simp only [List.mem_append, List.mem_flatMap, forest.mem_tourUnder_iff Route.isDown_nestedGroups
    mem, forest.transGen_nestedGroups_iff element, Relation.reflTransGen_iff_eq_or_transGen]
  constructor
  · rintro (lists | ⟨inner, steps, lists⟩)
    · exact ⟨node, Or.inl rfl, lists⟩
    · exact ⟨inner, Or.inr steps, lists⟩
  · rintro ⟨inner, rfl | steps, lists⟩
    · exact Or.inl lists
    · exact Or.inr ⟨inner, steps, lists⟩

theorem isSome_lookup_of_mem_groupAliases (config : Config α)
    (listed : ∀ key ∈ document.groupedAliases, key ∈ document.roster) (progress : Progress α)
    {node : Node} (mem : node ∈ document.nodes) {key : String}
    (lists : key ∈ node.element.groupAliases) :
    ((Setting.finalBoxes (setting document config) progress).lookup key).isSome := by
  rw [Setting.isSome_lookup_finalBoxes_iff]
  refine (Columns.order_ofDocument document config _).symm ▸ listed key ?_
  exact List.mem_flatMap.2 ⟨node, mem, lists⟩

/-- A group has a box as soon as it, or a group in it, lists a participant. -/
theorem IsForest.isSome_groupDrawing?_iff (forest : document.IsForest) (config : Config α)
    (listed : ∀ key ∈ document.groupedAliases, key ∈ document.roster) (rowTop : α)
    (progress : Progress α) {node : Node} (mem : node ∈ document.nodes) {g : ParticipantGroup}
    (element : node.element = .group g) :
    ((setting document config).groupDrawing? rowTop progress node).isSome ↔
      document.ListsMember node := by
  have known {inner : Node} (steps : Relation.ReflTransGen document.Holds node inner) :
      inner ∈ document.nodes := by
    cases steps with
    | refl => exact mem
    | tail _ holds => exact holds.2.1
  have group : node.element.isGroup = true := by
    rw [element]
    rfl
  rw [Setting.groupDrawing?, if_pos group, Setting.groupBox?, Option.isSome_map, Option.isSome_map,
    Span.isSome_cover?_iff]
  simp only [List.mem_map, List.mem_filterMap, show (setting document config).document = document
    from rfl, forest.mem_boxedAliases_iff mem element]
  constructor
  · rintro ⟨_, _, ⟨key, ⟨inner, steps, lists⟩, -⟩, -⟩
    exact ⟨inner, steps, List.ne_nil_of_mem lists⟩
  · rintro ⟨inner, steps, lists⟩
    obtain ⟨key, lists⟩ := List.exists_mem_of_ne_nil _ lists
    obtain ⟨box, found⟩ := Option.isSome_iff_exists.1
      (isSome_lookup_of_mem_groupAliases config listed progress (known steps) lists)
    exact ⟨_, box, ⟨key, ⟨inner, steps, lists⟩, found⟩, rfl⟩

def unframed (document : Document) (config : Config α) : Canvas α :=
  (((setting document config).unshifted (rowTop document config)
    (placeAll (setting document config))).moveIn config.margin).widen config

theorem get?_layout (document : Document) (config : Config α) (id : NodeId) :
    (document.layout config).get? id =
      if id ∈ (placeAll (setting document config)).frames then
        some (.box ((document.unframed config).frameRect config))
      else (document.unframed config).get? id :=
  (document.unframed config).get?_drawFrame config _ id

/-- The frame changes nothing else on the canvas. -/
theorem exists_layout (document : Document) (config : Config α) : ∃ geometry frame,
    document.layout config = { document.unframed config with geometry, frame } := by
  change ∃ geometry frame, (document.unframed config).drawFrame config _ = _
  unfold Canvas.drawFrame
  split <;> exact ⟨_, _, rfl⟩

/-- What was drawn last for a node stands on the canvas, moved with everything else. -/
theorem IsForest.get?_unframed (forest : document.IsForest) (config : Config α) :
    let drawn := placeAll (setting document config)
    ∃ move : Geometry α → Geometry α, (move = id ∨ ∃ dx, move = Geometry.shiftX dx) ∧
      (∀ node ∈ document.nodes, (document.unframed config).get? node.id =
        (((setting document config).groupDrawing? (rowTop document config) drawn node).or
          (((setting document config).participantDrawing? drawn node).or
            (drawn.geometry.get? node.id))).map move) ∧
      ∀ id, (∀ node ∈ document.nodes, id ≠ node.id) →
        (document.unframed config).get? id = (drawn.geometry.get? id).map move := by
  intro drawn
  obtain ⟨move, moves, moved⟩ := ((setting document config).unshifted (rowTop document config)
    drawn).get?_moveIn config.margin
  have sheet (id : NodeId) :
      ((setting document config).unshifted (rowTop document config) drawn).get? id =
        GeometryMap.get? ((GeometryMap.drawAll
          ((setting document config).participantDrawing? drawn) document.nodes
          drawn.geometry).drawAll ((setting document config).groupDrawing?
            (rowTop document config) drawn) document.nodes) id := by
    change GeometryMap.get? (Setting.drawGroups _ _ _ (Setting.drawParticipants _ _ _)) _ = _
    rw [Setting.drawGroups_eq, Setting.drawParticipants_eq]
    rfl
  refine ⟨move, moves, fun node mem => (moved node.id).trans ?_, fun id foreign =>
    (moved id).trans ?_⟩
  · rw [sheet, GeometryMap.get?_drawAll forest.ids mem, GeometryMap.get?_drawAll forest.ids mem]
  · rw [sheet, GeometryMap.get?_drawAll_of_ne foreign, GeometryMap.get?_drawAll_of_ne foreign]

section
variable (forest : document.IsForest) (config : Config α) {node : Node}
  (mem : node ∈ document.nodes)
include forest mem

/-- Frames are drawn for frame directives only. -/
theorem IsForest.get?_layout_of_frameless (frameless : node.element.asksFrame = false) :
    (document.layout config).get? node.id = (document.unframed config).get? node.id := by
  have unasked : node.id ∉ (placeAll (setting document config)).frames := fun framed => by
    obtain ⟨asks, -⟩ := (forest.mem_frames_iff config mem).1 framed
    rw [frameless] at asks
    cases asks
  rw [get?_layout, if_neg unasked]

theorem IsForest.renders_layout (frameless : node.element.asksFrame = false) {due : Prop}
    (renders : Renders
      (((setting document config).groupDrawing? (rowTop document config)
        (placeAll (setting document config)) node).or
        (((setting document config).participantDrawing?
          (placeAll (setting document config)) node).or
          ((placeAll (setting document config)).geometry.get? node.id))) node.element due) :
    Renders ((document.layout config).get? node.id) node.element due := by
  obtain ⟨move, moves, drawn, -⟩ := forest.get?_unframed config
  rw [forest.get?_layout_of_frameless config mem frameless, drawn node mem]
  exact renders.move moves

theorem IsForest.renders_frame {directive : Directive}
    (element : node.element = .directive directive) (asks : node.element.asksFrame = true) :
    Renders ((document.layout config).get? node.id) node.element (¬document.IsHidden node) := by
  have entry : node.element.isEntry = true := by
    rw [element]
    rfl
  rw [get?_layout, ← forest.mem_tour_iff_not_hidden mem entry]
  by_cases toured : node ∈ (document.tour .openFragments).labels
  · rw [if_pos ((forest.mem_frames_iff config mem).2 ⟨asks, toured⟩), element]
    exact ⟨iff_of_true rfl toured, fun geometry found => ⟨_, (Option.some.inj found).symm⟩⟩
  · have unframed : node.id ∉ (placeAll (setting document config)).frames := fun framed =>
      toured ((forest.mem_frames_iff config mem).1 framed).2
    have untitled := forest.titleDrawing?_eq_none config mem fun text title => by
      rw [title] at asks
      cases asks
    obtain ⟨move, -, drawn, -⟩ := forest.get?_unframed config
    rw [if_neg unframed, drawn node mem, forest.get?_placeAll_of_not_mem config mem toured,
      untitled]
    obtain ⟨id, lineStart, lineEnd, _⟩ := node
    obtain rfl := element
    exact ⟨iff_of_false Bool.false_ne_true toured, fun _ absent => absurd absent nofun⟩

theorem IsForest.renders_nothing (frameless : node.element.asksFrame = false)
    (rowless : node.element.takesRow = false)
    (other : node.element.isEntry = true ∧ Setting.isFragment node.element = false)
    (untitled : ∀ text, node.element ≠ .directive (.title text)) :
    Renders ((document.layout config).get? node.id) node.element False := by
  obtain ⟨entry, leaf⟩ := other
  refine forest.renders_layout config mem frameless ?_
  have placed : (placeAll (setting document config)).geometry.get? node.id = none := by
    rw [forest.get?_placeAll_of_rowless config mem rowless fun f element => ?_,
      forest.titleDrawing?_eq_none config mem untitled]
    rw [element] at leaf
    cases leaf
  rw [placed, Setting.groupDrawing?_eq_none entry, Setting.participantDrawing?_eq_none entry]
  exact ⟨iff_of_false Bool.false_ne_true id, fun _ absent => absurd absent nofun⟩

theorem IsForest.renders_participant {p : Participant} (element : node.element = .participant p) :
    Renders ((document.layout config).get? node.id) node.element True := by
  have known : p.key ∈ (setting document config).columns.order := by
    refine mem_order_of_mentions mem config ?_
    rw [element]
    exact List.mem_singleton_self _
  obtain ⟨box, found⟩ := Option.isSome_iff_exists.1
    (((setting document config).isSome_lookup_finalBoxes_iff
      (placeAll (setting document config))).2 known)
  refine forest.renders_layout config mem (by rw [element]; rfl) ?_
  simp only [Setting.groupDrawing?, Setting.participantDrawing?, element, found]
  exact ⟨iff_of_true rfl trivial, fun geometry found => ⟨box, (Option.some.inj found).symm⟩⟩

theorem IsForest.renders_group (listed : ∀ key ∈ document.groupedAliases, key ∈ document.roster)
    {g : ParticipantGroup} (element : node.element = .group g) :
    Renders ((document.layout config).get? node.id) node.element
      (document.ListsMember node) := by
  have boxed := forest.isSome_groupDrawing?_iff config listed (rowTop document config)
    (placeAll (setting document config)) mem element
  refine forest.renders_layout config mem (by rw [element]; rfl) ?_
  rw [forest.get?_placeAll_of_rowless config mem (by rw [element]; rfl) (by simp [element]),
    forest.titleDrawing?_eq_none config mem (by simp [element])]
  simp only [Setting.participantDrawing?, element, Option.or_none]
  refine ⟨boxed, fun geometry found => ?_⟩
  unfold Setting.groupDrawing? at found
  split at found
  · obtain ⟨box, -, same⟩ := Option.map_eq_some_iff.1 found
    exact ⟨box, same.symm⟩
  · exact absurd found nofun

theorem IsForest.renders_title {text : String} (element : node.element = .directive (.title text)) :
    Renders ((document.layout config).get? node.id) node.element (document.IsTitle node) := by
  refine forest.renders_layout config mem (by rw [element]; rfl) ?_
  rw [forest.get?_placeAll_of_rowless config mem (by rw [element]; rfl) (by simp [element])]
  simp only [Setting.groupDrawing?, Setting.participantDrawing?, element]
  exact ⟨forest.isSome_titleDrawing?_iff config mem, fun geometry found =>
    depicts_titleDrawing? found⟩

theorem IsForest.renders (listed : ∀ key ∈ document.groupedAliases, key ∈ document.roster) :
    Renders ((document.layout config).get? node.id) node.element (document.IsShown node) := by
  obtain ⟨id, lineStart, lineEnd, element⟩ := node
  cases element with
  | message | note | divider | blankLine | error =>
    exact forest.renders_layout config mem rfl (forest.renders_row config mem rfl)
  | fragment f =>
    exact forest.renders_layout config mem rfl (forest.renders_fragment config mem rfl)
  | participant p => exact forest.renders_participant config mem rfl
  | group g => exact forest.renders_group config mem listed rfl
  | comment => exact forest.renders_nothing config mem rfl rfl ⟨rfl, rfl⟩ nofun
  | directive d =>
    cases d with
    | title text => exact forest.renders_title config mem rfl
    | frame => exact forest.renders_frame config mem rfl rfl
    | _ => exact forest.renders_nothing config mem rfl rfl ⟨rfl, rfl⟩ nofun

end

/-- Nothing is drawn but for nodes. -/
theorem IsForest.exists_of_isSome (forest : document.IsForest) (config : Config α) {id : NodeId}
    (drawn : ((document.layout config).get? id).isSome) :
    ∃ node ∈ document.nodes, node.id = id := by
  by_contra absent
  have foreign : ∀ node ∈ document.nodes, id ≠ node.id :=
    fun node mem same => absent ⟨node, mem, same.symm⟩
  obtain ⟨move, -, -, other⟩ := forest.get?_unframed config
  have unframed : id ∉ (placeAll (setting document config)).frames := by
    intro framed
    rcases (document.reaches_placeAll config).exists_of_mem_frames framed with
      early | ⟨node, inside, same, -⟩
    · rw [frames_beginning] at early
      exact absurd early List.not_mem_nil
    · exact foreign node (mem_nodes_of_tour inside) same.symm
  have untitled : document.titleDrawing? config id = none := by
    unfold titleDrawing?
    split
    · rename_i titled _ found
      obtain ⟨node, mem, same, -⟩ := hasBackground_title found
      exact if_neg fun named => foreign node mem (named.trans same.symm)
    · rfl
  rw [get?_layout, if_neg unframed, other id foreign, (document.reaches_placeAll config).get?_eq
    fun node inside => foreign node (mem_nodes_of_tour inside), get?_beginning, untitled] at drawn
  cases drawn

/-- The last touches leave alone who stands on the canvas, who is repeated below, and how lifelines
end. -/
theorem names_layout (document : Document) (config : Config α) :
    let drawn := (setting document config).unshifted (rowTop document config)
      (placeAll (setting document config))
    (document.layout config).order = drawn.order ∧
      (document.layout config).footers.map Prod.fst = drawn.footers.map Prod.fst ∧
      (document.layout config).lifelines.map (fun line => (line.participant, line.endKind)) =
        drawn.lifelines.map fun line => (line.participant, line.endKind) := by
  intro drawn
  obtain ⟨geometry, frame, framed⟩ := document.exists_layout config
  rw [framed]
  exact drawn.names_moveIn config.margin

/-- Participants stand on the canvas as in the roster, each on a lifeline. -/
theorem order_layout (document : Document) (config : Config α) :
    (document.layout config).order = document.roster ∧
      (document.layout config).lifelines.map Lifeline.participant = document.roster := by
  have columns := Columns.order_ofDocument document config (rowTop document config)
  let drawn := (setting document config).unshifted (rowTop document config)
    (placeAll (setting document config))
  have boxes : drawn.order = document.roster := by
    rw [← columns]
    exact List.map_map
  have lines : drawn.lifelines.map Lifeline.participant = document.roster :=
    List.map_map.trans boxes
  obtain ⟨order, -, ends⟩ := document.names_layout config
  have participants := congrArg (List.map Prod.fst) ends
  rw [List.map_map, List.map_map] at participants
  exact ⟨order.trans boxes, participants.trans lines⟩

/-- The canvas shows exactly the nodes that call for it, each in its own way, and every
participant once. Geometry is kept by identifiers, 32-bit words that are all different when the
text `fits`. -/
theorem shows_what_is_due (first : UInt32) (text : String) (config : Config α)
    (fits : (readFrom first text).nodes.length ≤ 2 ^ 32) :
    let document := readFrom first text
    let canvas := document.layout config
    (∀ node ∈ document.nodes,
      Renders (canvas.get? node.id) node.element (document.IsShown node)) ∧
    (∀ id, (canvas.get? id).isSome → ∃ node ∈ document.nodes, node.id = id) ∧
    canvas.order = document.roster ∧ canvas.order.Nodup ∧
    canvas.lifelines.map Lifeline.participant = canvas.order ∧
    ∀ key, ((canvas.box? key).isSome ↔ key ∈ canvas.order) ∧
      ((canvas.lifeline? key).isSome ↔ key ∈ canvas.order) := by
  intro document canvas
  have forest := isForest_readFrom first text fits
  have listed : ∀ key ∈ document.groupedAliases, key ∈ document.roster :=
    fun key => mem_roster_of_listed first text
  obtain ⟨order, lines⟩ := document.order_layout config
  refine ⟨fun node mem => forest.renders config mem listed,
    fun id => forest.exists_of_isSome config, order, order ▸ document.nodup_roster,
    lines.trans order.symm, fun key => ⟨isSome_lookup_iff, ?_⟩⟩
  rw [Canvas.lifeline?, List.find?_isSome, order, ← lines, List.mem_map]
  exact exists_congr fun lifeline => and_congr_right fun _ => decide_eq_true_iff

/-- The arrow in the collapsed fragment is all that is not drawn. -/
theorem shows_what_is_due_of_collapsed :
    let text :=
      "title T\nparticipantgroup\nparticipant A\nend\nexpandable-\nA->B\nend\nopt\nframe F\nend"
    let document := readFrom 0 text
    let canvas := document.layout (Config.default : Config Rat)
    document.nodes.length ≤ 2 ^ 32 ∧
      document.nodes.map (fun node => (canvas.get? node.id).isSome) =
        [true, true, true, true, false, true, true] ∧
      canvas.order = ["A", "B"] ∧
      ∀ node ∈ document.nodes,
        Renders (canvas.get? node.id) node.element (document.IsShown node) := by
  intro text document canvas
  obtain ⟨fits, drawn, order⟩ : document.nodes.length ≤ 2 ^ 32 ∧
      document.nodes.map (fun node => (canvas.get? node.id).isSome) =
        [true, true, true, true, false, true, true] ∧
      canvas.order = ["A", "B"] := by
    decide +kernel
  exact ⟨fits, drawn, order, (shows_what_is_due 0 text Config.default fits).1⟩

end Document

end SequenceDiagram
