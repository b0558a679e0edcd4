import SequenceDiagram.Proofs.Ledger

set_option autoImplicit false

namespace SequenceDiagram

namespace Layout

/-- One more, up to the greatest number there is. -/
def nextNumber (n : UInt32) : UInt32 :=
  .ofNat (min (n.toNat + 1) 4294967295)

def count (counter : Option UInt32) : Element → Option UInt32
  | .message _ => counter.map nextNumber
  | .directive (.autonumber start) => start
  | _ => counter

def numbering : Option UInt32 → List Node → List (NodeId × Option UInt32)
  | _, [] => []
  | counter, node :: nodes =>
    let later := numbering (count counter node.element) nodes
    match node.element with
    | .message _ => (node.id, counter) :: later
    | _ => later

theorem nextNumber_eq (n : UInt32) :
    nextNumber n = if n = UInt32.ofNat (UInt32.size - 1) then n else n + 1 := by
  have bound := n.toNat_lt
  apply UInt32.toNat_inj.1
  split
  · rename_i last
    subst last
    rfl
  · rename_i other
    have less : n.toNat ≠ 4294967295 := fun same => other (UInt32.toNat_inj.1 same)
    rw [nextNumber, UInt32.toNat_ofNat', UInt32.toNat_add]
    simp only [UInt32.reduceToNat]
    omega

theorem numbering_entries (counter : Option UInt32) (nodes : List Node) :
    numbering counter (nodes.filter fun node => node.element.isEntry) =
      numbering counter nodes := by
  induction nodes generalizing counter with
  | nil => rfl
  | cons node nodes ih =>
    cases entry : node.element.isEntry with
    | true => rw [List.filter_cons_of_pos (by simp [entry]), numbering, numbering, ih]
    | false =>
      rw [List.filter_cons_of_neg (by simp [entry]), ih, numbering]
      cases element : node.element with
      | participant | group => rfl
      | _ =>
        rw [element] at entry
        cases entry

section
variable {α : Type} [Scalar α]

theorem Progress.counter_destroyDoomed (progress : Progress α) (y : α) (key : String) :
    (progress.destroyDoomed y key).counter = progress.counter := by
  unfold destroyDoomed
  split <;> rfl

theorem Setting.isTold_counter (setting : Setting α) : setting.IsTold Progress.counter count where
  ledger _ _ same := congrArg Prod.fst same
  leaf node progress known := by
    obtain ⟨id, lineStart, lineEnd, element⟩ := node
    cases element with
    | message m =>
      obtain ⟨y, placed⟩ := setting.ledger_placeMessage id progress known
      have counter : (setting.placeMessage id m progress).counter = _ := congrArg Prod.fst placed
      have counted : (countMessage progress).counter = progress.counter.map nextNumber :=
        congrArg progress.counter.map (funext nextNumber_eq).symm
      refine counter.trans ?_
      change Progress.counter _ = _
      rw [Progress.counter_destroyDoomed, Progress.counter_destroyDoomed, counted]
      rfl
    | note n =>
      change (setting.placeNote id n progress).counter = progress.counter
      rw [placeNote_eq]
      rfl
    | directive d => cases d <;> rfl
    | _ => rfl
  beside counter element beside := by
    cases element with
    | participant | group => rfl
    | _ => cases beside

def Arrival.number? (arrival : Arrival α) : Option (NodeId × Option UInt32) :=
  match arrival.node.element with
  | .message _ => some (arrival.node.id, arrival.before.counter)
  | _ => none

omit [Scalar α] in
theorem filterMap_number {start : Option UInt32} {past arrivals : List (Arrival α)}
    (each : Successive (fun past arrival =>
      arrival.before.counter = recount count start (past.map Arrival.node)) past arrivals) :
    arrivals.filterMap Arrival.number? =
      numbering (recount count start (past.map Arrival.node)) (arrivals.map Arrival.node) := by
  induction arrivals generalizing past with
  | nil => rfl
  | cons arrival arrivals ih =>
    obtain ⟨here, later⟩ := each
    have next : count (recount count start (past.map Arrival.node)) arrival.node.element =
        recount count start ((past ++ [arrival]).map Arrival.node) := by
      rw [List.map_append]
      exact (recount_append_singleton _ _ _).symm
    rw [List.map_cons, numbering, next, ← ih later]
    cases element : arrival.node.element with
    | message m =>
      have found : arrival.number? = some (arrival.node.id, arrival.before.counter) := by
        rw [Arrival.number?, element]
      rw [List.filterMap_cons_some found, here]
    | _ =>
      have found : arrival.number? = none := by rw [Arrival.number?, element]
      exact List.filterMap_cons_none found

theorem Setting.Creates.number {setting : Setting α} {message : Message}
    {arrow arrow' : MessageGeometry α} {progress after : Progress α}
    (creates : setting.Creates message arrow progress arrow' after) :
    arrow'.number = arrow.number := by
  cases creates <;> rfl

end

def Canvas.number? {α : Type} (canvas : Canvas α) (node : Node) :
    Option (NodeId × Option UInt32) :=
  ((canvas.get? node.id).bind Geometry.message?).map fun arrow => (node.id, arrow.number)

end Layout

namespace Document
open Layout
variable {document : Document} {α : Type} [Scalar α]

section
variable (forest : document.IsForest) (config : Config α)
  (listed : ∀ key ∈ document.groupedAliases, key ∈ document.roster)
include forest listed

theorem IsForest.visible_of_number? {node : Node} (mem : node ∈ document.nodes)
    {number : NodeId × Option UInt32}
    (found : (document.layout config).number? node = some number) :
    (∃ message, node.element = .message message) ∧ ¬document.IsHidden node := by
  obtain ⟨arrow, shown, -⟩ := Option.map_eq_some_iff.1 found
  obtain ⟨geometry, drawn, isArrow⟩ := Option.bind_eq_some_iff.1 shown
  obtain ⟨due, depicts⟩ := forest.renders config mem listed
  have form := depicts geometry drawn
  have visible := due.1 (Option.isSome_iff_exists.2 ⟨geometry, drawn⟩)
  obtain ⟨id, lineStart, lineEnd, element⟩ := node
  cases element with
  | message m => exact ⟨⟨m, rfl⟩, visible⟩
  | fragment f =>
    obtain ⟨frame, rfl, -⟩ := form
    cases isArrow
  | _ =>
    obtain ⟨rect, rfl⟩ := form
    cases isArrow

theorem IsForest.number?_layout {arrival : Arrival α}
    (arrives : arrival ∈ document.arrivals config) :
    (document.layout config).number? arrival.node = arrival.number? := by
  obtain ⟨node, now⟩ := arrival
  have toured : node ∈ (document.tour .openFragments).labels :=
    document.map_node_arrivals config ▸ List.mem_map_of_mem arrives
  have mem := mem_nodes_of_tour toured
  by_cases message : ∃ m, node.element = .message m
  · obtain ⟨m, element⟩ := message
    obtain ⟨before, arrives', drawn⟩ := forest.exists_get?_leaf config toured (by simp [element])
    have once : ((document.arrivals config).map Arrival.node).Nodup :=
      document.map_node_arrivals config ▸ forest.nodup_tour Route.isDown_openFragments
    obtain ⟨-, rfl⟩ := Arrival.mk.inj (List.inj_on_of_nodup_map once arrives' arrives rfl)
    have known : ∀ key ∈ (Element.message m).mentions,
        key ∈ (setting document config).columns.order := fun _ mentions =>
      mem_order_of_mentions mem config (element ▸ mentions)
    obtain ⟨shape, measured⟩ := Option.isSome_iff_exists.1
      (Setting.isSome_messageShape? before.entrySpacing known)
    have number := ((setting document config).creates_placeCreated m (shape.arrow before)
      (Setting.countMessage (before.reserve shape.span shape.height))).number
    obtain ⟨move, moves, moved, -⟩ := forest.get?_unframed config
    have entry : node.element.isEntry = true := by
      rw [element]
      rfl
    rw [Canvas.number?, forest.get?_layout_of_frameless config mem (by rw [element]; rfl),
      moved node mem, Setting.groupDrawing?_eq_none entry,
      Setting.participantDrawing?_eq_none entry, drawn, Arrival.drawing?, Arrival.number?]
    dsimp only
    rw [element]
    dsimp only
    rw [measured]
    obtain rfl | ⟨dx, rfl⟩ := moves
    · exact congrArg (fun number => some (_, number)) number
    · exact congrArg (fun number => some (_, number)) number
  · have numberless : (⟨node, now⟩ : Arrival α).number? = none := by
      unfold Arrival.number?
      split
      · rename_i m element
        exact absurd ⟨m, element⟩ message
      · rfl
    rw [numberless, Option.eq_none_iff_forall_ne_some]
    exact fun number found => message (forest.visible_of_number? config listed mem found).1

theorem IsForest.number?_of_hidden {node : Node} (mem : node ∈ document.nodes)
    (hidden : document.IsHidden node) : (document.layout config).number? node = none :=
  Option.eq_none_iff_forall_ne_some.2 fun _ found =>
    (forest.visible_of_number? config listed mem found).2 hidden

theorem IsForest.number?_of_beside {node : Node} (mem : node ∈ document.nodes)
    (beside : node.element.isEntry = false) : (document.layout config).number? node = none :=
  Option.eq_none_iff_forall_ne_some.2 fun _ found => by
    obtain ⟨⟨m, element⟩, -⟩ := forest.visible_of_number? config listed mem found
    rw [element] at beside
    cases beside

/-- If the tour comes by what is visible, in source order, so do the numbers. -/
theorem IsForest.filterMap_number?
    (source : (document.tour .openFragments).labels.filter (fun node => node.element.isEntry) =
      document.visible.filter fun node => node.element.isEntry) :
    document.nodes.filterMap (document.layout config).number? =
      numbering none document.visible := by
  let number? := (document.layout config).number?
  have beside : ∀ node ∈ document.nodes, node.element.isEntry = false → number? node = none :=
    fun _ mem => forest.number?_of_beside config listed mem
  obtain ⟨each, -⟩ := recounts (setting document config).isTold_counter
  have fresh : (document.beginning config).counter = none :=
    congrArg Prod.fst (ledger_beginning config)
  calc document.nodes.filterMap number?
    _ = document.visible.filterMap number? :=
      (filterMap_visible fun _ mem => forest.number?_of_hidden config listed mem).symm
    _ = (document.visible.filter fun node => node.element.isEntry).filterMap number? :=
      (filterMap_filter_of fun node mem => beside node (mem_visible.1 mem).1).symm
    _ = (document.tour .openFragments).labels.filterMap number? := by
      rw [← source]
      exact filterMap_filter_of fun node mem => beside node (mem_nodes_of_tour mem)
    _ = (document.arrivals config).filterMap Arrival.number? := by
      rw [← document.map_node_arrivals config, List.filterMap_map]
      exact List.filterMap_congr fun _ arrives => forest.number?_layout config listed arrives
    _ = numbering none (document.tour .openFragments).labels := by
      rw [filterMap_number each, document.map_node_arrivals config, fresh]
      rfl
    _ = numbering none document.visible := by
      rw [← numbering_entries, source, numbering_entries]

end

/-- Numbering is one pass over the visible nodes in source order. Fragments and else clauses do not
set the counter back, and what is hidden neither takes a number nor sets the counter. By `fits` the
identifiers, 32-bit words, are all different. -/
theorem numbers_follow_source (first : UInt32) (text : String) (config : Config α)
    (fits : (readFrom first text).nodes.length ≤ 2 ^ 32) :
    let document := readFrom first text
    document.nodes.filterMap (document.layout config).number? =
      numbering none document.visible := by
  intro document
  have forest := isForest_readFrom first text fits
  have listed : ∀ key ∈ document.groupedAliases, key ∈ document.roster :=
    fun key => mem_roster_of_listed first text
  exact forest.filterMap_number? config listed (filter_tour_readFrom first text fits)

/-- The greatest number is given again in the next section and behind it. The collapsed fragment
would have set the counter. -/
theorem numbers_follow_source_of_collapsed :
    let text :=
      "autonumber 4294967294\nalt\na->b\nexpandable-\nautonumber\na->b\nend\nelse\nb->a\nend\na->b"
    let document := readFrom 0 text
    let canvas := document.layout (Config.default : Config Rat)
    document.nodes.length ≤ 2 ^ 32 ∧
      document.nodes.filterMap canvas.number? =
        [(⟨2⟩, some 4294967294), (⟨6⟩, some 4294967295), (⟨7⟩, some 4294967295)] ∧
      document.nodes.filterMap canvas.number? = numbering none document.visible := by
  intro text document canvas
  obtain ⟨fits, drawn⟩ : document.nodes.length ≤ 2 ^ 32 ∧
      document.nodes.filterMap canvas.number? =
        [(⟨2⟩, some 4294967294), (⟨6⟩, some 4294967295), (⟨7⟩, some 4294967295)] := by
    decide +kernel
  exact ⟨fits, drawn, numbers_follow_source 0 text Config.default fits⟩

end Document

end SequenceDiagram
