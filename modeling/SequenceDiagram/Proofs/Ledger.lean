import SequenceDiagram.Proofs.Shown
import SequenceDiagram.Proofs.Walks

set_option autoImplicit false

namespace SequenceDiagram

namespace Layout
variable {α : Type}

/-- The counter, the ends of lifelines, the participants that wait for their end, and the wish for
footers. -/
def Progress.ledger (progress : Progress α) :
    Option UInt32 × List (String × Ending α) × List String × Bool :=
  (progress.counter, progress.endings, progress.doomed, progress.bottomParticipants)

/-- Where a story stands that elements tell one after the other. -/
def recount {σ : Type} (tell : σ → Element → σ) (start : σ) (nodes : List Node) : σ :=
  nodes.foldl (fun state node => tell state node.element) start

section
variable {σ : Type} {tell : σ → Element → σ}

theorem recount_cons (start : σ) (node : Node) (nodes : List Node) :
    recount tell start (node :: nodes) = recount tell (tell start node.element) nodes := rfl

theorem recount_append_singleton (start : σ) (nodes : List Node) (node : Node) :
    recount tell start (nodes ++ [node]) = tell (recount tell start nodes) node.element := by
  rw [recount, List.foldl_append]
  rfl

/-- Nodes that tell nothing can be left out. -/
theorem recount_filter {test : Node → Bool} (start : σ) {nodes : List Node}
    (silent : ∀ node ∈ nodes, test node = false → ∀ state, tell state node.element = state) :
    recount tell start (nodes.filter test) = recount tell start nodes := by
  induction nodes generalizing start with
  | nil => rfl
  | cons node nodes ih =>
    have later := fun start => ih start fun other mem => silent other (List.mem_cons_of_mem _ mem)
    cases kept : test node with
    | true =>
      rw [List.filter_cons_of_pos kept, recount_cons, recount_cons]
      exact later _
    | false =>
      rw [List.filter_cons_of_neg (by simp [kept]), recount_cons,
        silent node List.mem_cons_self kept]
      exact later start

end

variable [Scalar α]

namespace Setting
variable {setting : Setting α}

theorem ledger_enterFragment (f : Fragment) (progress : Progress α) :
    (setting.enterFragment f progress).ledger = progress.ledger := by
  unfold enterFragment
  split <;> rfl

theorem ledger_leaveFragment (f : Fragment) (progress : Progress α) :
    (setting.leaveFragment f progress).ledger = progress.ledger := by
  unfold leaveFragment
  split <;> rfl

omit [Scalar α] in
theorem ledger_remember (key : String) (box : Rect α) (progress : Progress α) :
    (remember key box progress).ledger = progress.ledger := by
  unfold remember
  split <;> rfl

theorem Creates.ledger {message : Message} {arrow arrow' : MessageGeometry α}
    {progress after : Progress α} (creates : setting.Creates message arrow progress arrow' after) :
    after.ledger = progress.ledger := by
  cases creates with
  | plain => rfl
  | hidden => exact ledger_remember _ _ _
  | forward => exact ledger_remember _ _ _
  | backward => exact ledger_remember _ _ _

theorem ledger_reserve (progress : Progress α) (span : Span α) (height : α) :
    (progress.reserve span height).ledger = progress.ledger := by
  unfold Progress.reserve
  split <;> rfl

section
variable {progress progress' : Progress α} (same : progress.ledger = progress'.ledger)
include same

omit [Scalar α] in
theorem ledger_countMessage : (countMessage progress).ledger = (countMessage progress').ledger := by
  obtain ⟨counter, rest⟩ := Prod.mk.inj same
  exact Prod.ext (congrArg (Option.map _) counter) rest

theorem ledger_destroyDoomed (y : α) (key : String) :
    (progress.destroyDoomed y key).ledger = (progress'.destroyDoomed y key).ledger := by
  obtain ⟨counter, endings, doomed, bottom⟩ : _ ∧ _ ∧ _ ∧ _ := by
    simpa only [Progress.ledger, Prod.mk.injEq] using same
  unfold Progress.destroyDoomed
  rw [doomed]
  split
  · simp only [Progress.endLifeline, Progress.ledger, counter, endings, bottom]
  · exact same

end

/-- A message is counted, and destroys those at its ends that wait for it. -/
theorem ledger_placeMessage (id : NodeId) {message : Message} (progress : Progress α)
    (known : ∀ key ∈ (Element.message message).mentions, key ∈ setting.columns.order) :
    ∃ y, (setting.placeMessage id message progress).ledger =
      (((countMessage progress).destroyDoomed y message.source).destroyDoomed y
        message.target).ledger := by
  obtain ⟨shape, measured⟩ := Option.isSome_iff_exists.1
    (isSome_messageShape? progress.entrySpacing known)
  have created := (setting.creates_placeCreated message (shape.arrow progress)
    (countMessage (progress.reserve shape.span shape.height))).ledger
  have counted := ledger_countMessage (ledger_reserve progress shape.span shape.height)
  refine ⟨(shape.arrow progress).endY, ?_⟩
  rw [placeMessage, measured]
  refine ledger_destroyDoomed (ledger_destroyDoomed ?_ _ _) _ _
  exact created.trans counted

end Setting

/-- A view of the ledger that changes as elements tell. What stands beside the rows tells
nothing. -/
structure Setting.IsTold {σ : Type} (setting : Setting α) (view : Progress α → σ)
    (tell : σ → Element → σ) : Prop where
  ledger : ∀ progress progress', progress.ledger = progress'.ledger →
    view progress = view progress'
  leaf : ∀ node progress, (∀ key ∈ node.element.mentions, key ∈ setting.columns.order) →
    view (setting.placeLeaf node progress) = tell (view progress) node.element
  beside : ∀ state element, element.isEntry = false → tell state element = state

namespace Setting.IsTold
variable {σ : Type} {setting : Setting α} {view : Progress α → σ} {tell : σ → Element → σ}

/-- All along a tour, every node comes up when all before it have told their part. -/
theorem preserves (told : setting.IsTold view tell) {nodes : List Node}
    (known : ∀ node ∈ nodes, ∀ key ∈ node.element.mentions, key ∈ setting.columns.order)
    (start : σ) :
    setting.Preserves nodes
      (fun past arrival => view arrival.before = recount tell start (past.map Arrival.node))
      (fun past progress => view progress = recount tell start (past.map Arrival.node)) where
  leaf node mem past progress before := by
    refine ⟨before, ?_⟩
    rw [told.leaf node progress (known node mem), before, List.map_append]
    exact (recount_append_singleton _ _ _).symm
  enter f _ progress before := (told.ledger _ _ (ledger_enterFragment f progress)).trans before
  clause linear parallel _ progress before :=
    (told.ledger (setting.enterElse (endSection linear parallel progress)) progress rfl).trans
      before
  leave node _ f _ top elseYs linear parallel _ progress before := by
    have left : (setting.drawFragment node f top elseYs (setting.leaveFragment f
        (endSection linear parallel progress))).ledger = progress.ledger :=
      ledger_leaveFragment f (endSection linear parallel progress)
    exact (told.ledger _ _ left).trans before

end Setting.IsTold

end Layout

theorem filterMap_filter_of {α β : Type} {read : α → Option β} {test : α → Bool} {items : List α}
    (silent : ∀ item ∈ items, test item = false → read item = none) :
    (items.filter test).filterMap read = items.filterMap read := by
  rw [List.filterMap_filter]
  refine List.filterMap_congr fun item mem => ?_
  cases kept : test item with
  | true => rfl
  | false => exact (silent item mem kept).symm

namespace Document
open Layout
variable {document : Document}

open Classical in
noncomputable def visible (document : Document) : List Node :=
  document.nodes.filter fun node => ¬document.IsHidden node

theorem mem_visible {node : Node} :
    node ∈ document.visible ↔ node ∈ document.nodes ∧ ¬document.IsHidden node := by
  simp [visible]

theorem visible_sublist (document : Document) : document.visible.Sublist document.nodes :=
  List.filter_sublist

theorem filterMap_visible {β : Type} {read : Node → Option β}
    (hidden : ∀ node ∈ document.nodes, document.IsHidden node → read node = none) :
    document.visible.filterMap read = document.nodes.filterMap read :=
  filterMap_filter_of fun node mem hides => hidden node mem (by simpa using hides)

/-- But for what stands beside the rows, what is placed of a document that was read is what is
visible. -/
theorem filter_tour_readFrom (first : UInt32) (text : String)
    (fits : (readFrom first text).nodes.length ≤ 2 ^ 32) :
    ((readFrom first text).tour .openFragments).labels.filter (fun node => node.element.isEntry) =
      (readFrom first text).visible.filter fun node => node.element.isEntry := by
  have forest := isForest_readFrom first text fits
  have nodup := nodup_nodes_readFrom first text fits
  have toured := (List.filter_sublist (p := fun node : Node => node.element.isEntry)).trans
    (labels_tour_readFrom first text fits)
  have seen := (List.filter_sublist (p := fun node : Node => node.element.isEntry)).trans
    (readFrom first text).visible_sublist
  refine (nodup.perm_iff_eq_of_sublist toured seen).1
    ((List.perm_ext_iff_of_nodup (toured.nodup nodup) (seen.nodup nodup)).2 fun node => ?_)
  rw [List.mem_filter, List.mem_filter, mem_visible]
  refine and_congr_left fun entry => ⟨fun mem => ?_, fun ⟨mem, shown⟩ => ?_⟩
  · have known := mem_nodes_of_tour mem
    exact ⟨known, (forest.mem_tour_iff_not_hidden known entry).1 mem⟩
  · exact (forest.mem_tour_iff_not_hidden mem entry).2 shown

section
variable {α : Type} [Scalar α]

theorem map_node_arrivals (document : Document) (config : Config α) :
    (document.arrivals config).map Arrival.node = (document.tour .openFragments).labels :=
  let ⟨_, walks⟩ := document.walks_tour .openFragments
  Layout.map_node_arrivals (setting document config) walks _ _ _

theorem ledger_beginning (config : Config α) :
    (document.beginning config).ledger = (none, [], [], false) := by
  unfold beginning drawTitle
  split <;> rfl

variable {σ : Type} {config : Config α} {view : Progress α → σ} {tell : σ → Element → σ}

/-- Every node comes up when all before it have told their part, and in the end all have. -/
theorem recounts (told : (setting document config).IsTold view tell) :
    Successive (fun past arrival => view arrival.before =
        recount tell (view (document.beginning config)) (past.map Arrival.node)) []
      (document.arrivals config) ∧
    view (placeAll (setting document config)) =
      recount tell (view (document.beginning config)) (document.tour .openFragments).labels := by
  have known : ∀ node ∈ (document.tour .openFragments).labels, ∀ key ∈ node.element.mentions,
      key ∈ (setting document config).columns.order := fun _ mem _ mentions =>
    mem_order_of_mentions (mem_nodes_of_tour mem) config mentions
  have before : view (document.beginning config) = recount tell
      (view (document.beginning config)) (([] : List (Arrival α)).map Arrival.node) := rfl
  obtain ⟨each, all⟩ := (told.preserves known _).run _ _ (List.Subset.refl _) [] before
  refine ⟨each, all.trans ?_⟩
  rw [List.nil_append, ← document.map_node_arrivals config]
  rfl

/-- In a document that was read, the visible nodes tell the whole story. -/
theorem recount_visible (first : UInt32) (text : String)
    (fits : (readFrom first text).nodes.length ≤ 2 ^ 32)
    (told : (setting (readFrom first text) config).IsTold view tell) :
    view (placeAll (setting (readFrom first text) config)) =
      recount tell (view ((readFrom first text).beginning config))
        (readFrom first text).visible := by
  have silent : ∀ nodes : List Node, ∀ node ∈ nodes, node.element.isEntry = false → ∀ state,
      tell state node.element = state :=
    fun _ _ _ beside state => told.beside state _ beside
  rw [(recounts told).2, ← recount_filter _ (silent _), filter_tour_readFrom first text fits,
    recount_filter _ (silent _)]

end

end Document

end SequenceDiagram
