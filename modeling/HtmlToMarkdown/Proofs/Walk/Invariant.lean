import HtmlToMarkdown.Proofs.Coercion
import HtmlToMarkdown.Proofs.Flow.Invariant
import HtmlToMarkdown.Proofs.Grid.Spread
import HtmlToMarkdown.Proofs.Walk.Content

/-!
Properties of all the nodes that a walk gives. Each handler builds its node in one way, and what it
takes for a property to hold of that node, given that it holds of the content, is a rule of its
own. A property may depend on whether there is a table around, which the walk leaves as it was, and
on the positions in the source, of which the walk only passes on those that it is given.
-/

namespace HtmlToMarkdown

open Html (Element ThroughoutAll throughoutAll_iff)
open Markdown (Align FlowInvariant Leaf Node Origin Shape coerce dropSurroundingBreaks
  emptyCell emptyRow wrap wrapNeeded)

def Html.Node.Placed (given : Position → Prop) (n : Html.Node) : Prop :=
  ∀ p ∈ n.position, given p

/-- What it takes for a property to pass from the content of nodes to the nodes that the handlers
make of it, at positions as `given`. -/
structure ConversionInvariant (given : Position → Prop) (P : Bool → Node → Prop) : Prop
    extends FlowInvariant P where
  leaf {position : Option Position} (t : Bool) (content : Leaf) (placed : ∀ p ∈ position, given p) :
    P t (.leaf content { position })
  retext {t : Bool} {value : String} {origin : Origin} (holds : P t (.leaf (.text value) origin))
    (other : String) : P t (.leaf (.text other) origin)
  phrasing {t : Bool} {shape : Shape} {position : Option Position} {children : List Node}
    (isPhrasing : shape.isPhrasing) (placed : ∀ p ∈ position, given p)
    (inside : ∀ c ∈ children, P t c) : P t (.parent shape { position } children)
  blocks {t : Bool} {shape : Shape} {position : Option Position} {children : List Node}
    (isContainer : shape.isContainer) (placed : ∀ p ∈ position, given p)
    (inside : ∀ c ∈ children, P t c) : P t (.parent shape { position } (wrap children))
  inlineRoot {t : Bool} {position : Option Position} {children : List Node}
    (inline : ¬ wrapNeeded children) (placed : ∀ p ∈ position, given p)
    (inside : ∀ c ∈ children, P t c) : P t (.parent .root { position } children)
  paragraph {t : Bool} {position : Option Position} {children : List Node}
    (filled : dropSurroundingBreaks children ≠ []) (placed : ∀ p ∈ position, given p)
    (inside : ∀ c ∈ children, P t c) :
    P t (.parent .paragraph { position } (dropSurroundingBreaks children))
  heading {t : Bool} {position : Option Position} {children : List Node} (tag : String)
    (placed : ∀ p ∈ position, given p) (inside : ∀ c ∈ children, P t c) :
    P t (.parent (.heading (Handler.headingDepth tag)) { position }
      (dropSurroundingBreaks children))
  item {t : Bool} {children : List Node} (filled : children ≠ []) (spread : Bool)
    (inside : ∀ c ∈ children, P t c) : P t (.plain (.listItem spread none) children)
  stray {t : Bool} {shape : Shape} {origin : Origin} {children ds : List Node}
    (kind : shape.kind = .listItem ∨ shape.kind = .tableCell)
    (holds : P t (.parent shape origin children)) (inside : ∀ d ∈ ds, P t d) :
    P t (.parent shape origin ds)
  emptyItem (t : Bool) : P t Handler.emptyItem
  list {t : Bool} {position : Option Position} {items : List Node} (ordered : Bool)
    (start : UInt32) (spread : Bool) (placed : ∀ p ∈ position, given p)
    (kinds : ∀ c ∈ items, c.kind = .listItem) (inside : ∀ c ∈ items, P t c) :
    P t (.parent (.list ordered (if ordered then some start else none) spread) { position } items)
  cell {t : Bool} {position : Option Position} {children : List Node}
    (placed : ∀ p ∈ position, given p) (inside : ∀ c ∈ children, P t c) :
    P t (.parent .tableCell { position } children)
  row {t : Bool} {position : Option Position} {cells : List Node}
    (placed : ∀ p ∈ position, given p) (kinds : ∀ c ∈ cells, c.kind = .tableCell)
    (inside : ∀ c ∈ cells, P t c) : P t (.parent .tableRow { position } cells)
  refillRow {t : Bool} {origin : Origin} {children cells : List Node}
    (holds : P t (.parent .tableRow origin children)) (kinds : ∀ c ∈ cells, c.kind = .tableCell)
    (inside : ∀ c ∈ cells, P t c) : P t (.parent .tableRow origin cells)
  table {position : Option Position} {rows : List Node} (align : List (Option Align))
    (placed : ∀ p ∈ position, given p) (columns : align ≠ [])
    (kinds : ∀ r ∈ rows, r.kind = .tableRow)
    (lengths : ∀ r ∈ rows, r.children.length = align.length) (inside : ∀ r ∈ rows, P true r) :
    P false (.parent (.table align) { position } rows)

/-- All nodes that an action gives have the property, and there is a table around after it when
there was one before. -/
def Conversion.Yields (P : Bool → Node → Prop) (act : Conversion (List Node)) : Prop :=
  ∀ s, (act.run s).2.inTable = s.inTable ∧ ∀ m ∈ (act.run s).1, P s.inTable m

namespace Conversion.Yields

variable {P : Bool → Node → Prop}

theorem none : Yields P (pure []) := fun _ => ⟨rfl, fun _ member => nomatch member⟩

theorem single {n : Node} (holds : ∀ t, P t n) : Yields P (pure [n]) :=
  fun s => ⟨rfl, List.forall_mem_singleton.mpr (holds s.inTable)⟩

theorem after {Q : Bool → Node → Prop} {act : Conversion (List Node)}
    {f : State → List Node → List Node} (yields : Yields P act)
    (made : ∀ s t ns, (∀ n ∈ ns, P t n) → ∀ m ∈ f s ns, Q t m) : Yields Q (act.after f) := by
  intro s
  obtain ⟨same, holds⟩ := yields s
  exact ⟨same, made _ _ _ holds⟩

theorem single_after {act : Conversion (List Node)} {f : State → List Node → Node}
    (yields : Yields P act) (made : ∀ s t ns, (∀ n ∈ ns, P t n) → P t (f s ns)) :
    Yields P (act.after fun s ns => [f s ns]) :=
  yields.after fun s t ns holds => List.forall_mem_singleton.mpr (made s t ns holds)

theorem reads {f : State → List Node} (made : ∀ s t, ∀ m ∈ f s, P t m) :
    Yields P (Conversion.reads f) :=
  fun s => ⟨rfl, made s s.inTable⟩

theorem append {act more : Conversion (List Node)} (yields : Yields P act)
    (rest : Yields P more) : Yields P (do return (← act) ++ (← more)) := by
  intro s
  obtain ⟨same, holds⟩ := yields s
  obtain ⟨sameRest, holdsRest⟩ := rest (act.run s).2
  refine ⟨sameRest.trans same, List.forall_mem_append.mpr ⟨holds, ?_⟩⟩
  rw [same] at holdsRest
  exact holdsRest

theorem all {walk : Walk} {parent : Option Element} {ns : List Html.Node}
    (each : ∀ n ∈ ns, Yields P (walk.nodes n parent)) : Yields P (walk.all parent ns) := by
  induction ns with
  | nil => exact none
  | cons n ns ih =>
      rw [Walk.all_cons]
      exact (each n List.mem_cons_self).append
        (ih fun m member => each m (List.mem_cons_of_mem _ member))

theorem modify {act : Conversion (List Node)} (yields : Yields P act) (f : State → State)
    (same : ∀ s, (f s).inTable = s.inTable) : Yields P (do modify f; act) := by
  intro s
  obtain ⟨sameAfter, holds⟩ := yields (f s)
  rw [same] at sameAfter holds
  exact ⟨sameAfter, holds⟩

end Conversion.Yields

namespace ConversionInvariant

open Conversion (Yields)
open Handler (placed placedLeaf)

variable {given : Position → Prop} {P : Bool → Node → Prop} {t : Bool} {ns : List Node}

theorem unplaced : ∀ p ∈ (none : Option Position), given p := nofun

theorem coerce (invariant : ConversionInvariant given P) {fresh : Node} (isFresh : P t fresh)
    (kind : fresh.kind = .listItem ∨ fresh.kind = .tableCell) (holds : ∀ n ∈ ns, P t n) :
    ∀ r ∈ coerce fresh ns, P t r := by
  have grown : ∀ (n : Node) (ds : List Node), n.kind = fresh.kind ∧ P t n → (∀ d ∈ ds, P t d) →
      ∀ both : List Node, (∀ d ∈ both, d ∈ ds ∨ d ∈ n.children) →
        (n.withChildren both).kind = fresh.kind ∧ P t (n.withChildren both) := by
    intro n ds ⟨same, here⟩ strays both made
    refine ⟨(Markdown.kind_withChildren n both).trans same, ?_⟩
    cases n with
    | leaf content origin => exact here
    | parent shape origin children =>
        have own : shape.kind = .listItem ∨ shape.kind = .tableCell := by rwa [← same] at kind
        apply invariant.stray own here
        intro d member
        exact (made d member).elim (strays d) (invariant.below here d)
  have all := Markdown.forall_coerce (Q := fun n => n.kind = fresh.kind ∧ P t n) (S := P t)
    ⟨rfl, isFresh⟩ (fun n member same => ⟨same, holds n member⟩) (fun n member _ => holds n member)
    (fun n ds here strays => grown n ds here strays _ (by simp))
    (fun n ds here strays => grown n ds here strays _ (by simp [or_comm]))
  intro r member
  exact (all r member).2

theorem emptyCell (invariant : ConversionInvariant given P) (t : Bool) : P t emptyCell :=
  invariant.cell unplaced (by simp)

theorem items (invariant : ConversionInvariant given P) (holds : ∀ n ∈ ns, P t n) :
    ∀ r ∈ Markdown.coerce Handler.emptyItem ns, P t r :=
  invariant.coerce (invariant.emptyItem t) (.inl rfl) holds

theorem cells (invariant : ConversionInvariant given P) (holds : ∀ n ∈ ns, P t n) :
    ∀ c ∈ Markdown.coerce Markdown.emptyCell ns, P t c :=
  invariant.coerce (invariant.emptyCell t) (.inr rfl) holds

/-- A row that took in strays holds anything for a while. -/
def LooseRow (P : Bool → Node → Prop) (t : Bool) (n : Node) : Prop :=
  ∃ origin cells children, P t (.parent .tableRow origin cells) ∧
    n = .parent .tableRow origin children ∧ ∀ c ∈ children, P t c

theorem looseRows (invariant : ConversionInvariant given P) (holds : ∀ n ∈ ns, P t n) :
    ∀ r ∈ Markdown.coerce emptyRow ns, LooseRow P t r := by
  apply Markdown.forall_coerce (Q := LooseRow P t) (S := P t)
  · exact ⟨{}, [], [], invariant.row unplaced (by simp) (by simp), rfl, by simp⟩
  · intro n member kind
    obtain ⟨origin, cells, rfl⟩ := Markdown.exists_row_of_kind kind
    have here := holds _ member
    exact ⟨origin, cells, cells, here, rfl, invariant.below here⟩
  · intro n member _
    exact holds n member
  · rintro n ds ⟨origin, cells, children, here, rfl, inside⟩ strays
    exact ⟨origin, cells, _, here, rfl, List.forall_mem_append.mpr ⟨strays, inside⟩⟩
  · rintro n ds ⟨origin, cells, children, here, rfl, inside⟩ strays
    exact ⟨origin, cells, _, here, rfl, List.forall_mem_append.mpr ⟨inside, strays⟩⟩

theorem builtTable (invariant : ConversionInvariant given P) (e : Element)
    (spans : List (List Html.CellSpan)) (placed : ∀ p ∈ e.position, given p)
    (holds : ∀ n ∈ ns, P true n) : P false (Handler.builtTable e ns spans) := by
  let l := Handler.layout e
  have columns :
      1 ≤ (Markdown.rectangle l.headless l.align (Markdown.coerce emptyRow ns) spans).1.length := by
    rw [Markdown.length_align_rectangle]
    exact Nat.le_max_left 1 _
  have row : ∀ r ∈ (Markdown.rectangle l.headless l.align (Markdown.coerce emptyRow ns) spans).2,
      r.kind = .tableRow ∧ r.children.length =
        (Markdown.rectangle l.headless l.align (Markdown.coerce emptyRow ns) spans).1.length ∧
        P true r := by
    intro r member
    obtain ⟨given, found, nodes, rfl, length, made⟩ :=
      Markdown.exists_of_mem_rectangle l.headless l.align _ spans member
    have loose : LooseRow P true given := by
      unfold Markdown.givenRows at found
      split at found
      · rcases List.mem_cons.mp found with rfl | inside
        · exact ⟨{}, [], [], invariant.row unplaced (by simp) (by simp), rfl, by simp⟩
        · exact invariant.looseRows holds given inside
      · exact invariant.looseRows holds given found
    obtain ⟨origin, cells, children, here, rfl, inside⟩ := loose
    refine ⟨rfl, length, invariant.refillRow here ?_ ?_⟩
    · intro c member
      rcases made c member with rfl | coerced
      · rfl
      · exact Markdown.kind_of_mem_coerce c coerced
    · intro c member
      rcases made c member with rfl | coerced
      · exact invariant.emptyCell true
      · exact invariant.cells inside c coerced
  exact invariant.table _ placed (List.ne_nil_of_length_pos columns)
    (fun r member => (row r member).1) (fun r member => (row r member).2.1)
    (fun r member => (row r member).2.2)

theorem quoteWith (invariant : ConversionInvariant given P) (marks : String × String)
    (holds : ∀ n ∈ ns, P t n) : ∀ m ∈ Handler.quoteWith marks ns, P t m :=
  Handler.forall_quoteWith marks (fun value => invariant.leaf t (.text value) unplaced)
    (fun _ other _ here => invariant.retext here other) holds

theorem unwrapSingle (invariant : ConversionInvariant given P)
    (kinds : ∀ r ∈ ns, r.kind = .listItem) (holds : ∀ r ∈ ns, P t r) :
    ∀ m ∈ Handler.unwrapSingle ns, P t m :=
  Handler.forall_unwrapSingle (fun _ _ _ => invariant.below)
    (invariant.list false 0 _ unplaced kinds holds) holds

theorem groupContent (invariant : ConversionInvariant given P) {walk : Walk} {e : Element}
    {nodes : List Html.Node} (each : ∀ n ∈ nodes, Yields P (walk.nodes n (some e))) :
    Yields P (Handler.groupContent walk e nodes) :=
  (Yields.all each).after fun _ _ _ holds =>
    invariant.unwrapSingle Markdown.kind_of_mem_coerce (invariant.items holds)

theorem groupItem (invariant : ConversionInvariant given P) (holds : ∀ n ∈ ns, P t n) :
    ∀ m ∈ Handler.groupItem ns, P t m := by
  cases ns with
  | nil => exact holds
  | cons n ns =>
      exact List.forall_mem_singleton.mpr (invariant.item (List.cons_ne_nil n ns) _ holds)

theorem kind_of_mem_groupItem : ∀ m ∈ Handler.groupItem ns, m.kind = .listItem := by
  cases ns with
  | nil => simp [Handler.groupItem]
  | cons n ns => exact List.forall_mem_singleton.mpr rfl

theorem groupItems (invariant : ConversionInvariant given P) {walk : Walk} {e : Element}
    {groups : List Handler.Group}
    (each : ∀ g ∈ groups, ∀ n ∈ g.nodes, Yields P (walk.nodes n (some e))) :
    Yields (fun t n => P t n ∧ n.kind = .listItem) (Handler.groupItems walk e groups) := by
  induction groups with
  | nil => exact Yields.none
  | cons group groups ih =>
      have here := each group List.mem_cons_self
      have rest := ih fun g member => each g (List.mem_cons_of_mem _ member)
      have terms := invariant.groupContent fun n member =>
        here n (List.mem_append_left group.definitions member)
      have definitions := invariant.groupContent fun n member =>
        here n (List.mem_append_right group.terms member)
      have item : Yields (fun t n => P t n ∧ n.kind = .listItem)
          (Conversion.after (do
            return (← Handler.groupContent walk e group.terms) ++
              (← Handler.groupContent walk e group.definitions))
            fun _ ns => Handler.groupItem ns) :=
        (terms.append definitions).after fun _ _ _ holds m member =>
          ⟨invariant.groupItem holds m member, kind_of_mem_groupItem m member⟩
      exact item.append rest

theorem inputOutput (invariant : ConversionInvariant given P) (s : State) {e : Element}
    (placed : ∀ p ∈ e.position, given p) : ∀ m ∈ Output.nodes (Handler.inputOutput s e), P t m := by
  have text : ∀ value, P t (.text value) := fun value => invariant.leaf t (.text value) unplaced
  apply Handler.forall_inputOutput e s _ text
  · intro url value
    exact invariant.phrasing rfl placed (List.forall_mem_singleton.mpr (text value))
  · intro content _
    exact invariant.leaf t content placed

theorem shownMedia (invariant : ConversionInvariant given P) (s : State) {e : Element}
    (placed : ∀ p ∈ e.position, given p) (holds : ∀ n ∈ ns, P t n) :
    ∀ m ∈ Handler.shownMedia s e ns, P t m :=
  Handler.forall_shownMedia e s (fun _ _ => invariant.leaf t _ placed) holds

theorem registered (invariant : ConversionInvariant given P) {walk : Walk}
    (each : ∀ n : Html.Node, n.Throughout (Html.Node.Placed given) →
      ∀ parent, Yields P (walk.nodes n parent))
    {key : String} {handler : TagHandler} (registered : Handlers.Registered key handler)
    {e : Element} (holds : e.toNode.Throughout (Html.Node.Placed given)) (parent : Option Element) :
    Yields P (Output.nodes <$> handler walk e parent) := by
  have placed : ∀ p ∈ e.position, given p := holds.1
  have leaf : ∀ content, Yields P (pure [placedLeaf e content]) := by
    intro content
    exact Yields.single fun t => invariant.leaf t content placed
  have below : ∀ e : Element, ThroughoutAll (Html.Node.Placed given) e.children →
      Yields P (walk.children e) :=
    fun e inside => Yields.all fun n member => each n (throughoutAll_iff.mp inside n member) _
  have children : Yields P (walk.children e) := below e holds.2
  have marked : ∀ shape : Shape, shape.isPhrasing →
      Yields P (Output.nodes <$> Handler.marked shape walk e parent) := by
    intro shape isPhrasing
    rw [Handler.nodes_marked]
    exact children.single_after fun _ _ _ => invariant.phrasing isPhrasing placed
  cases registered with
  | ignore => exact Yields.none
  | passThrough => exact children
  | flow => exact children.after fun _ _ _ => invariant.toFlowInvariant.wrap
  | link =>
      rw [Handler.nodes_link]
      exact children.single_after fun _ _ _ => invariant.phrasing rfl placed
  | media =>
      rw [Handler.nodes_media]
      apply children.after
      intro s t ns holds
      split
      · exact holds
      · exact List.forall_mem_singleton.mpr
          (invariant.phrasing rfl placed (invariant.shownMedia s placed holds))
  | emphasis => exact marked .emphasis rfl
  | strong => exact marked .strong rfl
  | delete => exact marked .delete rfl
  | base => exact Yields.none.modify _ fun s => s.inTable_freezeBase _
  | blockquote =>
      rw [Handler.nodes_blockquote]
      exact children.single_after fun _ _ _ => invariant.blocks rfl placed
  | lineBreak => exact leaf .lineBreak
  | wordBreak => exact leaf _
  | inlineCode => exact leaf _
  | listItem =>
      rw [Handler.nodes_listItem]
      have content := below { e with children := (Handler.taskOf e).2 }
        (Handler.throughout_taskOf (fun _ here => here) holds.2)
      exact content.single_after fun _ _ _ => invariant.blocks rfl placed
  | list =>
      rw [Handler.nodes_list]
      exact children.single_after fun _ _ _ holds =>
        invariant.list _ _ _ placed Markdown.kind_of_mem_coerce (invariant.items holds)
  | definitionList =>
      rw [Handler.nodes_definitionList]
      have groups := invariant.groupItems (e := e) fun g found n member =>
        each n (Handler.throughout_groups holds.2 found n member) (some e)
      apply groups.after
      intro s t items holds
      split
      · simp
      · exact List.forall_mem_singleton.mpr (invariant.list false 0 _ placed
          (fun n member => (holds n member).2) (fun n member => (holds n member).1))
  | heading =>
      rw [Handler.nodes_heading]
      exact children.single_after fun _ _ _ => invariant.heading e.tag placed
  | thematicBreak => exact leaf .thematicBreak
  | iframe =>
      rw [Handler.nodes_iframe]
      apply Yields.reads
      intro s t
      split
      · exact List.forall_mem_singleton.mpr (invariant.phrasing rfl placed
          (List.forall_mem_singleton.mpr (invariant.leaf t _ unplaced)))
      · simp
  | image =>
      rw [Handler.nodes_image]
      exact Yields.reads fun s t => List.forall_mem_singleton.mpr (invariant.leaf t _ placed)
  | input =>
      rw [Handler.nodes_input]
      exact Yields.reads fun s t => invariant.inputOutput s placed
  | select =>
      rw [Handler.nodes_select]
      split
      · exact Yields.none
      · exact leaf _
  | textarea => exact leaf _
  | code => exact leaf _
  | paragraph =>
      rw [Handler.nodes_paragraph]
      apply children.after
      intro s t ns holds
      split
      · simp
      next filled =>
        exact List.forall_mem_singleton.mpr
          (invariant.paragraph (by simpa using filled) placed holds)
  | quote =>
      rw [Handler.nodes_quote]
      have content : Yields P (Conversion.nestedQuote (walk.children e)) :=
        fun s => children { s with quoteDepth := s.quoteDepth + 1 }
      exact content.after fun s t ns => invariant.quoteWith _
  | table =>
      intro s
      rw [Handler.run_table]
      by_cases inside : s.inTable
      · rw [if_pos inside, inside]
        exact ⟨rfl, List.forall_mem_singleton.mpr (invariant.leaf true _ placed)⟩
      · have content := children { s with inTable := true, spanFrames := [] :: s.spanFrames }
        rw [if_neg inside]
        refine ⟨rfl, List.forall_mem_singleton.mpr ?_⟩
        rw [eq_false_of_ne_true inside]
        exact invariant.builtTable e _ placed content.2
  | tableRow =>
      rw [Handler.nodes_tableRow]
      apply Yields.modify _ _ State.inTable_startSpanRow
      exact children.single_after fun _ _ _ holds =>
        invariant.row placed Markdown.kind_of_mem_coerce (invariant.cells holds)
  | tableCell =>
      rw [Handler.nodes_tableCell]
      apply Yields.modify _ _ fun s => s.inTable_recordSpan _
      exact children.single_after fun _ _ _ => invariant.cell placed

theorem stepRules (invariant : ConversionInvariant given P) {walk : Walk}
    (each : ∀ n : Html.Node, n.Throughout (Html.Node.Placed given) →
      ∀ parent, Yields P (walk.nodes n parent)) :
    Handlers.StepRules walk fun n act => n.Throughout (Html.Node.Placed given) → Yields P act where
  ignored _ _ _ := Yields.none
  handled e parent _ _ registered holds := invariant.registered each registered holds parent
  unhandled e _ _ holds :=
    Yields.all fun n member => each n (throughoutAll_iff.mp holds.2 n member) (some e)
  root children position parent holds := by
    have below : Yields P (walk.all none children) :=
      Yields.all fun n member => each n (throughoutAll_iff.mp holds.2 n member) none
    rw [Handler.nodes_root]
    apply below.single_after
    intro s t ns inside
    split
    · exact invariant.blocks rfl holds.1 inside
    next inline =>
      refine invariant.inlineRoot ?_ holds.1 inside
      simp_all
  text value position placed := Yields.single fun t => invariant.leaf t _ placed
  comment value position placed := Yields.single fun t => invariant.leaf t _ placed
  doctype _ _ := Yields.none

theorem yields_convert (invariant : ConversionInvariant given P) {n : Html.Node}
    (holds : n.Throughout (Html.Node.Placed given)) (parent : Option Element) :
    Yields P (Walk.nodes Handlers.standard.convert n parent) :=
  @Handlers.convert_induction (fun n act => n.Throughout (Html.Node.Placed given) → Yields P act)
    (fun _ => ⟨pure [], fun _ => Yields.none⟩)
    (fun _ each => invariant.stepRules fun n holds parent => each n parent holds) n parent holds

section Anywhere

theorem anywhere (n : Html.Node) : n.Throughout (Html.Node.Placed fun _ => True) :=
  Html.Node.Throughout.of_forall (fun _ _ _ => trivial) n

variable (invariant : ConversionInvariant (fun _ => True) P)
include invariant

/-- Where positions do not matter, there is nothing to ask of the source. -/
theorem stepRules_anywhere {walk : Walk} (each : ∀ n parent, Yields P (walk.nodes n parent)) :
    Handlers.StepRules walk fun _ act => Yields P act :=
  (invariant.stepRules fun n _ => each n).mono fun n _ yields => yields (anywhere n)

theorem yields_anywhere (n : Html.Node) (parent : Option Element) :
    Yields P (Walk.nodes Handlers.standard.convert n parent) :=
  invariant.yields_convert (anywhere n) parent

end Anywhere

end ConversionInvariant

end HtmlToMarkdown
