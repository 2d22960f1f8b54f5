import HtmlToMarkdown.Proofs.Lines.Source

namespace HtmlToMarkdown

open Markdown (Node Origin Piece Shape dropSurroundingBreaks flatten nest pieces split wrap)

def Markdown.Shape.isRuled : Shape → Bool
  | paragraph => true
  | heading _ => true
  | listItem _ _ => true
  | _ => false

def Markdown.Node.Keeps (ok : Shape → List Node → Prop) : Node → Prop
  | .parent shape _ children => ok shape children
  | .leaf _ _ => True

def Rule.MayStray (r : Rule) (n : Node) : Prop := r.strays ∨ ¬ n.isPhrasing

/-- What it takes for content to be as asked for wherever sketches meet a rule. -/
structure Rule.Governs (r : Rule) (ok : Shape → List Node → Prop) : Prop where
  free {shape : Shape} (unruled : ¬ shape.isRuled) (ns : List Node) : ok shape ns
  item {spread : Bool} {checked : Option Bool} {ns : List Node} :
    ok (.listItem spread checked) ns ↔ ∀ n ∈ ns, r.MayStray n
  cover {shape kind : Shape} {origin : Origin} {children : List Node}
    (splittable : kind.isSplittable) (notItem : shape.kind ≠ .listItem) :
    ok shape [.parent kind origin children]
  line {ns : List Node} (meets : r.line (ns.map Node.stroke))
    (filled : dropSurroundingBreaks ns ≠ []) : ok .paragraph (dropSurroundingBreaks ns)
  heading {ns : List Node} {depth : UInt8} (meets : r.heading (ns.map Node.stroke)) :
    ok (.heading depth) (dropSurroundingBreaks ns)
  run {ns nodes : List Node} (regular : ∀ n ∈ ns, n.Regular)
    (meets : r.flow (ns.map Node.stroke)) (found : .run nodes ∈ pieces ns)
    (visible : ¬ nodes.all Node.isWhitespaceText) : ok .paragraph (dropSurroundingBreaks nodes)
  refinedLine {ms ks : List Stroke} (refines : Refines ms ks) (meets : r.line ms) : r.line ks
  refinedHeading {ms ks : List Stroke} (refines : Refines ms ks) (meets : r.heading ms) :
    r.heading ks
  refinedFlow {ms ks : List Stroke} (refines : Refines ms ks) (meets : r.flow ms) : r.flow ks
  nested : r.flow [.other]

namespace Rule.Governs

variable {r : Rule} {ok : Shape → List Node → Prop} (governs : r.Governs ok) {shape : Shape}
  {origin : Origin} {ns : List Node}

include governs

theorem parent (unruled : ¬ shape.isRuled) (inside : ∀ n ∈ ns, n.Throughout (Node.Keeps ok)) :
    (Node.parent shape origin ns).Throughout (Node.Keeps ok) :=
  Node.throughout_parent.mpr ⟨governs.free unruled ns, inside⟩

theorem container (isContainer : shape.isContainer) (blocks : ∀ n ∈ ns, ¬ n.isPhrasing)
    (inside : ∀ n ∈ ns, n.Throughout (Node.Keeps ok)) :
    (Node.parent shape origin ns).Throughout (Node.Keeps ok) := by
  refine Node.throughout_parent.mpr ⟨?_, inside⟩
  cases shape with
  | listItem => exact governs.item.mpr fun n member => .inr (blocks n member)
  | root | blockquote =>
      refine governs.free ?_ ns
      exact Bool.false_ne_true
  | _ => cases isContainer

theorem splittable (splittable : shape.isSplittable)
    (inside : ∀ n ∈ ns, n.Throughout (Node.Keeps ok)) :
    (Node.parent shape origin ns).Throughout (Node.Keeps ok) := by
  refine governs.parent ?_ inside
  cases shape with
  | link | delete => exact Bool.false_ne_true
  | _ => cases splittable

theorem flowRules :
    Markdown.FlowRules
      (fun ns => (∀ n ∈ ns, n.Throughout Node.Regular) →
        (∀ n ∈ ns, n.Throughout (Node.Keeps ok)) → ∀ m ∈ flatten ns, m.Throughout (Node.Keeps ok))
      (fun n => n.Throughout Node.Regular → n.Throughout (Node.Keeps ok) →
        ∀ m ∈ split n, m.Throughout (Node.Keeps ok))
      (fun shape origin b => origin.data.bind (·.elementName) = none →
        b.Throughout Node.Regular → b.Throughout (Node.Keeps ok) →
          (nest shape origin b).Throughout (Node.Keeps ok))
      (fun ns => (∀ n ∈ ns, n.Throughout Node.Regular) →
        (∀ n ∈ ns, n.Throughout (Node.Keeps ok)) → r.flow ((flatten ns).map Node.stroke) →
          ∀ m ∈ wrap ns, m.Throughout (Node.Keeps ok)) where
  flattened nodes parts := by
    intro regular keeps m member
    rw [flatten] at member
    obtain ⟨n, inside, here⟩ := List.mem_flatMap.mp member
    exact parts n inside (regular n inside) (keeps n inside) m here
  whole n _ same := by
    intro _ keeps m member
    rw [same] at member
    exact List.mem_singleton.mp member ▸ keeps
  divided shape origin children splittable inside blocks same := by
    intro regular keeps m member
    obtain ⟨here, below⟩ := Node.throughout_parent.mp regular
    have kept := inside below (Node.throughout_parent.mp keeps).2
    have flat := Markdown.regular_flowInvariant.flatten (i := ()) below
    rw [same] at member
    obtain ⟨p, found, rfl⟩ := List.mem_map.mp member
    cases p with
    | run nodes =>
        exact governs.splittable splittable fun n inRun =>
          kept n (Markdown.mem_of_mem_pieces found inRun)
    | block b =>
        have inFlat : b ∈ flatten children :=
          Markdown.mem_of_mem_pieces found (List.mem_singleton_self b)
        exact blocks b inFlat (Markdown.sorted_pieces _ _ found) here.1 (flat b inFlat)
          (kept b inFlat)
  leaf shape origin _ content place := by
    intro _ _ keeps
    rw [Markdown.nest_leaf]
    exact keeps
  empty shape origin _ kind place := by
    intro _ _ keeps
    rw [Markdown.nest_empty]
    exact keeps
  grid shape origin _ kind place children isGrid below := by
    intro unnamed regular keeps
    rw [Markdown.nest_grid shape origin isGrid]
    refine governs.parent ?_ (List.forall_mem_map.mpr fun c member => ?_)
    · cases kind with
      | list | table | tableRow => exact Bool.false_ne_true
      | _ => cases isGrid
    · exact below c member unnamed ((Node.throughout_parent.mp regular).2 c member)
        ((Node.throughout_parent.mp keeps).2 c member)
  container shape origin splittable kind place children filled isContainer inside := by
    intro unnamed regular keeps
    have link : (Node.parent shape origin children).Throughout Node.Regular :=
      Markdown.throughout_regular unnamed (Shape.childKind_of_isSplittable splittable)
        (Node.throughout_parent.mp regular).2
    have content : (Node.parent shape origin children).Throughout (Node.Keeps ok) :=
      governs.splittable splittable (Node.throughout_parent.mp keeps).2
    -- The content of the block is wrapped again, now in the link, of which nothing is known.
    have sketch : Depicts [.other] [.parent shape origin children] :=
      .one ⟨Bool.false_ne_true, Bool.false_ne_true⟩
    have flow := governs.refinedFlow
      (sketch.refines_flatten (List.forall_mem_singleton.mpr link)) governs.nested
    rw [Markdown.nest_container shape origin isContainer place filled]
    exact governs.container isContainer (fun _ => Markdown.not_isPhrasing_of_mem_wrap)
      (inside (List.forall_mem_singleton.mpr link) (List.forall_mem_singleton.mpr content) flow)
  other shape origin splittable kind place children filled notGrid notContainer := by
    intro _ _ keeps
    rw [Markdown.nest_other shape origin notGrid notContainer place filled]
    refine Node.throughout_parent.mpr ⟨governs.cover splittable ?_, ?_⟩
    · intro item
      cases kind <;> first | exact notContainer rfl | cases item
    · exact List.forall_mem_singleton.mpr
        (governs.splittable splittable (Node.throughout_parent.mp keeps).2)
  wrapped nodes inside := by
    intro regular keeps meets m member
    have flat := inside regular keeps
    rcases Markdown.mem_wrap member with ⟨here, -⟩ | ⟨run, found, visible, rfl⟩
    · exact flat m here
    · have flatRegular := Markdown.regular_flowInvariant.flatten (i := ()) regular
      refine Node.throughout_parent.mpr ⟨governs.run (fun n member => (flatRegular n member).self)
        meets found visible, fun d inRun => ?_⟩
      have inside := Markdown.mem_of_mem_dropSurroundingBreaks inRun
      exact flat d (Markdown.mem_of_mem_pieces found inside)

theorem wrap {ms : List Stroke} (depicts : Depicts ms ns) (meets : r.flow ms)
    (regular : ∀ n ∈ ns, n.Throughout Node.Regular)
    (keeps : ∀ n ∈ ns, n.Throughout (Node.Keeps ok)) :
    ∀ m ∈ Markdown.wrap ns, m.Throughout (Node.Keeps ok) :=
  governs.flowRules.flow_all ns regular keeps
    (governs.refinedFlow (depicts.refines_flatten regular) meets)

section Coerced

open Handler (emptyItem groupItem plainList unwrapSingle)
open Markdown (coerce emptyCell emptyRow exists_item_of_kind forall_children_coerce
  kind_of_mem_coerce)

theorem mayStray_of_item {n : Node} (kind : n.kind = .listItem)
    (keeps : n.Throughout (Node.Keeps ok)) : ∀ c ∈ n.children, r.MayStray c := by
  obtain ⟨spread, checked, origin, children, rfl⟩ := exists_item_of_kind kind
  exact governs.item.mp keeps.self

theorem items (keeps : ∀ n ∈ ns, n.Throughout (Node.Keeps ok)) (stray : ∀ n ∈ ns, r.MayStray n) :
    ∀ i ∈ coerce emptyItem ns, i.kind = .listItem ∧ i.Throughout (Node.Keeps ok) := by
  have grown : ∀ (n : Node) (ds : List Node), n.kind = .listItem ∧ n.Throughout (Node.Keeps ok) →
      (∀ d ∈ ds, d.Throughout (Node.Keeps ok) ∧ r.MayStray d) →
      ∀ both : List Node, (∀ d ∈ both, d ∈ ds ∨ d ∈ n.children) →
        (n.withChildren both).kind = .listItem ∧
          (n.withChildren both).Throughout (Node.Keeps ok) := by
    rintro n ds ⟨kind, here⟩ strays both made
    have own := governs.mayStray_of_item kind here
    obtain ⟨spread, checked, origin, children, rfl⟩ := exists_item_of_kind kind
    have below := (Node.throughout_parent.mp here).2
    refine ⟨rfl, Node.throughout_parent.mpr ⟨governs.item.mpr fun d member => ?_, ?_⟩⟩
    · exact (made d member).elim (fun new => (strays d new).2) (own d)
    · exact fun d member => (made d member).elim (fun new => (strays d new).1) (below d)
  refine Markdown.forall_coerce (S := fun d => d.Throughout (Node.Keeps ok) ∧ r.MayStray d)
    ⟨rfl, ?_⟩ (fun n member kind => ⟨kind, keeps n member⟩)
    (fun n member _ => ⟨keeps n member, stray n member⟩)
    (fun n ds here strays => grown n ds here strays _ (by simp))
    (fun n ds here strays => grown n ds here strays _ (by simp [or_comm]))
  exact Node.throughout_parent.mpr ⟨governs.item.mpr (by simp), by simp⟩

theorem list {position : Option Position} (ordered : Bool) (start : Option UInt32) (spread : Bool)
    (items : ∀ i ∈ ns, i.kind = .listItem ∧ i.Throughout (Node.Keeps ok)) :
    (Node.parent (.list ordered start spread) { position } ns).Throughout (Node.Keeps ok) :=
  governs.parent Bool.false_ne_true fun i member => (items i member).2

theorem unwrapSingle (items : ∀ i ∈ ns, i.kind = .listItem ∧ i.Throughout (Node.Keeps ok)) :
    ∀ m ∈ unwrapSingle ns, m.Throughout (Node.Keeps ok) ∧ r.MayStray m := by
  match ns with
  | [] => exact nofun
  | [item] =>
      obtain ⟨kind, keeps⟩ := List.forall_mem_singleton.mp items
      intro m member
      refine ⟨?_, governs.mayStray_of_item kind keeps m member⟩
      obtain ⟨spread, checked, origin, children, rfl⟩ := exists_item_of_kind kind
      exact (Node.throughout_parent.mp keeps).2 m member
  | first :: second :: rest =>
      exact List.forall_mem_singleton.mpr
        ⟨governs.list false none _ items, .inr Bool.false_ne_true⟩

theorem groupItem (content : ∀ n ∈ ns, n.Throughout (Node.Keeps ok) ∧ r.MayStray n) :
    ∀ m ∈ groupItem ns, m.kind = .listItem ∧ m.Throughout (Node.Keeps ok) := by
  cases ns with
  | nil => exact nofun
  | cons n ns =>
      refine List.forall_mem_singleton.mpr ⟨rfl, Node.throughout_parent.mpr ⟨?_, ?_⟩⟩
      · exact governs.item.mpr fun d member => (content d member).2
      · exact fun d member => (content d member).1

theorem keeps_of_kind {n : Node} (kind : n.kind = .tableRow ∨ n.kind = .tableCell)
    (inside : ∀ c ∈ n.children, c.Throughout (Node.Keeps ok)) : n.Throughout (Node.Keeps ok) := by
  cases n with
  | leaf content origin => exact Node.throughout_leaf.mpr trivial
  | parent shape origin children =>
      refine governs.parent ?_ inside
      cases shape with
      | tableRow | tableCell => exact Bool.false_ne_true
      | _ => rcases kind with row | cell <;> contradiction

omit governs in
theorem keeps_of_mem_coerce {shape : Shape} (keeps : ∀ n ∈ ns, n.Throughout (Node.Keeps ok)) :
    ∀ r ∈ coerce (.plain shape []) ns, ∀ c ∈ r.children, c.Throughout (Node.Keeps ok) := by
  refine forall_children_coerce rfl (fun n member _ c inside => ?_) fun n member _ => keeps n member
  cases n with
  | parent own origin children => exact (Node.throughout_parent.mp (keeps _ member)).2 c inside
  | leaf content origin => cases inside

theorem cells (keeps : ∀ n ∈ ns, n.Throughout (Node.Keeps ok)) :
    ∀ c ∈ coerce emptyCell ns, c.Throughout (Node.Keeps ok) := fun c member =>
  governs.keeps_of_kind (.inr (kind_of_mem_coerce c member)) (keeps_of_mem_coerce keeps c member)

theorem builtTable (e : Html.Element) (spans : List (List Html.CellSpan))
    (keeps : ∀ n ∈ ns, n.Throughout (Node.Keeps ok)) :
    (Handler.builtTable e ns spans).Throughout (Node.Keeps ok) := by
  have given : ∀ row ∈ Markdown.givenRows (Handler.layout e).headless (coerce emptyRow ns),
      row.kind = .tableRow ∧ ∀ c ∈ row.children, c.Throughout (Node.Keeps ok) := by
    have coerced : ∀ row ∈ coerce emptyRow ns,
        row.kind = .tableRow ∧ ∀ c ∈ row.children, c.Throughout (Node.Keeps ok) :=
      fun row member => ⟨kind_of_mem_coerce row member, keeps_of_mem_coerce keeps row member⟩
    unfold Markdown.givenRows
    split
    · exact List.forall_mem_cons.mpr ⟨⟨rfl, nofun⟩, coerced⟩
    · exact coerced
  refine governs.parent Bool.false_ne_true fun row member => ?_
  rcases Markdown.exists_of_mem_rectangle _ (Handler.layout e).align _ spans member with
    ⟨before, found, nodes, rfl, -, made⟩
  rcases given before found with ⟨kind, content⟩
  refine governs.keeps_of_kind (.inl ((Markdown.kind_withChildren before nodes).trans kind)) ?_
  intro c inside
  rcases made c (Markdown.children_withChildren inside) with rfl | coerced
  · exact governs.keeps_of_kind (.inr rfl) nofun
  · exact governs.cells content c coerced

end Coerced

end Rule.Governs

end HtmlToMarkdown
