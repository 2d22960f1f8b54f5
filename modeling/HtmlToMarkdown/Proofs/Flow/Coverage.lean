import HtmlToMarkdown.Proofs.Flow.Invariant
import HtmlToMarkdown.Proofs.Flow.Subtree
import Mathlib.Data.List.Basic

namespace HtmlToMarkdown.Markdown

def Shape.childKind : Shape → Option Kind
  | list _ _ _ => some .listItem
  | table _ => some .tableRow
  | tableRow => some .tableCell
  | _ => none

namespace Shape

variable {shape : Shape}

theorem childKind_of_not_isGrid (grid : ¬ shape.isGrid) : shape.childKind = none := by
  cases shape with
  | list | table | tableRow => exact absurd rfl grid
  | _ => rfl

theorem childKind_of_isContainer (container : shape.isContainer) : shape.childKind = none :=
  childKind_of_not_isGrid (not_isGrid_of_isContainer container)

theorem childKind_of_isSplittable (splittable : shape.isSplittable) : shape.childKind = none := by
  cases shape with
  | delete | link => rfl
  | _ => cases splittable

theorem exists_childKind (grid : shape.isGrid) : ∃ kind, shape.childKind = some kind := by
  cases shape with
  | list | table | tableRow => exact ⟨_, rfl⟩
  | _ => cases grid

theorem childKind_cases {kind : Kind} (asked : kind ∈ shape.childKind) :
    kind = .listItem ∨ kind = .tableRow ∨ kind = .tableCell := by
  cases shape with
  | list => exact .inl (Option.some.inj asked).symm
  | table => exact .inr (.inl (Option.some.inj asked).symm)
  | tableRow => exact .inr (.inr (Option.some.inj asked).symm)
  | _ => cases asked

end Shape

/-- A node without the name of an element, whose children are of the kind that it asks for. -/
def Node.Regular : Node → Prop
  | .parent shape origin children =>
    origin.data.bind (·.elementName) = none ∧
      ∀ c ∈ children, ∀ kind ∈ shape.childKind, c.kind = kind
  | .leaf _ origin => origin.data.bind (·.elementName) = none

/-- A link or deletion without its children. -/
abbrev Cover := Shape × Origin

/-- A leaf with the links and deletions around it, from the outside to the inside. -/
structure Sighting where
  content : Leaf
  origin : Origin
  covers : List Cover
  deriving DecidableEq, Repr

def Shape.coverOf (shape : Shape) (origin : Origin) : List Cover :=
  if shape.isSplittable then [(shape, origin)] else []

mutual

/-- The leaves of a node in the order of the document; `around` are the covers of the node. -/
def Node.sightings (around : List Cover) : Node → List Sighting
  | .parent shape origin children => sightingsAll (around ++ shape.coverOf origin) children
  | .leaf content origin => [⟨content, origin, around⟩]

def sightingsAll (around : List Cover) : List Node → List Sighting
  | [] => []
  | n :: ns => n.sightings around ++ sightingsAll around ns

end

namespace Sighting

/-- Neither a break nor white space. -/
def isLiteral (s : Sighting) : Bool :=
  let n := Node.leaf s.content s.origin
  !n.isBreak && !n.isWhitespaceText

def leaf (s : Sighting) : Leaf × Origin := (s.content, s.origin)

/-- What is kept of a sighting: the leaf, and for phrasing content what is around it. -/
def trace (s : Sighting) : Leaf × Origin × Option (List Cover) :=
  (s.content, s.origin, if s.content.isPhrasing then some s.covers else none)

end Sighting

def literals (nodes : List Node) : List Sighting :=
  (sightingsAll [] nodes).filter Sighting.isLiteral

def traces (around : List Cover) (nodes : List Node) : List (Leaf × Origin × Option (List Cover)) :=
  ((sightingsAll around nodes).filter Sighting.isLiteral).map Sighting.trace

section Traces

variable (around : List Cover)

theorem traces_cons (n : Node) (ns : List Node) :
    traces around (n :: ns) = traces around [n] ++ traces around ns := by
  simp [traces, sightingsAll]

@[simp] theorem traces_append (ms ns : List Node) :
    traces around (ms ++ ns) = traces around ms ++ traces around ns := by
  induction ms with
  | nil => rfl
  | cons m ms ih =>
      rw [List.cons_append, traces_cons, ih, traces_cons around m ms, List.append_assoc]

theorem traces_flatMap {α : Type} (f : α → List Node) (as : List α) :
    traces around (as.flatMap f) = as.flatMap fun a => traces around (f a) := by
  induction as with
  | nil => rfl
  | cons a as ih => rw [List.flatMap_cons, traces_append, ih, List.flatMap_cons]

theorem traces_map {α : Type} (f : α → Node) (as : List α) :
    traces around (as.map f) = as.flatMap fun a => traces around [f a] := by
  rw [List.map_eq_flatMap, traces_flatMap]

theorem traces_parent (shape : Shape) (origin : Origin) (children : List Node) :
    traces around [.parent shape origin children] =
      traces (around ++ shape.coverOf origin) children := by
  simp [traces, sightingsAll, Node.sightings]

theorem traces_plain {shape : Shape} (plain : ¬ shape.isSplittable) (origin : Origin)
    (children : List Node) :
    traces around [.parent shape origin children] = traces around children := by
  rw [traces_parent, Shape.coverOf, if_neg plain, List.append_nil]

theorem traces_cover {shape : Shape} (splittable : shape.isSplittable) (origin : Origin)
    (children : List Node) :
    traces around [.parent shape origin children] =
      traces (around ++ [(shape, origin)]) children := by
  rw [traces_parent, Shape.coverOf, if_pos splittable]

theorem traces_eq_nil {ns : List Node} (empty : ∀ n ∈ ns, traces around [n] = []) :
    traces around ns = [] := by
  induction ns with
  | nil => rfl
  | cons n ns ih =>
      rw [traces_cons, empty n List.mem_cons_self, List.nil_append]
      exact ih fun m member => empty m (List.mem_cons_of_mem _ member)

theorem traces_blank {n : Node} (blank : n.isWhitespaceText ∨ n.isBreak) :
    traces around [n] = [] := by
  cases n with
  | parent shape origin children => rcases blank with blank | blank <;> cases blank
  | leaf content origin =>
      have hidden : Sighting.isLiteral ⟨content, origin, around⟩ = false := by
        rcases blank with white | isBreak
        · simp [Sighting.isLiteral, white]
        · simp [Sighting.isLiteral, isBreak]
      simp [traces, sightingsAll, Node.sightings, hidden]

theorem traces_block_leaf {content : Leaf} (block : ¬ content.isPhrasing) (origin : Origin)
    (other : List Cover) :
    traces around [.leaf content origin] = traces other [.leaf content origin] := by
  have same : Sighting.isLiteral ⟨content, origin, around⟩ =
      Sighting.isLiteral ⟨content, origin, other⟩ := rfl
  simp only [traces, sightingsAll, Node.sightings, List.append_nil, List.filter_cons, same,
    List.filter_nil]
  split <;> simp [Sighting.trace, block]

theorem traces_dropSurroundingBreaks (ns : List Node) :
    traces around (dropSurroundingBreaks ns) = traces around ns := by
  obtain ⟨front, back, breaks, same⟩ := exists_of_dropSurroundingBreaks ns
  have ends : ∀ n ∈ front ++ back, traces around [n] = [] :=
    fun n member => traces_blank around (.inr (breaks n member))
  have noFront := traces_eq_nil around fun n member => ends n (List.mem_append_left _ member)
  have noBack := traces_eq_nil around fun n member => ends n (List.mem_append_right _ member)
  calc traces around (dropSurroundingBreaks ns)
    _ = traces around front ++ traces around (dropSurroundingBreaks ns) ++ traces around back := by
      rw [noFront, noBack, List.nil_append, List.append_nil]
    _ = traces around (front ++ dropSurroundingBreaks ns ++ back) := by
      rw [traces_append, traces_append]
    _ = traces around ns := by rw [← same]

theorem traces_toFlow (p : Piece) : traces around p.toFlow = traces around p.nodes := by
  cases p with
  | block node => rfl
  | run nodes =>
      rw [Piece.toFlow]
      split
      next white =>
        have all := List.all_eq_true.mp white
        exact (traces_eq_nil around fun n member => traces_blank around (.inl (all n member))).symm
      next =>
        have plain : ¬ Shape.paragraph.isSplittable := by decide
        calc
          _ = traces around (dropSurroundingBreaks nodes) := traces_plain around plain {} _
          _ = traces around nodes := traces_dropSurroundingBreaks around nodes

end Traces

theorem throughout_regular {shape : Shape} {origin : Origin} {children : List Node}
    (unnamed : origin.data.bind (·.elementName) = none) (free : shape.childKind = none)
    (inside : ∀ c ∈ children, c.Throughout Node.Regular) :
    (Node.parent shape origin children).Throughout Node.Regular := by
  rw [Node.throughout_parent]
  constructor
  · constructor
    · exact unnamed
    · intro c member kind asked
      rw [free] at asked
      cases asked
  · exact inside

theorem regular_flowInvariant :
    FlowInvariant fun (_ : Unit) (n : Node) => n.Throughout Node.Regular where
  below holds := (Node.throughout_parent.mp holds).2
  copy splittable holds inside :=
    throughout_regular (Node.throughout_parent.mp holds).1.1
      (Shape.childKind_of_isSplittable splittable) inside
  refill container holds _ inside :=
    throughout_regular (Node.throughout_parent.mp holds).1.1
      (Shape.childKind_of_isContainer container) inside
  grid isGrid holds inside := by
    obtain ⟨⟨unnamed, kinds⟩, all⟩ := Node.throughout_parent.mp holds
    refine Node.throughout_parent.mpr ⟨⟨unnamed, ?_⟩, ?_⟩
    · intro c member kind asked
      obtain ⟨d, inside, rfl⟩ := List.mem_map.mp member
      rw [kind_nest]
      exact kinds d inside kind asked
    · intro c member
      obtain ⟨d, here, rfl⟩ := List.mem_map.mp member
      exact inside () d here (all d here)
  single notGrid notContainer holds inside :=
    throughout_regular (Node.throughout_parent.mp holds).1.1
      (Shape.childKind_of_not_isGrid notGrid) (List.forall_mem_singleton.mpr inside)
  run _ _ inside :=
    throughout_regular rfl rfl fun d member => inside d (mem_of_mem_dropSurroundingBreaks member)

theorem Node.Regular.isPhrasing_parent {kind : Shape} {place : Origin} {children : List Node}
    (regular : (Node.parent kind place children).Regular) :
    (Node.parent kind place children).isPhrasing = kind.isPhrasing := by
  simp [isPhrasing, data, origin, regular.1]

theorem Node.Regular.isPhrasing_leaf {content : Leaf} {place : Origin}
    (regular : (Node.leaf content place).Regular) :
    (Node.leaf content place).isPhrasing = content.isPhrasing := by
  have unnamed : place.data.bind (·.elementName) = none := regular
  simp [isPhrasing, data, origin, unnamed]

theorem Node.Regular.not_isSplittable {kind : Shape} {place : Origin} {children : List Node}
    (regular : (Node.parent kind place children).Regular)
    (block : ¬ (Node.parent kind place children).isPhrasing) : ¬ kind.isSplittable := by
  rw [regular.isPhrasing_parent] at block
  cases kind <;> simp_all [Shape.isSplittable, Shape.isPhrasing]

theorem Node.Regular.not_isPhrasing_of_kind {c : Node} (regular : c.Regular) {shape : Shape}
    (asked : c.kind ∈ shape.childKind) : ¬ c.isPhrasing := by
  have kinds := Shape.childKind_cases asked
  cases c with
  | leaf content place => cases content <;> simp [Leaf.kind] at kinds
  | parent kind place children =>
      rw [regular.isPhrasing_parent]
      cases kind with
      | emphasis | strong | delete | link => simp [Shape.kind] at kinds
      | _ => exact Bool.false_ne_true

theorem traces_rules :
    FlowRules
      (fun ns => (∀ n ∈ ns, n.Throughout Node.Regular) →
        ∀ around, traces around (flatten ns) = traces around ns)
      (fun n => n.Throughout Node.Regular → ∀ around, traces around (split n) = traces around [n])
      (fun shape origin b => origin.data.bind (·.elementName) = none →
        b.Throughout Node.Regular → ¬ b.isPhrasing → ∀ around,
          traces around [nest shape origin b] = traces (around ++ [(shape, origin)]) [b])
      (fun ns => (∀ n ∈ ns, n.Throughout Node.Regular) →
        ∀ around, traces around (wrap ns) = traces around ns) where
  flattened nodes parts := by
    intro regular around
    induction nodes with
    | nil => rw [flatten, List.flatMap_nil]
    | cons n ns ih =>
        have rest := ih (fun m member => parts m (List.mem_cons_of_mem _ member))
          fun m member => regular m (List.mem_cons_of_mem _ member)
        have here := parts n List.mem_cons_self (regular n List.mem_cons_self) around
        rw [flatten] at rest ⊢
        rw [List.flatMap_cons, traces_append, rest, here, ← traces_cons]
  whole n _ same := by
    intro _ around
    rw [same]
  divided shape origin children splittable inside blocks same := by
    intro regular around
    obtain ⟨here, below⟩ := Node.throughout_parent.mp regular
    have flat := regular_flowInvariant.flatten (i := ()) below
    have piece : ∀ p ∈ pieces (flatten children),
        traces around [p.around shape origin] =
          traces (around ++ [(shape, origin)]) p.nodes := by
      intro p found
      have sorted := sorted_pieces _ p found
      cases p with
      | run nodes => exact traces_cover around splittable origin nodes
      | block b =>
          have inFlat : b ∈ flatten children :=
            mem_of_mem_pieces found (List.mem_singleton_self b)
          exact blocks b inFlat sorted here.1 (flat b inFlat) sorted around
    calc traces around (split (.parent shape origin children))
      _ = (pieces (flatten children)).flatMap fun p => traces around [p.around shape origin] := by
        rw [same, traces_map]
      _ = (pieces (flatten children)).flatMap fun p =>
          traces (around ++ [(shape, origin)]) p.nodes := List.flatMap_congr piece
      _ = traces (around ++ [(shape, origin)]) (flatten children) := by
        rw [← traces_flatMap, nodes_pieces]
      _ = traces (around ++ [(shape, origin)]) children := inside below _
      _ = traces around [.parent shape origin children] :=
        (traces_cover around splittable origin children).symm
  leaf shape origin _ content place := by
    intro _ regular block around
    rw [(Node.throughout_leaf.mp regular).isPhrasing_leaf] at block
    rw [nest_leaf]
    exact traces_block_leaf around block place _
  empty shape origin _ kind place := by
    intro _ _ _ around
    rw [nest_empty, traces_parent, traces_parent]
    rfl
  grid shape origin _ kind place children isGrid below := by
    intro unnamed regular block around
    obtain ⟨here, all⟩ := Node.throughout_parent.mp regular
    obtain ⟨asked, kindOf⟩ := Shape.exists_childKind isGrid
    have plain := here.not_isSplittable block
    rw [nest_grid shape origin isGrid, traces_plain around plain, traces_plain _ plain, traces_map]
    calc (children.flatMap fun c => traces around [nest shape origin c])
      _ = children.flatMap fun c => traces (around ++ [(shape, origin)]) [c] := by
        apply List.flatMap_congr
        intro c member
        have kind := here.2 c member asked kindOf
        have blockBelow := (all c member).self.not_isPhrasing_of_kind (kind ▸ kindOf)
        exact below c member unnamed (all c member) blockBelow around
      _ = traces (around ++ [(shape, origin)]) children := by
        rw [← traces_flatMap, List.flatMap_singleton']
  container shape origin splittable kind place children filled isContainer inside := by
    intro unnamed regular block around
    obtain ⟨here, all⟩ := Node.throughout_parent.mp regular
    have plain := here.not_isSplittable block
    have link : (Node.parent shape origin children).Throughout Node.Regular :=
      throughout_regular unnamed (Shape.childKind_of_isSplittable splittable) all
    -- The block moves out of the link and the copy into the block, so the path stays the same.
    rw [nest_container shape origin isContainer place filled, traces_plain around plain,
      inside (by simpa using link), traces_cover around splittable, traces_plain _ plain]
  other shape origin splittable kind place children filled notGrid notContainer := by
    intro _ regular block around
    have plain := (Node.throughout_parent.mp regular).1.not_isSplittable block
    rw [nest_other shape origin notGrid notContainer place filled, traces_plain around plain,
      traces_cover around splittable, traces_plain _ plain]
  wrapped nodes inside := by
    intro regular around
    rw [wrap, traces_flatMap]
    calc ((pieces (flatten nodes)).flatMap fun p => traces around p.toFlow)
      _ = (pieces (flatten nodes)).flatMap fun p => traces around p.nodes :=
        List.flatMap_congr fun p _ => traces_toFlow around p
      _ = traces around (flatten nodes) := by rw [← traces_flatMap, nodes_pieces]
      _ = traces around nodes := inside regular around

theorem traces_wrap {nodes : List Node} (regular : ∀ n ∈ nodes, n.Throughout Node.Regular)
    (around : List Cover) : traces around (wrap nodes) = traces around nodes :=
  traces_rules.flow_all nodes regular around

def Sighting.ofTrace? : Leaf × Origin × Option (List Cover) → Option Sighting
  | (content, origin, covers) => covers.map (⟨content, origin, ·⟩)

theorem Sighting.ofTrace?_trace (s : Sighting) :
    ofTrace? s.trace = if s.content.isPhrasing then some s else none := by
  rw [ofTrace?, trace]
  split <;> rfl

theorem filterMap_ofTrace? (sightings : List Sighting) :
    (sightings.map Sighting.trace).filterMap Sighting.ofTrace? =
      sightings.filter (·.content.isPhrasing) := by
  rw [List.filterMap_map, ← List.filterMap_eq_filter]
  apply List.filterMap_congr
  intro s _
  rw [Function.comp_apply, Sighting.ofTrace?_trace, Option.guard]

/-- Wrapping keeps the literals in their order, and around each that is phrasing content the same
links and deletions. -/
theorem literals_wrap (nodes : List Node) (regular : ∀ n ∈ nodes, n.Throughout Node.Regular) :
    (literals (wrap nodes)).map Sighting.leaf = (literals nodes).map Sighting.leaf ∧
      (literals (wrap nodes)).filter (·.content.isPhrasing) =
        (literals nodes).filter (·.content.isPhrasing) := by
  have same : (literals (wrap nodes)).map Sighting.trace = (literals nodes).map Sighting.trace :=
    traces_wrap regular []
  have leaves : ∀ sightings : List Sighting, sightings.map Sighting.leaf =
      (sightings.map Sighting.trace).map fun t => (t.1, t.2.1) := by
    intro sightings
    rw [List.map_map]
    rfl
  constructor
  · rw [leaves, leaves, same]
  · rw [← filterMap_ofTrace?, ← filterMap_ofTrace?, same]

def straddling : Node :=
  .plain (.link "u" none) [
    .text "a",
    .plain .delete [
      .plain .blockquote [.paragraph [.text "b"]],
      .plain (.list false none false) [.plain (.listItem false none) [.text "c", .text " "]]],
    .leaf (.code none none "d") {}]

theorem literals_wrap_straddling :
    (∀ n ∈ [straddling], n.Throughout Node.Regular) ∧
      (literals (wrap [straddling])).map Sighting.leaf =
        (literals [straddling]).map Sighting.leaf ∧
      (literals (wrap [straddling])).filter (·.content.isPhrasing) =
        (literals [straddling]).filter (·.content.isPhrasing) := by
  have leaf : ∀ content, (Node.leaf content {}).Throughout Node.Regular := fun content =>
    Node.throughout_leaf.mpr rfl
  have quotation : (Node.plain .blockquote [.paragraph [.text "b"]]).Throughout Node.Regular := by
    refine throughout_regular rfl rfl (List.forall_mem_singleton.mpr ?_)
    exact throughout_regular rfl rfl (List.forall_mem_singleton.mpr (leaf _))
  have list : (Node.plain (.list false none false)
      [.plain (.listItem false none) [.text "c", .text " "]]).Throughout Node.Regular := by
    refine Node.throughout_parent.mpr ⟨⟨rfl, ?_⟩, List.forall_mem_singleton.mpr ?_⟩
    · exact List.forall_mem_singleton.mpr fun kind asked => Option.some.inj asked
    · exact throughout_regular rfl rfl (by simp [Node.text, leaf])
  have deletion : (Node.plain .delete [
      .plain .blockquote [.paragraph [.text "b"]],
      .plain (.list false none false) [.plain (.listItem false none) [.text "c", .text " "]]]
        ).Throughout Node.Regular :=
    throughout_regular rfl rfl (by simp [quotation, list])
  have regular : ∀ n ∈ [straddling], n.Throughout Node.Regular := by
    refine List.forall_mem_singleton.mpr (throughout_regular rfl rfl ?_)
    simp only [List.forall_mem_cons]
    exact ⟨leaf _, deletion, leaf _, by simp⟩
  exact ⟨regular, literals_wrap [straddling] regular⟩

end HtmlToMarkdown.Markdown
