import HtmlToMarkdown.Markdown.Flow.Depth

/-!
Induction over the making of flow content. Flattening, splitting, nesting and wrapping call each
other on what the others return, so the order in which they end is found once, here. A property
is then shown for all four by one rule for each thing that they do.
-/

namespace HtmlToMarkdown.Markdown

def Piece.Sorted : Piece → Prop
  | run nodes => nodes ≠ [] ∧ ∀ n ∈ nodes, n.isPhrasing
  | block node => ¬ node.isPhrasing

theorem sorted_pieces (ns : List Node) : ∀ p ∈ pieces ns, p.Sorted := by
  fun_induction pieces ns with
  | case1 => simp
  | case2 n ns phrasing nodes ps same =>
      rename_i ih
      rw [same, List.forall_mem_cons] at ih
      rw [List.forall_mem_cons]
      constructor
      · exact ⟨List.cons_ne_nil _ _, List.forall_mem_cons.mpr ⟨phrasing, ih.1.2⟩⟩
      · exact ih.2
  | case3 n ns phrasing other =>
      rename_i ih
      rw [List.forall_mem_cons]
      constructor
      · exact ⟨List.cons_ne_nil _ _, List.forall_mem_singleton.mpr phrasing⟩
      · exact ih
  | case4 n ns block =>
      rename_i ih
      exact List.forall_mem_cons.mpr ⟨block, ih⟩

theorem Shape.not_isGrid_of_isContainer {shape : Shape} (container : shape.isContainer) :
    ¬ shape.isGrid := by
  cases shape with
  | list | table | tableRow => cases container
  | _ => exact Bool.false_ne_true

theorem Shape.isPhrasing_of_isSplittable {shape : Shape} (splittable : shape.isSplittable) :
    shape.isPhrasing := by
  cases shape <;> first | rfl | cases splittable

section Equations

variable (shape : Shape) (origin : Origin)

theorem nest_leaf (content : Leaf) (place : Origin) :
    nest shape origin (.leaf content place) = .leaf content place := by
  rw [nest]

theorem nest_empty (kind : Shape) (place : Origin) :
    nest shape origin (.parent kind place []) = .parent kind place [] := by
  rw [nest, if_pos List.isEmpty_nil]

theorem nest_grid {kind : Shape} (grid : kind.isGrid) (place : Origin) (children : List Node) :
    nest shape origin (.parent kind place children) =
      .parent kind place (children.map (nest shape origin)) := by
  cases children with
  | nil => exact nest_empty shape origin kind place
  | cons child children => rw [nest, if_neg (by simp), if_pos grid]

theorem nest_container {kind : Shape} (container : kind.isContainer) (place : Origin)
    {children : List Node} (filled : children ≠ []) :
    nest shape origin (.parent kind place children) =
      .parent kind place (wrap [.parent shape origin children]) := by
  rw [nest, if_neg (by simpa using filled), if_neg (Shape.not_isGrid_of_isContainer container),
    if_pos container]

theorem nest_other {kind : Shape} (grid : ¬ kind.isGrid) (container : ¬ kind.isContainer)
    (place : Origin) {children : List Node} (filled : children ≠ []) :
    nest shape origin (.parent kind place children) =
      .parent kind place [.parent shape origin children] := by
  rw [nest, if_neg (by simpa using filled), if_neg grid, if_neg container]

theorem exists_nest_parent (kind : Shape) (place : Origin) (children : List Node) :
    ∃ ds, nest shape origin (.parent kind place children) = .parent kind place ds := by
  rw [nest]
  split
  · exact ⟨_, rfl⟩
  · split
    · exact ⟨_, rfl⟩
    · split <;> exact ⟨_, rfl⟩

theorem kind_nest (b : Node) : (nest shape origin b).kind = b.kind := by
  cases b with
  | leaf content place => rw [nest_leaf]
  | parent kind place children =>
      obtain ⟨ds, same⟩ := exists_nest_parent shape origin kind place children
      rw [same]
      rfl

theorem isPhrasing_nest (b : Node) : (nest shape origin b).isPhrasing = b.isPhrasing := by
  cases b with
  | leaf content place => rw [nest_leaf]
  | parent kind place children =>
      obtain ⟨ds, same⟩ := exists_nest_parent shape origin kind place children
      rw [same]
      rfl

end Equations

/-- A link or deletion with a block inside. All other nodes stay whole. -/
def Node.Straddles : Node → Prop
  | .parent shape _ children => shape.isSplittable && wrapNeeded children
  | .leaf _ _ => False

theorem split_of_compact {n : Node} (compact : ¬ n.Straddles) : split n = [n] := by
  cases n with
  | leaf content origin => rw [split]
  | parent shape origin children =>
      have whole : ¬ (shape.isSplittable && wrapNeeded children) := compact
      rw [split, if_neg whole]

/-- What shows a property of flattening, splitting, nesting and wrapping: `flat` and `flow` speak
of the nodes that are flattened and wrapped, `part` of a node that is split, and `nested` of a
block that gets a copy of a link or deletion inside. -/
structure FlowRules (flat : List Node → Prop) (part : Node → Prop)
    (nested : Shape → Origin → Node → Prop) (flow : List Node → Prop) : Prop where
  flattened (nodes : List Node) (parts : ∀ n ∈ nodes, part n) : flat nodes
  whole (n : Node) (compact : ¬ n.Straddles) (same : split n = [n]) : part n
  divided (shape : Shape) (origin : Origin) (children : List Node)
    (splittable : shape.isSplittable) (inside : flat children)
    (blocks : ∀ b ∈ flatten children, ¬ b.isPhrasing → nested shape origin b)
    (same : split (.parent shape origin children) =
      (pieces (flatten children)).map (Piece.around shape origin)) :
    part (.parent shape origin children)
  leaf (shape : Shape) (origin : Origin) (splittable : shape.isSplittable) (content : Leaf)
    (place : Origin) : nested shape origin (.leaf content place)
  empty (shape : Shape) (origin : Origin) (splittable : shape.isSplittable) (kind : Shape)
    (place : Origin) : nested shape origin (.parent kind place [])
  grid (shape : Shape) (origin : Origin) (splittable : shape.isSplittable) (kind : Shape)
    (place : Origin) (children : List Node) (isGrid : kind.isGrid)
    (below : ∀ c ∈ children, nested shape origin c) :
    nested shape origin (.parent kind place children)
  container (shape : Shape) (origin : Origin) (splittable : shape.isSplittable) (kind : Shape)
    (place : Origin) (children : List Node) (filled : children ≠ [])
    (isContainer : kind.isContainer)
    (inside : flow [.parent shape origin children]) :
    nested shape origin (.parent kind place children)
  other (shape : Shape) (origin : Origin) (splittable : shape.isSplittable) (kind : Shape)
    (place : Origin) (children : List Node) (filled : children ≠ []) (notGrid : ¬ kind.isGrid)
    (notContainer : ¬ kind.isContainer) : nested shape origin (.parent kind place children)
  wrapped (nodes : List Node) (inside : flat nodes) : flow nodes

section Induction

variable {flat : List Node → Prop} {part : Node → Prop} {nested : Shape → Origin → Node → Prop}
  {flow : List Node → Prop}

mutual

theorem FlowRules.flat_all (rules : FlowRules flat part nested flow) (nodes : List Node) :
    flat nodes :=
  rules.flattened nodes fun n _ => rules.part_all n
termination_by (splitDepthAll nodes, 1)
decreasing_by
  next member => exact lex_of_le (splitDepth_le_of_mem member) (by decide)

theorem FlowRules.part_all (rules : FlowRules flat part nested flow) (n : Node) : part n := by
  match n with
  | .leaf content origin => exact rules.whole _ id (split_of_compact id)
  | .parent shape origin children =>
      by_cases holds : shape.isSplittable && wrapNeeded children
      · have splittable : shape.isSplittable := (Bool.and_eq_true_iff.mp holds).1
        refine rules.divided shape origin children splittable (rules.flat_all children) ?_
          (split_parent holds)
        intro b member block
        exact rules.nested_all splittable origin b
      · exact rules.whole _ holds (split_of_compact holds)
termination_by (n.splitDepth, 0)
decreasing_by
  · rw [splitDepth_parent (by simp [splittable])]
    exact .left _ _ (Nat.lt_succ_self _)
  · rw [@splitDepth_parent shape origin children (by simp [splittable])]
    have low := Nat.le_trans (splitDepth_le_of_mem member) (splitDepthAll_flatten_le children)
    exact .left _ _ (Nat.lt_succ_of_le low)

theorem FlowRules.nested_all (rules : FlowRules flat part nested flow) {shape : Shape}
    (splittable : shape.isSplittable) (origin : Origin) (b : Node) : nested shape origin b := by
  match b with
  | .leaf content place => exact rules.leaf shape origin splittable content place
  | .parent kind place children =>
      by_cases filled : children = []
      · rw [filled]
        exact rules.empty shape origin splittable kind place
      · by_cases grid : kind.isGrid
        · apply rules.grid shape origin splittable kind place children grid
          intro c member
          exact rules.nested_all splittable origin c
        · by_cases container : kind.isContainer
          · exact rules.container shape origin splittable kind place children filled container
              (rules.flow_all [.parent shape origin children])
          · exact rules.other shape origin splittable kind place children filled grid container
termination_by (b.splitDepth, 3)
decreasing_by
  · rw [splitDepth_parent (by simp [grid])]
    exact .left _ _ (Nat.lt_succ_of_le (splitDepth_le_of_mem member))
  · rw [@splitDepth_parent kind place children (by simp [container])]
    exact lex_of_le (by simpa [splitDepthAll] using splitDepth_parent_le shape origin children)
      (by decide)

theorem FlowRules.flow_all (rules : FlowRules flat part nested flow) (nodes : List Node) :
    flow nodes :=
  rules.wrapped nodes (rules.flat_all nodes)
termination_by (splitDepthAll nodes, 2)
decreasing_by exact .right _ (by decide)

end

end Induction

end HtmlToMarkdown.Markdown
