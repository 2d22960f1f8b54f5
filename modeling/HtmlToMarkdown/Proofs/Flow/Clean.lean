import HtmlToMarkdown.Proofs.Flow.Blocks

/-!
Making flow content leaves no block inside phrasing content. A link or deletion may hold blocks,
and links and deletions that do; as long as nothing else goes wrong inside, wrapping pushes them
down into the blocks, so that in the end paragraphs, headings, cells and marked text hold phrasing
content alone.
-/

namespace HtmlToMarkdown.Markdown

def Shape.holdsPhrasing : Shape → Bool
  | paragraph => true
  | heading _ => true
  | tableCell => true
  | emphasis => true
  | strong => true
  | delete => true
  | link _ _ => true
  | _ => false

namespace Shape

variable {shape : Shape}

theorem holdsPhrasing_iff : shape.holdsPhrasing ↔ ¬ shape.isGrid ∧ ¬ shape.isContainer := by
  cases shape with
  | list | table | tableRow =>
      exact ⟨fun holds => absurd holds Bool.false_ne_true, fun apart => absurd rfl apart.1⟩
  | root | blockquote | listItem =>
      exact ⟨fun holds => absurd holds Bool.false_ne_true, fun apart => absurd rfl apart.2⟩
  | _ => exact ⟨fun _ => ⟨Bool.false_ne_true, Bool.false_ne_true⟩, fun _ => rfl⟩

theorem holdsPhrasing_of_isPhrasing (phrasing : shape.isPhrasing) : shape.holdsPhrasing := by
  cases shape <;> first | rfl | cases phrasing

end Shape

namespace Node

/-- A node that is to hold phrasing content has no block below it. -/
def Confined : Node → Prop
  | .parent shape _ children => shape.holdsPhrasing → ∀ d ∈ subtreeAll children, d.isPhrasing
  | .leaf _ _ => True

def Clean (n : Node) : Prop := n.Throughout Confined

inductive Splittable : Node → Prop
  | clean {n : Node} (clean : n.Clean) : Splittable n
  | cover {shape : Shape} {origin : Origin} {children : List Node}
    (splittable : shape.isSplittable) (parts : ∀ c ∈ children, Splittable c) :
    Splittable (.parent shape origin children)

def Inline (n : Node) : Prop := n.Throughout fun m => m.isPhrasing

end Node

section Inline

variable {n : Node} {ns : List Node}

theorem forall_subtreeAll_iff :
    (∀ d ∈ subtreeAll ns, d.isPhrasing) ↔ ∀ n ∈ ns, n.Inline := by
  simp only [mem_subtreeAll, Node.Inline, Node.Throughout]
  constructor
  · intro all n member d inside
    exact all d ⟨n, member, inside⟩
  · rintro all d ⟨n, member, inside⟩
    exact all n member d inside

theorem clean_parent_iff {shape : Shape} {origin : Origin} {children : List Node} :
    (Node.parent shape origin children).Clean ↔
      (shape.holdsPhrasing → ∀ c ∈ children, c.Inline) ∧ ∀ c ∈ children, c.Clean := by
  rw [Node.Clean, Node.throughout_parent, Node.Confined, forall_subtreeAll_iff]
  rfl

theorem Node.Inline.clean (inlined : n.Inline) : n.Clean := by
  intro m inside
  cases m with
  | leaf content origin => trivial
  | parent shape origin children =>
      intro _
      have whole := inlined.below _ inside
      exact forall_subtreeAll_iff.mpr (Node.throughout_parent.mp whole).2

/-- Clean phrasing content has no block in it at all. -/
theorem Node.Clean.inlined (clean : n.Clean) (regular : n.Regular) (phrasing : n.isPhrasing) :
    n.Inline := by
  cases n with
  | leaf content origin => exact Node.throughout_leaf.mpr phrasing
  | parent shape origin children =>
      have shaped : shape.isPhrasing := by rwa [regular.isPhrasing_parent] at phrasing
      have inside := (clean_parent_iff.mp clean).1 (Shape.holdsPhrasing_of_isPhrasing shaped)
      exact Node.throughout_parent.mpr ⟨phrasing, inside⟩

mutual

theorem Node.not_hasBlock_iff (n : Node) : ¬ n.hasBlock ↔ n.Inline := by
  match n with
  | .leaf content origin =>
      rw [Node.Inline, Node.throughout_leaf]
      simp [Node.hasBlock]
  | .parent shape origin children =>
      rw [Node.Inline, Node.throughout_parent, Node.hasBlock, Bool.or_eq_true, not_or,
        not_wrapNeeded_iff children]
      simp [Node.Inline]

theorem not_wrapNeeded_iff (ns : List Node) : ¬ wrapNeeded ns ↔ ∀ n ∈ ns, n.Inline := by
  match ns with
  | [] => simp [wrapNeeded]
  | n :: ns =>
      rw [wrapNeeded, Bool.or_eq_true, not_or, Node.not_hasBlock_iff n, not_wrapNeeded_iff ns,
        List.forall_mem_cons]

end

theorem split_of_inline (inlined : n.Inline) : split n = [n] := by
  cases n with
  | leaf content origin => rw [split]
  | parent shape origin children =>
      have inside := (not_wrapNeeded_iff children).mpr (Node.throughout_parent.mp inlined).2
      have whole : ¬ (shape.isSplittable && wrapNeeded children) := by simp [inside]
      rw [split, if_neg whole]

theorem Node.Splittable.children {shape : Shape} {origin : Origin} {children : List Node}
    (splits : (Node.parent shape origin children).Splittable) : ∀ c ∈ children, c.Splittable := by
  cases splits with
  | clean clean => exact fun c member => .clean ((clean_parent_iff.mp clean).2 c member)
  | cover _ parts => exact parts

theorem Node.Splittable.clean_of_compact (splits : n.Splittable) (regular : n.Regular)
    (compact : ¬ n.Straddles) : n.Clean := by
  cases splits with
  | clean clean => exact clean
  | @cover shape origin children splittable parts =>
      have noBlock : ¬ wrapNeeded children := by
        intro needed
        exact compact (Bool.and_eq_true_iff.mpr ⟨splittable, needed⟩)
      have phrasing : (Node.parent shape origin children).isPhrasing := by
        rw [regular.isPhrasing_parent]
        exact Shape.isPhrasing_of_isSplittable splittable
      have inlined : (Node.parent shape origin children).Inline :=
        Node.throughout_parent.mpr ⟨phrasing, (not_wrapNeeded_iff children).mp noBlock⟩
      exact inlined.clean

end Inline

section Flow

variable {shape : Shape} {origin : Origin} {ns : List Node}

theorem inline_cover (splittable : shape.isSplittable)
    (unnamed : origin.data.bind (·.elementName) = none) (inside : ∀ n ∈ ns, n.Inline) :
    (Node.parent shape origin ns).Inline := by
  refine Node.throughout_parent.mpr ⟨?_, inside⟩
  simp [Node.isPhrasing, Node.data, Node.origin, unnamed,
    Shape.isPhrasing_of_isSplittable splittable]

theorem inline_of_run {nodes : List Node} (found : Piece.run nodes ∈ pieces ns)
    (regular : ∀ n ∈ ns, n.Throughout Node.Regular) (clean : ∀ n ∈ ns, n.Clean) :
    ∀ n ∈ nodes, n.Inline := by
  intro n member
  have inside := mem_of_mem_pieces found member
  have phrasing := (sorted_pieces ns _ found).2 n member
  exact (clean n inside).inlined (regular n inside).self phrasing

theorem clean_rules :
    FlowRules
      (fun ns => (∀ n ∈ ns, n.Throughout Node.Regular) → (∀ n ∈ ns, n.Splittable) →
        ∀ m ∈ flatten ns, m.Clean)
      (fun n => n.Throughout Node.Regular → n.Splittable → ∀ m ∈ split n, m.Clean)
      (fun shape origin b => origin.data.bind (·.elementName) = none →
        b.Throughout Node.Regular → ¬ b.isPhrasing → b.Clean → (nest shape origin b).Clean)
      (fun ns => (∀ n ∈ ns, n.Throughout Node.Regular) → (∀ n ∈ ns, n.Splittable) →
        ∀ m ∈ wrap ns, m.Clean) where
  flattened nodes parts := by
    intro regular splits m member
    rw [flatten] at member
    obtain ⟨n, inside, here⟩ := List.mem_flatMap.mp member
    exact parts n inside (regular n inside) (splits n inside) m here
  whole n compact same := by
    intro regular splits m member
    rw [same] at member
    rw [List.mem_singleton.mp member]
    exact splits.clean_of_compact regular.self compact
  divided shape origin children splittable inside blocks same := by
    intro regular splits m member
    obtain ⟨here, below⟩ := Node.throughout_parent.mp regular
    have clean := inside below splits.children
    have flat := regular_flowInvariant.flatten (i := ()) below
    rw [same] at member
    obtain ⟨p, found, rfl⟩ := List.mem_map.mp member
    cases p with
    | run nodes => exact (inline_cover splittable here.1 (inline_of_run found flat clean)).clean
    | block b =>
        have inFlat : b ∈ flatten children := mem_of_mem_pieces found (List.mem_singleton_self b)
        have block : ¬ b.isPhrasing := sorted_pieces _ _ found
        exact blocks b inFlat block here.1 (flat b inFlat) block (clean b inFlat)
  leaf shape origin _ content place := by
    intro _ _ _ clean
    rw [nest_leaf]
    exact clean
  empty shape origin _ kind place := by
    intro _ _ _ clean
    rw [nest_empty]
    exact clean
  grid shape origin _ kind place children isGrid below := by
    intro unnamed regular block clean
    obtain ⟨here, all⟩ := Node.throughout_parent.mp regular
    obtain ⟨asked, kindOf⟩ := Shape.exists_childKind isGrid
    rw [nest_grid shape origin isGrid, clean_parent_iff]
    constructor
    · intro phrasing
      exact absurd isGrid (Shape.holdsPhrasing_iff.mp phrasing).1
    · intro d member
      obtain ⟨c, inside, rfl⟩ := List.mem_map.mp member
      have kind := here.2 c inside asked kindOf
      have blockBelow := (all c inside).self.not_isPhrasing_of_kind (kind ▸ kindOf)
      have cleanBelow := (clean_parent_iff.mp clean).2 c inside
      exact below c inside unnamed (all c inside) blockBelow cleanBelow
  container shape origin splittable kind place children filled isContainer inside := by
    intro unnamed regular block clean
    -- The copy stands below the block, with content that is clean but may hold blocks again.
    have link : (Node.parent shape origin children).Throughout Node.Regular :=
      throughout_regular unnamed (Shape.childKind_of_isSplittable splittable)
        (Node.throughout_parent.mp regular).2
    have splits : (Node.parent shape origin children).Splittable :=
      .cover splittable fun c member => .clean ((clean_parent_iff.mp clean).2 c member)
    rw [nest_container shape origin isContainer place filled, clean_parent_iff]
    constructor
    · intro phrasing
      exact absurd isContainer (Shape.holdsPhrasing_iff.mp phrasing).2
    · intro m member
      exact inside (by simpa using link) (by simpa using splits) m member
  other shape origin splittable kind place children filled notGrid notContainer := by
    intro unnamed regular block clean
    have phrasing := Shape.holdsPhrasing_iff.mpr ⟨notGrid, notContainer⟩
    have content := (clean_parent_iff.mp clean).1 phrasing
    have copy := inline_cover splittable unnamed content
    rw [nest_other shape origin notGrid notContainer place filled, clean_parent_iff]
    exact ⟨fun _ => List.forall_mem_singleton.mpr copy, List.forall_mem_singleton.mpr copy.clean⟩
  wrapped nodes inside := by
    intro regular splits m member
    have clean := inside regular splits
    have flat := regular_flowInvariant.flatten (i := ()) regular
    rcases mem_wrap member with ⟨here, -⟩ | ⟨nodes, found, -, rfl⟩
    · exact clean m here
    · have content : ∀ d ∈ dropSurroundingBreaks nodes, d.Inline := fun d hd =>
        inline_of_run found flat clean d (mem_of_mem_dropSurroundingBreaks hd)
      exact clean_parent_iff.mpr ⟨fun _ => content, fun d hd => (content d hd).clean⟩

/-- Wrapping gives blocks only, and in none of them is there a block inside phrasing content. -/
theorem clean_wrap (nodes : List Node) (regular : ∀ n ∈ nodes, n.Throughout Node.Regular)
    (splits : ∀ n ∈ nodes, n.Splittable) : ∀ m ∈ wrap nodes, m.Clean ∧ ¬ m.isPhrasing :=
  fun m member =>
    ⟨clean_rules.flow_all nodes regular splits m member, not_isPhrasing_of_mem_wrap member⟩

def nestedCovers : Node :=
  .plain .delete [
    .text "x",
    .plain (.link "u" none) [
      .paragraph [.text "y"],
      .plain .blockquote [.plain (.heading 2) [.text "z"]]]]

theorem clean_wrap_nestedCovers :
    (∀ n ∈ [nestedCovers], n.Throughout Node.Regular) ∧ (∀ n ∈ [nestedCovers], n.Splittable) ∧
      ∀ m ∈ wrap [nestedCovers], m.Clean ∧ ¬ m.isPhrasing := by
  have leaf : ∀ value, (Node.text value).Throughout Node.Regular := fun value =>
    Node.throughout_leaf.mpr rfl
  have paragraph : (Node.paragraph [.text "y"]).Throughout Node.Regular :=
    throughout_regular rfl rfl (by simp [leaf])
  have heading : (Node.plain (.heading 2) [.text "z"]).Throughout Node.Regular :=
    throughout_regular rfl rfl (by simp [leaf])
  have quotation :
      (Node.plain .blockquote [.plain (.heading 2) [.text "z"]]).Throughout Node.Regular :=
    throughout_regular rfl rfl (by simp [heading])
  have link : (Node.plain (.link "u" none) [.paragraph [.text "y"],
      .plain .blockquote [.plain (.heading 2) [.text "z"]]]).Throughout Node.Regular :=
    throughout_regular rfl rfl (by simp [paragraph, quotation])
  have regular : nestedCovers.Throughout Node.Regular :=
    throughout_regular rfl rfl (by simp [leaf, link])
  have inlined : ∀ value, (Node.text value).Inline := fun value => Node.throughout_leaf.mpr rfl
  have clean : ∀ {shape} value, (Node.plain shape [.text value]).Clean := fun value =>
    clean_parent_iff.mpr ⟨fun _ => by simp [inlined], by simp [(inlined _).clean]⟩
  have quoted : (Node.plain .blockquote [.plain (.heading 2) [.text "z"]]).Clean :=
    clean_parent_iff.mpr ⟨fun phrasing => absurd phrasing Bool.false_ne_true, by simp [clean]⟩
  have parts : nestedCovers.Splittable := by
    refine .cover rfl ?_
    simp only [List.forall_mem_cons]
    refine ⟨.clean (inlined _).clean, .cover rfl ?_, by simp⟩
    simp only [List.forall_mem_cons]
    exact ⟨.clean (clean "y"), .clean quoted, by simp⟩
  have both := clean_wrap [nestedCovers] (by simpa using regular) (by simpa using parts)
  exact ⟨by simpa using regular, by simpa using parts, both⟩

end Flow

end HtmlToMarkdown.Markdown
