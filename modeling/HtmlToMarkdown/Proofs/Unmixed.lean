import HtmlToMarkdown.Proofs.Flow.Clean
import HtmlToMarkdown.Proofs.Walk.Scope
import HtmlToMarkdown.Proofs.WellFormed

namespace HtmlToMarkdown.Markdown

/-- A quotation holds nothing but blocks. -/
def Node.Unmixed : Node → Prop
  | .parent .blockquote _ children => ∀ c ∈ children, ¬ c.isPhrasing
  | _ => True

section Unmixed

variable {shape : Shape} {origin : Origin} {children : List Node}

theorem unmixed_parent (apart : shape ≠ .blockquote)
    (inside : ∀ c ∈ children, c.Throughout Node.Unmixed) :
    (Node.parent shape origin children).Throughout Node.Unmixed := by
  refine Node.throughout_parent.mpr ⟨?_, inside⟩
  cases shape with
  | blockquote => exact absurd rfl apart
  | _ => trivial

theorem unmixed_blocks (blocks : ∀ c ∈ children, ¬ c.isPhrasing)
    (inside : ∀ c ∈ children, c.Throughout Node.Unmixed) :
    (Node.parent shape origin children).Throughout Node.Unmixed := by
  refine Node.throughout_parent.mpr ⟨?_, inside⟩
  cases shape with
  | blockquote => exact blocks
  | _ => trivial

theorem unmixed_flowInvariant :
    FlowInvariant fun (_ : Bool) (n : Node) => n.Throughout Node.Unmixed where
  below holds := (Node.throughout_parent.mp holds).2
  copy splittable _ inside := by
    apply unmixed_parent _ inside
    rintro rfl
    cases splittable
  refill _ _ blocks inside := unmixed_blocks blocks inside
  grid := by
    intro t shape origin kind place children isGrid holds inside
    apply unmixed_parent
    · rintro rfl
      cases isGrid
    · refine List.forall_mem_map.mpr fun c member => ?_
      exact inside t c member ((Node.throughout_parent.mp holds).2 c member)
  single _ notContainer _ inside := by
    apply unmixed_parent _ (List.forall_mem_singleton.mpr inside)
    rintro rfl
    exact notContainer rfl
  run _ _ inside :=
    unmixed_parent nofun fun d member => inside d (mem_of_mem_dropSurroundingBreaks member)

theorem unmixed_conversionInvariant :
    ConversionInvariant (fun _ => True) fun (_ : Bool) (n : Node) => n.Throughout Node.Unmixed where
  toFlowInvariant := unmixed_flowInvariant
  leaf _ _ _ := Node.throughout_leaf.mpr trivial
  retext _ _ := Node.throughout_leaf.mpr trivial
  phrasing isPhrasing _ inside := by
    apply unmixed_parent _ inside
    rintro rfl
    cases isPhrasing
  blocks {t} _ _ _ _ _ inside :=
    unmixed_blocks (fun _ => not_isPhrasing_of_mem_wrap)
      (unmixed_flowInvariant.wrap (i := t) inside)
  inlineRoot _ _ inside := unmixed_parent nofun inside
  paragraph _ _ inside :=
    unmixed_parent nofun fun d member => inside d (mem_of_mem_dropSurroundingBreaks member)
  heading _ _ inside :=
    unmixed_parent nofun fun d member => inside d (mem_of_mem_dropSurroundingBreaks member)
  item _ _ inside := unmixed_parent nofun inside
  stray kind _ inside := by
    apply unmixed_parent _ inside
    rintro rfl
    rcases kind with item | cell
    · cases item
    · cases cell
  emptyItem _ := unmixed_parent nofun (by simp)
  list _ _ _ _ _ inside := unmixed_parent nofun inside
  cell _ inside := unmixed_parent nofun inside
  row _ _ inside := unmixed_parent nofun inside
  refillRow _ _ inside := unmixed_parent nofun inside
  table _ _ _ _ _ inside := unmixed_parent nofun inside

end Unmixed

section Normalization

/-- Where there are only blocks, normalization goes through them one by one. -/
theorem normalize_of_blocks {shape : Shape} {origin : Origin} {children : List Node}
    (regular : ∀ c ∈ children, c.Regular) (blocks : ∀ c ∈ children, ¬ c.isPhrasing) :
    (Node.parent shape origin children).normalize =
        .parent shape origin (children.map Node.normalize) ∧
      ∀ c ∈ children.map Node.normalize, ¬ c.isPhrasing := by
  constructor
  · apply normalize_of_textFree
    intro c member
    exact (regular c member).not_isText (blocks c member)
  · refine List.forall_mem_map.mpr fun c member => ?_
    rw [isPhrasing_normalize]
    exact blocks c member

theorem unmixed_normalize {n : Node} (regular : n.Throughout Node.Regular)
    (holds : n.Throughout Node.Unmixed) : n.normalize.Throughout Node.Unmixed := by
  induction n using Node.induction with
  | leaf content origin => exact holds
  | parent shape origin children ih =>
      rcases Node.throughout_parent.mp regular with ⟨-, regularBelow⟩
      rcases Node.throughout_parent.mp holds with ⟨here, below⟩
      have normal : ∀ c ∈ children, c.normalize.Throughout Node.Unmixed :=
        fun c member => ih c member (regularBelow c member) (below c member)
      by_cases quotation : shape = .blockquote
      · subst quotation
        have each := fun c member => (regularBelow c member).self
        rcases @normalize_of_blocks .blockquote origin children each here with ⟨same, blocks⟩
        rw [same]
        exact unmixed_blocks blocks (List.forall_mem_map.mpr normal)
      · exact unmixed_parent quotation (throughout_tidied (fun _ _ _ _ _ _ => trivial) normal)

theorem isPhrasing_retext (value other : String) (origin next : Origin)
    (phrasing : (Node.leaf (.text value) origin).isPhrasing) (same : next.data = origin.data) :
    (Node.leaf (.text other) next).isPhrasing := by
  rw [Node.isPhrasing, Node.data, Node.origin] at phrasing ⊢
  rwa [same]

theorem inline_tidied {trims : Bool} {ns : List Node} (inlined : ∀ n ∈ ns, n.Inline) :
    ∀ m ∈ tidyTexts trims true (mergeTexts none (normalizeAll ns)), m.Inline := by
  apply throughout_tidied (p := fun n => n.isPhrasing) isPhrasing_retext
  intro n member
  apply throughout_normalize isPhrasing_retext _ (inlined n member)
  intro shape origin children all
  rw [isPhrasing_normalize]
  exact all.self

end Normalization

end HtmlToMarkdown.Markdown

namespace HtmlToMarkdown

open Handlers (standard)
open Markdown (Node not_isPhrasing_of_mem_wrap not_wrapNeeded_iff wrap wrapNeeded)

section Root

variable (options : Options)

theorem regular_walkTree [UrlReader] (tree : Html.Node) :
    (walkTree options standard tree).Throughout Node.Regular :=
  (wellFormed_walkTree options tree).mono fun _ wellFormed =>
    Node.Sound.regular (t := false) ⟨wellFormed, nofun⟩

/-- The root of a walk holds blocks or else phrasing content, and in a document only blocks. -/
theorem unmixed_walkTree [UrlReader] (children : List Html.Node) (position : Option Position) :
    ∃ content, walkTree options standard (.root children position) =
        .parent .root { position } content ∧
      (∀ c ∈ content, c.Throughout Node.Unmixed) ∧
      ((∀ c ∈ content, ¬ c.isPhrasing) ∨ ¬ options.document ∧ ∀ c ∈ content, c.Inline) := by
  let s := State.start options (.root children position)
  let r := (Walk.all standard.convert none children).run s
  have kept : r.2.options = options :=
    (scoped_rules.all (fun n _ => scoped_nodes n none) s).options
  have unmixed : ∀ c ∈ r.1, c.Throughout Node.Unmixed :=
    (Conversion.Yields.all (fun n _ =>
      Markdown.unmixed_conversionInvariant.yields_anywhere n none) s).2
  have same := walkTree_root options children position
  change _ = Node.parent .root { position }
    (if r.2.options.document || wrapNeeded r.1 then wrap r.1 else r.1) at same
  rw [kept] at same
  by_cases flow : options.document || wrapNeeded r.1
  · rw [if_pos flow] at same
    exact ⟨_, same, Markdown.unmixed_flowInvariant.wrap (i := false) unmixed,
      .inl fun c => not_isPhrasing_of_mem_wrap⟩
  · rw [if_neg flow] at same
    rw [Bool.or_eq_true, not_or] at flow
    exact ⟨_, same, unmixed, .inr ⟨flow.1, (not_wrapNeeded_iff r.1).mp flow.2⟩⟩

/-- In a result quotations hold blocks only. So does the root, unless all that is in it is phrasing
content and no document is asked for. -/
theorem unmixed_convert [UrlReader] (children : List Html.Node) (position : Option Position) :
    (convert options standard (.root children position)).Throughout Node.Unmixed ∧
      ∃ content, convert options standard (.root children position) =
          .parent .root { position } content ∧
        (options.document → ∀ c ∈ content, ¬ c.isPhrasing) ∧
        ((∀ c ∈ content, ¬ c.isPhrasing) ∨ ∀ c ∈ content, c.Inline) := by
  have small : ∃ small, (Html.Node.root children position).minify options.newlines =
      .root small position := ⟨_, rfl⟩
  rcases small with ⟨small, minified⟩
  rcases unmixed_walkTree options small position with ⟨content, walked, unmixed, sorted⟩
  have regular := regular_walkTree options (.root small position)
  rw [convert, minified]
  rw [walked] at regular ⊢
  have whole := @Markdown.unmixed_parent .root { position } content nofun unmixed
  refine ⟨Markdown.unmixed_normalize regular whole, ?_⟩
  rcases sorted with blocks | ⟨fragment, inlined⟩
  · have each := fun c member => ((Node.throughout_parent.mp regular).2 c member).self
    rcases @Markdown.normalize_of_blocks .root { position } content each blocks with
      ⟨same, stillBlocks⟩
    exact ⟨_, same, fun _ => stillBlocks, .inl stillBlocks⟩
  · exact ⟨_, rfl, fun document => absurd document fragment,
      .inr (Markdown.inline_tidied inlined)⟩

end Root

end HtmlToMarkdown
