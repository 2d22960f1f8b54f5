import HtmlToMarkdown.Converter
import HtmlToMarkdown.Proofs.Lines.Conversion

namespace HtmlToMarkdown

open Handlers (standard)
open Html (Element)
open Markdown (Node Shape)

/-- An item holds nothing but blocks. -/
def Blocky (shape : Shape) (ns : List Node) : Prop :=
  shape.kind = .listItem → ∀ n ∈ ns, ¬ n.isPhrasing

/-- An item holds nothing but blocks and empty texts. -/
def Hollow (shape : Shape) (ns : List Node) : Prop :=
  shape.kind = .listItem → ∀ n ∈ ns, n.isPhrasing → n.isEmptyText

theorem blocky_iff_hollow {shape : Shape} {ns ms : List Node} (regular : ∀ n ∈ ns, n.Regular)
    (settles : Markdown.SettlesAll shape.trimsEdges true ns ms) :
    Blocky shape ms ↔ Hollow shape ns := by
  refine forall_congr' fun item => ?_
  have untrimmed : shape.trimsEdges = false := by
    cases shape with
    | listItem => rfl
    | _ => cases item
  exact settles.blocks_iff untrimmed regular

/-- Lists have no inline content directly in them. -/
def itemRule : Rule where
  line _ := true
  heading _ := true
  flow _ := true
  strays := false

theorem governs_itemRule : itemRule.Governs Blocky where
  free {shape} unruled ns item := by
    cases shape with
    | listItem => exact absurd rfl unruled
    | _ => cases item
  item {spread checked ns} := by
    constructor
    · exact fun blocks n member => .inr (blocks rfl n member)
    · exact fun strays _ n member => (strays n member).resolve_left Bool.false_ne_true
  cover _ notItem item := absurd item notItem
  line _ _ := nofun
  heading _ := nofun
  run _ _ _ _ := nofun
  refinedLine _ _ := rfl
  refinedHeading _ _ := rfl
  refinedFlow _ _ := rfl
  nested := rfl

/-- In a result all items hold nothing but blocks if the walk puts nothing inline into them save
empty texts. That is so where no list has inline content directly in it. -/
theorem blocky_convert [UrlReader] (options : Options) (tree : Html.Node) :
    ((convert options standard tree).Throughout (Node.Keeps Blocky) ↔
      (walkTree options standard (tree.minify options.newlines)).Throughout
        (Node.Keeps Hollow)) ∧
    (itemRule.metBy options (tree.minify options.newlines) →
      (convert options standard tree).Throughout (Node.Keeps Blocky)) :=
  keeps_convert governs_itemRule blocky_iff_hollow
    (fun blocky item n member phrasing => absurd phrasing (blocky item n member)) options tree

def blockLists : Html.Node :=
  let element (tag : String) (children : List Html.Node) : Html.Node :=
    .element tag OrderedMap.empty children none
  .root [
    element "a" [element "ul" [
      element "li" [.text "a" none, element "ol" [element "li" [.text "b" none]]],
      element "p" [.text "c" none]]],
    element "dl" [
      element "dt" [.text "d" none], element "dd" [.text "e" none],
      element "div" [element "dt" [.text "f" none], element "blockquote" [.text "g" none]]]] none

theorem blocky_convert_blockLists :
    itemRule.metBy {} (blockLists.minify false) ∧
      (convert {} standard blockLists).Throughout (Node.Keeps Blocky) :=
  ⟨by decide +kernel, (blocky_convert {} blockLists).2 (by decide +kernel)⟩

section Stray

def strayText : Element := ⟨"ul", OrderedMap.empty, [.text "a" none], none⟩

def strayItem : Node := .plain (.listItem false none) [.text "a"]

theorem nodes_strayText :
    Walk.nodes standard.convert strayText.toNode none =
      pure [.plain (.list false none false) [strayItem]] := by
  have inside : Walk.children standard.convert strayText = pure [.text "a"] := by
    refine (Walk.all_singleton _ _ _).trans ?_
    rw [Walk.nodes, Handlers.convert_eq,
      Handlers.step_of_kind _ _ rfl Handlers.findKind?_text]
    rfl
  rw [nodes_convert (e := strayText) Bool.false_ne_true (.list (by decide)), Handler.nodes_list,
    inside]
  rfl

/-- The text is put into a new item as it is. -/
theorem not_blocky_convert_strayText :
    convert {} standard (.root [strayText.toNode] none) =
        .plain .root [.plain (.list false none false) [strayItem]] ∧
      ¬ (convert {} standard (.root [strayText.toNode] none)).Throughout (Node.Keeps Blocky) := by
  let list : Node := .plain (.list false none false) [strayItem]
  have flow : Markdown.wrap [list] = [list] := by
    apply Markdown.wrap_of_blocks
    · exact List.forall_mem_singleton.mpr
        ⟨rfl, List.forall_mem_singleton.mpr fun _ asked => Option.some.inj asked⟩
    · exact List.forall_mem_singleton.mpr Bool.false_ne_true
  have walked : walkTree {} standard (.root [strayText.toNode] none) = .plain .root [list] := by
    rw [walkTree_root, Walk.all_singleton, nodes_strayText]
    change Node.parent _ _ (if _ then Markdown.wrap [list] else [list]) = _
    rw [flow, ite_self]
    rfl
  have result : convert {} standard (.root [strayText.toNode] none) = .plain .root [list] :=
    congrArg Node.normalize walked
  refine ⟨result, fun blocky => ?_⟩
  have inside : strayItem ∈ (Node.plain .root [list]).subtree := by
    simp [list, strayItem, Node.plain, Node.subtree, Markdown.subtreeAll]
  exact (result ▸ blocky) strayItem inside rfl (.text "a") List.mem_cons_self rfl

end Stray

end HtmlToMarkdown
