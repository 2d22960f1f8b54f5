import HtmlToMarkdown.Converter
import HtmlToMarkdown.Proofs.Flow.Blocks
import HtmlToMarkdown.Proofs.Source.Throughout
import HtmlToMarkdown.Proofs.Walk.Independence
import HtmlToMarkdown.Proofs.WellFormed

/-!
Blocks side by side are converted independently. White space is minified inside each of them alone,
the walk leaves nothing behind in its state, blocks are never wrapped, and between blocks there are
no texts that normalization could join or trim.
-/

namespace HtmlToMarkdown

open Handlers (Registered standard)
open Html (Element ThroughoutAll isBlockTag minifyAll minifyNode)
open Html.Node (Tagged)
open Markdown (Node not_isPhrasing_of_mem_wrap wrap wrapNeeded)

/-- Elements that give blocks and nothing else. -/
def Html.standaloneTags : List String := [
  "address", "article", "aside", "blockquote", "center", "div", "dl", "fieldset", "figcaption",
  "figure", "footer", "form", "h1", "h2", "h3", "h4", "h5", "h6", "header", "hgroup", "hr",
  "legend", "main", "nav", "ol", "p", "pre", "section", "table", "ul"]

/-- The nodes that a result stands for: those in a root, or else the result itself. -/
def Markdown.Node.parts : Node → List Node
  | .parent .root _ children => children
  | n => [n]

section Minification

open Html (standaloneTags)

def Html.Element.minify (newlines : Bool) (e : Element) : Element :=
  { e with children := (e.toNode.minify newlines).children }

variable (newlines : Bool)

theorem Html.isBlockTag_of_standalone :
    ∀ tag ∈ standaloneTags, isBlockTag tag ∧ Text.lower tag = tag := by
  decide +kernel

theorem Html.minifyNode_block {e : Element} (block : isBlockTag e.tag) (before after : Bool) :
    (minifyNode ⟨newlines, .normal, before, after⟩ e.toNode).1 = e.toNode.minify newlines := by
  have inside : ∀ before after, (Surroundings.mk newlines .normal before after).inside e =
      ⟨newlines, whiteSpaceIn e .normal, true, true⟩ := by
    intro before after
    simp [Surroundings.inside, block]
  simp only [Node.minify, Element.toNode, minifyNode, inside]

theorem Html.minifyAll_blocks {es : List Element} (blocks : ∀ e ∈ es, isBlockTag e.tag)
    (outer before after : Bool) :
    (minifyAll ⟨newlines, .normal, outer, after⟩ before (es.map Element.toNode)).1 =
      es.map fun e => e.toNode.minify newlines := by
  induction es generalizing before with
  | nil => rfl
  | cons e es ih =>
      obtain ⟨here, rest⟩ := List.forall_mem_cons.mp blocks
      have kept : ∀ cx, (minifyNode cx e.toNode).2 ≠ .removed := by
        intro cx
        simp [Element.toNode, minifyNode]
      simp only [List.map_cons, minifyAll, if_neg (kept _), minifyNode_block newlines here, ih rest]

theorem Html.minify_root {es : List Element} (blocks : ∀ e ∈ es, isBlockTag e.tag)
    (position : Option Position) :
    (Html.Node.root (es.map Element.toNode) position).minify newlines =
      .root ((es.map (Element.minify newlines)).map Element.toNode) position := by
  have textFree : ∀ n ∈ es.map fun e => e.toNode.minify newlines, !isEmptyText n := by
    intro n member
    obtain ⟨e, -, rfl⟩ := List.mem_map.mp member
    rfl
  have content := minifyAll_blocks newlines blocks false true true
  rw [Node.minify, minifyNode]
  dsimp only
  rw [content, List.filter_eq_self.mpr textFree, List.map_map]
  rfl

theorem Html.selfContained_minifiable : Minifiable (Tagged SelfContained) where
  root _ := trivial
  element holds _ := holds
  text _ _ := trivial

end Minification

/-- Blocks; a root among them is not alone. -/
def Output.StandsAlone : Option Output → Prop
  | some (.one n) => ¬ n.isPhrasing ∧ n.kind ≠ .root
  | some (.many ns) => ∀ n ∈ ns, ¬ n.isPhrasing
  | none => True

def TagHandler.GivesBlocks (handler : TagHandler) : Prop :=
  ∀ walk e parent s, ¬ s.inTable → Output.StandsAlone ((handler walk e parent).run s).1

section Handlers

open Html (standaloneTags)
open Output (StandsAlone)

theorem Output.StandsAlone.filter {output : Option Output} (alone : StandsAlone output) :
    StandsAlone (output.filter (!·.isEmpty)) := by
  rcases output with - | (n | (_ | ⟨n, ns⟩))
  · trivial
  · exact alone
  · trivial
  · exact alone

theorem Output.StandsAlone.not_isPhrasing {output : Option Output} (alone : StandsAlone output) :
    ∀ n ∈ Output.nodes output, ¬ n.isPhrasing := by
  rcases output with - | (n | ns)
  · exact fun n member => nomatch member
  · exact List.forall_mem_singleton.mpr alone.1
  · exact alone

theorem Handler.flow_blocks : TagHandler.GivesBlocks flow :=
  fun _ _ _ _ _ _ member => not_isPhrasing_of_mem_wrap member

theorem Handler.blockquote_blocks : TagHandler.GivesBlocks blockquote :=
  fun _ _ _ _ _ => ⟨Bool.false_ne_true, nofun⟩

theorem Handler.heading_blocks : TagHandler.GivesBlocks heading :=
  fun _ _ _ _ _ => ⟨Bool.false_ne_true, nofun⟩

theorem Handler.list_blocks : TagHandler.GivesBlocks list :=
  fun _ _ _ _ _ => ⟨Bool.false_ne_true, nofun⟩

theorem Handler.thematicBreak_blocks : TagHandler.GivesBlocks thematicBreak :=
  fun _ _ _ _ _ => ⟨Bool.false_ne_true, nofun⟩

theorem Handler.code_blocks : TagHandler.GivesBlocks code :=
  fun _ _ _ _ _ => ⟨Bool.false_ne_true, nofun⟩

theorem Output.standsAlone_bind {α : Type} {act : Conversion α}
    {next : α → Conversion (Option Output)} (each : ∀ a s, StandsAlone ((next a).run s).1)
    (s : State) : StandsAlone ((act >>= next).run s).1 :=
  each (act.run s).1 (act.run s).2

theorem Handler.paragraph_blocks : TagHandler.GivesBlocks paragraph := by
  intro walk e parent s _
  apply Output.standsAlone_bind
  intro ns s
  cases Markdown.dropSurroundingBreaks ns with
  | nil => trivial
  | cons n ns => exact ⟨Bool.false_ne_true, nofun⟩

theorem Handler.definitionList_blocks : TagHandler.GivesBlocks definitionList := by
  intro walk e parent s _
  apply Output.standsAlone_bind
  intro items s
  cases items with
  | nil => trivial
  | cons item items => exact ⟨Bool.false_ne_true, nofun⟩

theorem Handler.table_blocks : TagHandler.GivesBlocks table := by
  intro walk e parent s outside
  change StandsAlone ((if s.inTable then _ else _ : Conversion (Option Output)).run s).1
  rw [if_neg outside]
  exact ⟨Bool.false_ne_true, nofun⟩

theorem registered_standalone :
    ∀ tag ∈ standaloneTags, ∃ handler, Registered tag handler ∧ handler.GivesBlocks := by
  have sorted : ∀ tag ∈ standaloneTags, tag ∈ Handlers.flowTags ∨
      tag ∈ ["h1", "h2", "h3", "h4", "h5", "h6"] ∨ tag ∈ ["dir", "ol", "ul"] ∨
      tag ∈ ["p", "summary"] ∨ tag ∈ ["listing", "plaintext", "pre", "xmp"] ∨
      tag = "blockquote" ∨ tag = "dl" ∨ tag = "hr" ∨ tag = "table" := by
    decide +kernel
  intro tag member
  rcases sorted tag member with flow | heading | list | paragraph | code | rfl | rfl | rfl | rfl
  · exact ⟨_, .flow flow, Handler.flow_blocks⟩
  · exact ⟨_, .heading heading, Handler.heading_blocks⟩
  · exact ⟨_, .list list, Handler.list_blocks⟩
  · exact ⟨_, .paragraph paragraph, Handler.paragraph_blocks⟩
  · exact ⟨_, .code code, Handler.code_blocks⟩
  · exact ⟨_, .blockquote, Handler.blockquote_blocks⟩
  · exact ⟨_, .definitionList, Handler.definitionList_blocks⟩
  · exact ⟨_, .thematicBreak, Handler.thematicBreak_blocks⟩
  · exact ⟨_, .table, Handler.table_blocks⟩

theorem standsAlone_convert {e : Element} (member : e.tag ∈ standaloneTags)
    (parent : Option Element) {s : State} (outside : ¬ s.inTable) :
    StandsAlone ((standard.convert e.toNode parent).run s).1 := by
  rw [Handlers.convert_eq]
  by_cases marked : e.isIgnored
  · rw [Handlers.step_ignored _ _ marked]
    trivial
  · obtain ⟨handler, registered, blocks⟩ := registered_standalone e.tag member
    rw [Handlers.step_handled _ _ marked (Handlers.find?_of_registered registered)]
    exact (blocks standard.convert e parent s outside).filter

end Handlers

theorem Markdown.parts_of_kind {n : Node} (apart : n.kind ≠ .root) : n.parts = [n] := by
  cases n with
  | leaf content origin => rfl
  | parent shape origin children =>
      cases shape with
      | root => exact absurd rfl apart
      | _ => rfl

theorem Output.parts_toTree {output : Option Output} (alone : StandsAlone output)
    (regular : ∀ n ∈ Output.nodes output, n.Regular) :
    (Output.toTree output).normalize.parts = (Output.nodes output).map Node.normalize := by
  rcases output with - | (n | ns)
  · rfl
  · exact Markdown.parts_of_kind (by rw [Markdown.kind_normalize]; exact alone.2)
  · have textFree : ∀ n ∈ ns, ¬ n.isText := fun n member =>
      (regular n member).not_isText (alone n member)
    rw [toTree, Node.plain, Markdown.normalize_of_textFree textFree]
    rfl

/-- The nodes that an element gives as the only one of its document. -/
def nodesOf [UrlReader] (options : Options) (e : Element) : List Node :=
  Output.nodes ((standard.convert e.toNode none).run (State.start options e.toNode)).1

section Siblings

open Html (standaloneTags SelfContained)

variable (options : Options)

theorem outside_start [UrlReader] (tree : Html.Node) : ¬ (State.start options tree).inTable :=
  Bool.false_ne_true

theorem regular_nodesOf [UrlReader] (e : Element) : ∀ n ∈ nodesOf options e, n.Regular := by
  intro n member
  have yields := Markdown.sound_conversionInvariant.yields_anywhere e.toNode none
    (State.start options e.toNode)
  exact (yields.2 n member).self.regular

theorem blocks_of_siblings [UrlReader] {es : List Element}
    (named : ∀ e ∈ es, e.tag ∈ standaloneTags) :
    ∀ n ∈ es.flatMap (nodesOf options), n.Regular ∧ ¬ n.isPhrasing := by
  intro n member
  obtain ⟨e, inside, here⟩ := List.mem_flatMap.mp member
  have alone := standsAlone_convert (named e inside) none (outside_start options e.toNode)
  exact ⟨regular_nodesOf options e n here, alone.not_isPhrasing n here⟩

theorem parts_walkTree [UrlReader] {e : Element} (named : e.tag ∈ standaloneTags) :
    (walkTree options standard e.toNode).normalize.parts =
      (nodesOf options e).map Node.normalize :=
  Output.parts_toTree (standsAlone_convert named none (outside_start options _))
    (regular_nodesOf options e)

theorem nodes_start [UrlReader] {n : Html.Node} (apart : n.Throughout (Tagged SelfContained))
    (tree : Html.Node) :
    ((Walk.nodes standard.convert n none).run (State.start options tree)).1 =
      ((Walk.nodes standard.convert n none).run (State.start options n)).1 := by
  have started : State.start options tree =
      { State.start options n with elements := identified tree } := rfl
  rw [started, (independent_rules.convert apart none).blind]

theorem walkTree_siblings [UrlReader] {es : List Element} (named : ∀ e ∈ es, e.tag ∈ standaloneTags)
    (apart : ∀ e ∈ es, e.toNode.Throughout (Tagged SelfContained))
    (position : Option Position) :
    walkTree options standard (.root (es.map Element.toNode) position) =
      .parent .root { position } (es.flatMap (nodesOf options)) := by
  have walked : ∀ tree, (Walk.all standard.convert none (es.map Element.toNode)).run
      (State.start options tree) =
        (es.flatMap (nodesOf options), State.start options tree) := by
    intro tree
    have all : ∀ n ∈ es.map Element.toNode, n.Throughout (Tagged SelfContained) :=
      List.forall_mem_map.mpr apart
    rw [run_all_eq all none rfl, List.flatMap_map]
    congr 1
    exact List.flatMap_congr fun e member => nodes_start options (apart e member) tree
  have blocks := blocks_of_siblings options named
  have same := Markdown.wrap_of_blocks (fun n member => (blocks n member).1)
    fun n member => (blocks n member).2
  rw [walkTree_root, walked]
  dsimp only
  rw [same, ite_self]

def pageOf (position : Option Position) (es : List Element) : Html.Node :=
  .root (es.map Element.toNode) position

theorem selfContained_of_standalone {e : Element} (named : e.tag ∈ standaloneTags)
    (apart : ThroughoutAll (Tagged SelfContained) e.children) :
    e.toNode.Throughout (Tagged SelfContained) := by
  have plain : ∀ tag ∈ standaloneTags, tag ≠ "base" ∧ tag ≠ "input" := by decide
  have lower := (Html.isBlockTag_of_standalone e.tag named).2
  refine ⟨⟨?_, fun input => ?_⟩, apart⟩
  · rw [lower]
    exact (plain e.tag named).1
  · rw [lower] at input
    exact absurd input (plain e.tag named).2

def partsOf [UrlReader] (e : Element) : List Node := (convert options standard e.toNode).parts

theorem convert_pageOf [UrlReader] {es : List Element} (named : ∀ e ∈ es, e.tag ∈ standaloneTags)
    (apart : ∀ e ∈ es, ThroughoutAll (Tagged SelfContained) e.children)
    (position : Option Position) :
    convert options standard (pageOf position es) =
      .parent .root { position } (es.flatMap (partsOf options)) := by
  let small := es.map (Element.minify options.newlines)
  have smallNamed : ∀ e ∈ small, e.tag ∈ standaloneTags := List.forall_mem_map.mpr named
  have smallApart : ∀ e ∈ small, e.toNode.Throughout (Tagged SelfContained) := by
    refine List.forall_mem_map.mpr fun e member => ?_
    exact Html.throughout_minify Html.selfContained_minifiable options.newlines
      (selfContained_of_standalone (named e member) (apart e member))
  have textFree : ∀ n ∈ small.flatMap (nodesOf options), ¬ n.isText := by
    intro n member
    obtain ⟨regular, block⟩ := blocks_of_siblings options smallNamed n member
    exact regular.not_isText block
  have blocks : ∀ e ∈ es, isBlockTag e.tag := fun e member =>
    (Html.isBlockTag_of_standalone e.tag (named e member)).1
  have pieces : (small.flatMap (nodesOf options)).map Node.normalize =
      es.flatMap (partsOf options) := by
    rw [List.map_flatMap, List.flatMap_map]
    refine List.flatMap_congr fun e member => ?_
    exact (parts_walkTree options (e := e.minify options.newlines) (named e member)).symm
  calc convert options standard (pageOf position es)
    _ = (walkTree options standard (.root (small.map Element.toNode) position)).normalize := by
      rw [convert, pageOf, Html.minify_root options.newlines blocks]
    _ = (Node.parent .root { position } (small.flatMap (nodesOf options))).normalize := by
      rw [walkTree_siblings options smallNamed smallApart]
    _ = .parent .root { position } ((small.flatMap (nodesOf options)).map Node.normalize) :=
      Markdown.normalize_of_textFree textFree
    _ = .parent .root { position } (es.flatMap (partsOf options)) := by rw [pieces]

/-- Blocks are converted each for itself. The result for a list of them is made of the results for
each, so it is reordered and grouped as the list is. -/
theorem convert_siblings [UrlReader] (es : List Element) (position : Option Position)
    (named : ∀ e ∈ es, e.tag ∈ standaloneTags)
    (apart : ∀ e ∈ es, ThroughoutAll (Tagged SelfContained) e.children) :
    convert options standard (pageOf position es) =
        .parent .root { position } (es.flatMap (partsOf options)) ∧
      (∀ fs : List Element, fs.Perm es →
        (convert options standard (pageOf position fs)).children = fs.flatMap (partsOf options) ∧
        (convert options standard (pageOf position fs)).children.Perm
          (convert options standard (pageOf position es)).children) ∧
      ∀ groups : List (List Element), groups.flatten = es →
        (convert options standard (pageOf position es)).children =
          groups.flatMap fun group =>
            (convert options standard (pageOf position group)).children := by
  -- Each block gives its part whatever stands beside it; all else is about lists.
  have all : ∀ fs : List Element, (∀ e ∈ fs, e ∈ es) →
      convert options standard (pageOf position fs) =
        .parent .root { position } (fs.flatMap (partsOf options)) := by
    intro fs inside
    exact convert_pageOf options (fun e member => named e (inside e member))
      (fun e member => apart e (inside e member)) position
  have whole := all es fun e member => member
  refine ⟨whole, ?_, ?_⟩
  · intro fs reordered
    rw [all fs fun e member => reordered.mem_iff.mp member, whole]
    exact ⟨rfl, reordered.flatMap_right _⟩
  · rintro groups rfl
    have each : ∀ group ∈ groups, (convert options standard (pageOf position group)).children =
        group.flatMap (partsOf options) := by
      intro group member
      rw [all group fun e inside => List.mem_flatten_of_mem member inside]
      rfl
    calc (convert options standard (pageOf position groups.flatten)).children
      _ = groups.flatten.flatMap (partsOf options) := by rw [whole]; rfl
      _ = groups.flatMap fun group => group.flatMap (partsOf options) := by
        rw [← List.flatMap_id, List.flatMap_assoc]
        rfl
      _ = groups.flatMap fun group =>
          (convert options standard (pageOf position group)).children :=
        (List.flatMap_congr each).symm

def mixedBlocks : List Element :=
  let element (tag : String) (children : List Html.Node) : Element :=
    ⟨tag, OrderedMap.empty, children, none⟩
  [element "h2" [.text " a " none, (element "em" [.text "b " none]).toNode],
    element "div" [.text " c " none, (element "q" [.text "d" none]).toNode,
      (element "table" [(element "tr" [(element "td" [.text "e" none]).toNode]).toNode]).toNode],
    element "p" []]

theorem convert_siblings_mixedBlocks :
    (∀ e ∈ mixedBlocks, e.tag ∈ standaloneTags) ∧
      (∀ e ∈ mixedBlocks, ThroughoutAll (Tagged SelfContained) e.children) ∧
      (convert {} standard (pageOf none mixedBlocks.reverse)).children =
        mixedBlocks.reverse.flatMap (partsOf {}) := by
  have named : ∀ e ∈ mixedBlocks, e.tag ∈ standaloneTags := by decide
  have plain : ∀ tag ∈ ["em", "q", "table", "tr", "td"], ∀ properties,
      SelfContained tag properties := by
    have neither : ∀ tag ∈ ["em", "q", "table", "tr", "td"],
        Text.lower tag ≠ "base" ∧ Text.lower tag ≠ "input" := by decide
    intro tag member properties
    exact ⟨(neither tag member).1, fun input => absurd input (neither tag member).2⟩
  have apart : ∀ e ∈ mixedBlocks, ThroughoutAll (Tagged SelfContained) e.children := by
    simp [mixedBlocks, Element.toNode, ThroughoutAll, Html.Node.Throughout, Tagged, plain]
  have both := convert_siblings {} mixedBlocks none named apart
  exact ⟨named, apart, (both.2.1 _ mixedBlocks.reverse_perm).1⟩

end Siblings

end HtmlToMarkdown
