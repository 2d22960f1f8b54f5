import HtmlToMarkdown.Converter
import HtmlToMarkdown.Proofs.Ink.Conversion
import HtmlToMarkdown.Proofs.Inline.Spacing
import HtmlToMarkdown.Proofs.Normal.OneLine
import HtmlToMarkdown.Proofs.Siblings

namespace HtmlToMarkdown

open Handlers (Registered standard)
open Html (Element ThroughoutAll inlineTags signsOf)
open Html.Node (textOf)
open Markdown (Node)
open Markdown.Node (textContentOf)

/-- An action gives nodes that show exactly a text and are not trimmed. -/
structure Conversion.Shows (act : Conversion (List Node)) (text : String) : Prop where
  content (s : State) : textContentOf (act.run s).1 = text
  trimmed (s : State) : ∀ n ∈ (act.run s).1, n.Throughout Node.Trimmed

open Conversion (Shows)

section Walk

theorem shows_leaf (content : Markdown.Leaf) (origin : Markdown.Origin) :
    Shows (pure [.leaf content origin]) content.textContent where
  content _ := Markdown.textContentOf_leaf content origin
  trimmed _ := List.forall_mem_singleton.mpr (Node.throughout_leaf.mpr trivial)

variable {act more : Conversion (List Node)} {text rest : String} {walk : Walk}

theorem Conversion.Shows.append (shows : Shows act text) (showsMore : Shows more rest) :
    Shows (do return (← act) ++ (← more)) (text ++ rest) where
  content s := by
    have later := showsMore.content (act.run s).2
    rw [Conversion.run_append, Markdown.textContentOf_append, shows.content, later]
  trimmed s := List.forall_mem_append.mpr ⟨shows.trimmed s, showsMore.trimmed (act.run s).2⟩

theorem Conversion.Shows.placed (shows : Shows act text) (e : Element)
    (shapes : State → Markdown.Shape) (untrimmed : ∀ s, (shapes s).trimsEdges = false) :
    Shows (act.after fun s ns => [Handler.placed e (shapes s) ns]) text where
  content s := (Markdown.textContentOf_parent _ _ _).trans (shows.content s)
  trimmed s n member := by
    obtain rfl := List.mem_singleton.mp member
    exact Node.throughout_parent.mpr
      ⟨Node.trimmed_of_untrimmed (untrimmed _) _ _, shows.trimmed s⟩

theorem shows_handled {e : Element} (inline : e.tag ∈ inlineTags)
    (children : Shows (walk.children e) (textOf e.children)) (parent : Option Element) :
    ∃ handler, Registered e.tag handler ∧
      Shows (Output.nodes <$> handler walk e parent) (textOf e.children) := by
  have kinds : ∀ tag ∈ inlineTags, tag ∈ Handlers.passThroughTags ∨ tag = "a" ∨
      tag ∈ ["em", "i", "mark", "u"] ∨ tag ∈ ["b", "strong"] ∨ tag ∈ ["del", "s", "strike"] ∨
      tag ∈ ["code", "kbd", "samp", "tt", "var"] := by
    decide
  have marked : ∀ shape, shape.trimsEdges = false →
      Shows (Output.nodes <$> Handler.marked shape walk e parent) (textOf e.children) :=
    fun shape untrimmed => children.placed e (fun _ => shape) fun _ => untrimmed
  rcases kinds e.tag inline with member | isLink | member | member | member | member
  · exact ⟨_, .passThrough member, children⟩
  · refine ⟨Handler.link, isLink ▸ .link, ?_⟩
    rw [Handler.nodes_link]
    exact children.placed e _ fun _ => rfl
  · exact ⟨_, .emphasis member, marked .emphasis rfl⟩
  · exact ⟨_, .strong member, marked .strong rfl⟩
  · exact ⟨_, .delete member, marked .delete rfl⟩
  · refine ⟨_, .inlineCode member, ?_⟩
    have same : e.toText = textOf e.children :=
      Html.toText_inline inline e.properties e.children e.position
    rw [← same]
    exact shows_leaf (.inlineCode e.toText) _

mutual

theorem shows_convert {n : Html.Node} (inline : n.Throughout Html.Node.Inline)
    (parent : Option Element) : Shows (Walk.nodes standard.convert n parent) n.toText := by
  match n with
  | .root children position => exact inline.1.elim
  | .text value position =>
      have step := Handlers.step_of_kind (n := .text value position) standard.convert parent rfl
        Handlers.findKind?_text
      rw [Walk.nodes, Handlers.convert_eq, step, Handlers.nodes_filtered]
      exact shows_leaf (.text value) { position }
  | .comment value position => exact inline.elim
  | .doctype position => exact inline.elim
  | .element tag properties children position =>
      obtain ⟨⟨member, shown⟩, inside⟩ := inline
      let e : Element := ⟨tag, properties, children, position⟩
      have content : Shows (Walk.children standard.convert e) (textOf children) :=
        shows_convertAll inside (some e)
      obtain ⟨handler, registered, shows⟩ := shows_handled (e := e) member content parent
      rw [Html.toText_inline member]
      exact (nodes_convert shown registered parent).symm ▸ shows

theorem shows_convertAll {ns : List Html.Node} (inline : ThroughoutAll Html.Node.Inline ns)
    (parent : Option Element) : Shows (Walk.all standard.convert parent ns) (textOf ns) := by
  match ns with
  | [] => exact ⟨fun _ => rfl, fun _ => nofun⟩
  | n :: ns =>
      rw [Walk.all_cons]
      exact (shows_convert inline.1 parent).append (shows_convertAll inline.2 parent)

end

end Walk

section Paragraph

variable {e : Element} {position : Option Position}

theorem shows_paragraph (named : e.tag = "p") (shown : ¬ e.isIgnored)
    (inline : ThroughoutAll Html.Node.Inline e.children)
    (trimmed : Markdown.Trimmed true true (textOf e.children)) (parent : Option Element) :
    Shows (Walk.nodes standard.convert e.toNode parent) (textOf e.children) := by
  have registered : Registered e.tag Handler.paragraph := named ▸ .paragraph (by simp)
  have children : Shows (Walk.children standard.convert e) (textOf e.children) :=
    shows_convertAll inline (some e)
  rw [nodes_convert shown registered, Handler.nodes_paragraph]
  constructor
  · intro s
    have kept := (Markdown.textContentOf_dropSurroundingBreaks _).trans (children.content s)
    rw [Conversion.run_after]
    split
    next empty => rw [← kept, List.isEmpty_iff.mp empty]
    next => exact (Markdown.textContentOf_parent _ _ _).trans kept
  · intro s
    rw [Conversion.run_after]
    split
    next => exact nofun
    next =>
      intro n member
      obtain rfl := List.mem_singleton.mp member
      refine Node.throughout_parent.mpr ⟨?_, fun c inside => ?_⟩
      · rw [Node.Trimmed, Markdown.textContentOf_dropSurroundingBreaks, children.content]
        exact trimmed
      · exact children.trimmed s c (Markdown.mem_of_mem_dropSurroundingBreaks inside)

theorem walkTree_block [UrlReader] (options : Options) (named : e.tag ∈ Html.standaloneTags) :
    walkTree options standard (.root [e.toNode] position) =
      .parent .root { position } ((Walk.nodes standard.convert e.toNode none).run
        (State.start options (.root [e.toNode] position))).1 := by
  let start := State.start options (.root [e.toNode] position)
  have yields := Markdown.sound_conversionInvariant.yields_anywhere e.toNode none start
  have alone := standsAlone_convert named none (outside_start options (.root [e.toNode] position))
  have same := Markdown.wrap_of_blocks (fun n member => (yields.2 n member).self.regular)
    alone.not_isPhrasing
  rw [walkTree_root, Walk.all_singleton]
  dsimp only
  rw [same, ite_self]

theorem children_minify (named : e.tag = "p") :
    (e.minify false).children =
      (Html.minifyAll (.line true) true e.children).1.filter (!Html.isEmptyText ·) := by
  obtain ⟨tag, properties, children, position⟩ := e
  obtain rfl : tag = "p" := named
  have kind : Html.isBlockTag "p" ∧ ¬ Html.isPreformattedTag "p" := by decide
  have inside : (Html.Surroundings.mk false .normal false false).inside
      ⟨"p", properties, children, position⟩ =
        { Html.Surroundings.line true with before := true } := by
    simp [Html.Surroundings.inside, Html.whiteSpaceIn, Html.Surroundings.line, kind]
  change (Html.minifyNode _ (.element "p" properties children position)).1.children = _
  rw [Html.minifyNode, inside, Html.minifyAll_before]
  rfl

theorem textOf_minify (named : e.tag = "p") (inline : ThroughoutAll Html.Node.Inline e.children) :
    (textOf (e.minify false).children).toList =
      (Html.settled true true (signsOf e.children)).1 := by
  have whole := Html.settled_nodes inline true true []
  rw [List.append_nil] at whole
  rw [children_minify named, Html.textOf_filter, whole]
  simp [Html.settled, Html.sees, Html.seesFrom]

theorem inline_minifiable : Html.Minifiable Html.Node.Inline where
  root holds := holds
  element holds _ := holds
  text _ _ := trivial

/-- A paragraph of inline markup is converted to the text that minification leaves in it. -/
theorem textContent_convert_paragraph [UrlReader] (named : e.tag = "p") (shown : ¬ e.isIgnored)
    (inline : ThroughoutAll Html.Node.Inline e.children) :
    (convert {} standard (.root [e.toNode] position)).textContent.toList =
      (Html.settled true true (signsOf e.children)).1 := by
  let small := e.minify false
  let start := State.start {} (.root [small.toNode] position)
  have standalone : small.tag ∈ Html.standaloneTags := by
    have member : "p" ∈ Html.standaloneTags := by decide
    exact named ▸ member
  have block : Html.isBlockTag e.tag := (Html.isBlockTag_of_standalone small.tag standalone).1
  have minified : (Html.Node.root [e.toNode] position).minify false =
      .root [small.toNode] position :=
    @Html.minify_root false [e] (List.forall_mem_singleton.mpr block) position
  have text := textOf_minify named inline
  obtain ⟨space, front, back⟩ := Html.tidy_settled true (signsOf e.children)
  rw [← text] at space front back
  have trimmed : Markdown.Trimmed true true (textOf small.children) :=
    ⟨fun _ c found blank => front rfl c found (isWhite_of_isTabOrSpace blank),
      fun _ c found blank => back c found (isWhite_of_isTabOrSpace blank)⟩
  have oneLine : Markdown.OneLine (textOf small.children) := by
    intro c member lineEnd
    rw [space c member (isWhite_of_isLineEnd lineEnd)] at lineEnd
    exact absurd lineEnd (by decide)
  have inlineSmall : ThroughoutAll Html.Node.Inline small.children := by
    rw [children_minify named]
    exact (Html.throughout_minifyAll inline_minifiable _ _ inline).filter _
  have shows := shows_paragraph (e := small) named shown inlineSmall trimmed none
  let page : Node := .parent .root { position }
    ((Walk.nodes standard.convert small.toNode none).run start).1
  have content : page.textContent = textOf small.children := shows.content start
  have rooted : page.Throughout Node.Trimmed := by
    refine Node.throughout_parent.mpr ⟨?_, shows.trimmed start⟩
    rw [Node.Trimmed, shows.content]
    exact trimmed
  have normal := Markdown.textContent_normalize rooted (content ▸ oneLine)
  calc (convert {} standard (.root [e.toNode] position)).textContent.toList
    _ = page.normalize.textContent.toList := by
      rw [convert, minified, walkTree_block {} standalone]
    _ = (textOf small.children).toList := by rw [normal, content]
    _ = (Html.settled true true (signsOf e.children)).1 := text

end Paragraph

open Html (KeepsSpaces spaced)

/-- The words of a paragraph of inline markup stay apart, with one space for each run of white
space, if and only if no run is cut off; without hidden elements none is. -/
theorem convert_paragraph [UrlReader] {e : Element} (named : e.tag = "p") (shown : ¬ e.isIgnored)
    (inline : ThroughoutAll Html.Node.Inline e.children) (position : Option Position) :
    ((convert {} standard (.root [e.toNode] position)).textContent.toList =
        spaced e.toText.toList ↔ KeepsSpaces (signsOf e.children)) ∧
      (ThroughoutAll Html.Node.Shown e.children →
        (convert {} standard (.root [e.toNode] position)).textContent.toList =
          spaced e.toText.toList) := by
  have text : e.toText = textOf e.children := by
    rw [Element.toText, Element.toNode, Html.Node.toText, named]
    rfl
  have exact_iff : (convert {} standard (.root [e.toNode] position)).textContent.toList =
      spaced e.toText.toList ↔ KeepsSpaces (signsOf e.children) := by
    rw [textContent_convert_paragraph named shown inline, text, ← Html.charsOf_signsOf inline]
    exact Html.settled_eq_spaced_iff (signsOf e.children)
  refine ⟨exact_iff, fun visible => exact_iff.mpr ?_⟩
  exact Html.keepsSpaces_of_shown (Html.opening_notMem_signsOf inline visible)

def shortcutHint : Element :=
  let hidden : Html.Properties := ⟨[("hidden", .flag true)], by decide⟩
  ⟨"p", OrderedMap.empty, [
    .text " Save" none,
    .element "b" OrderedMap.empty [.text "\n all " none] none,
    .element "span" hidden [.text "(Ctrl S) " none] none,
    .text " now " none], none⟩

theorem convert_paragraph_shortcutHint :
    shortcutHint.tag = "p" ∧ ¬ shortcutHint.isIgnored ∧
      ThroughoutAll Html.Node.Inline shortcutHint.children ∧
      (convert {} standard (.root [shortcutHint.toNode] none)).textContent.toList =
        "Save all (Ctrl S) now".toList := by
  have shown : ¬ shortcutHint.isIgnored := by decide
  have inline : ThroughoutAll Html.Node.Inline shortcutHint.children := by
    simp only [shortcutHint, ThroughoutAll, Html.Node.Throughout, Html.Node.Inline]
    decide
  have keeps : KeepsSpaces (signsOf shortcutHint.children) :=
    (Html.settled_eq_spaced_iff _).mp (by decide +kernel)
  have words : spaced shortcutHint.toText.toList = "Save all (Ctrl S) now".toList := by
    decide +kernel
  exact ⟨rfl, shown, inline, words ▸ (convert_paragraph rfl shown inline none).1.mpr keeps⟩

def hiddenWord : Element :=
  ⟨"p", OrderedMap.empty, [
    .text "a " none,
    .element "span" ⟨[("hidden", .flag true)], by decide⟩ [.text "b" none] none], none⟩

/-- The space between the words is dropped, since no character is seen after it. -/
theorem not_convert_paragraph :
    hiddenWord.tag = "p" ∧ ¬ hiddenWord.isIgnored ∧
      ThroughoutAll Html.Node.Inline hiddenWord.children ∧
      (convert {} standard (.root [hiddenWord.toNode] none)).textContent.toList = ['a', 'b'] ∧
      spaced hiddenWord.toText.toList = ['a', ' ', 'b'] := by
  have shown : ¬ hiddenWord.isIgnored := by decide
  have inline : ThroughoutAll Html.Node.Inline hiddenWord.children := by
    simp only [hiddenWord, ThroughoutAll, Html.Node.Throughout, Html.Node.Inline]
    decide
  have content := @textContent_convert_paragraph _ none _ rfl shown inline
  exact ⟨rfl, shown, inline, content.trans (by decide +kernel), by decide +kernel⟩

end HtmlToMarkdown
