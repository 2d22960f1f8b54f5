import HtmlToMarkdown.Converter
import HtmlToMarkdown.Proofs.Ink.Minify
import HtmlToMarkdown.Proofs.Source.Decoded
import HtmlToMarkdown.Proofs.Text.Lower
import HtmlToMarkdown.Proofs.WellFormed

namespace HtmlToMarkdown

open Conversion (Yields)
open Handlers (Registered StepRules)
open Html (Element)
open Html.Node (textOf)
open Markdown (Node)
open Markdown.Node (textContentOf)

namespace Html

/-- Tags of elements that show something other than their text. -/
def replacedTags : List String :=
  Handlers.ignoredTags ++ ["base", "dl", "iframe", "image", "img", "input", "q", "select", "wbr"]

structure Element.Legible (e : Element) : Prop where
  shown : ¬ e.isIgnored
  unreplaced : Text.lower e.tag ∉ replacedTags
  emptyRule : e.tag = "hr" → e.children = []

/-- The text at a node is what it shows, and no comment. -/
def Node.Legible : Node → Prop
  | .element tag properties children position =>
    Element.Legible ⟨tag, properties, children, position⟩
  | .comment _ _ => False
  | _ => True

def Node.Readable (n : Node) : Prop := n.Lowered ∧ n.Legible

theorem readable_minifiable : Minifiable Node.Readable where
  root holds := holds
  element holds none :=
    ⟨holds.1, holds.2.shown, holds.2.unreplaced, fun rule => none (holds.2.emptyRule rule)⟩
  text holds _ := holds

theorem toText_br {e : Element} (br : e.tag = "br") : e.toNode.toText = "\n" := by
  rw [Element.toNode, Node.toText, if_pos (beq_iff_eq.mpr br)]

theorem Element.Legible.toText {e : Element} (legible : e.Legible) (notBr : e.tag ≠ "br") :
    e.toNode.toText = textOf e.children := by
  have textual : ¬ (e.tag == "script" || e.tag == "style" || e.tag == "template") := by
    intro none
    simp only [Bool.or_eq_true, beq_iff_eq] at none
    apply legible.unreplaced
    rcases none with (same | same) | same <;> rw [same] <;> decide
  rw [Element.toNode, Node.toText, if_neg (by simpa using notBr), if_neg textual]

end Html

/-- An action gives nodes of the right shape, with the ink of a text. -/
structure Conversion.Renders (act : Conversion (List Node)) (text : String) : Prop where
  sound : Yields (fun t n => n.Throughout (Node.Sound t)) act
  ink (s : State) : ink (textContentOf (act.run s).1) = ink text

def Conversion.RendersNode (n : Html.Node) (act : Conversion (List Node)) : Prop :=
  Yields (fun t n => n.Throughout (Node.Sound t)) act ∧
    (n.Throughout Html.Node.Readable →
      ∀ s, ink (textContentOf (act.run s).1) = ink n.toText)

namespace Conversion.Renders

theorem append {act more : Conversion (List Node)} {text rest : String}
    (renders : Renders act text) (rendersMore : Renders more rest) :
    Renders (do return (← act) ++ (← more)) (text ++ rest) where
  sound := renders.sound.append rendersMore.sound
  ink s := by
    have first := renders.ink s
    have second := rendersMore.ink (act.run s).2
    rw [ink_append, ← first, ← second]
    exact Markdown.ink_textContentOf_append _ _

theorem all {walk : Walk} (each : ∀ n parent, RendersNode n (walk.nodes n parent))
    {ns : List Html.Node} (readable : Html.ThroughoutAll Html.Node.Readable ns)
    (parent : Option Element) : Renders (walk.all parent ns) (textOf ns) := by
  induction ns with
  | nil => exact ⟨Yields.none, fun _ => rfl⟩
  | cons n ns ih =>
      obtain ⟨here, rest⟩ := readable
      have first : Renders (walk.nodes n parent) n.toText :=
        ⟨(each n parent).1, (each n parent).2 here⟩
      rw [Walk.all_cons]
      exact first.append (ih rest)

theorem after {act : Conversion (List Node)} {text : String} (renders : Renders act text)
    {f : State → List Node → List Node}
    (kept : ∀ s ns, (∀ n ∈ ns, n.Throughout Node.Regular) →
      HtmlToMarkdown.ink (textContentOf (f s ns)) = HtmlToMarkdown.ink (textContentOf ns))
    (s : State) :
    HtmlToMarkdown.ink (textContentOf ((act.after f).run s).1) = HtmlToMarkdown.ink text := by
  have regular : ∀ n ∈ (act.run s).1, n.Throughout Node.Regular :=
    fun n member => ((renders.sound s).2 n member).mono fun _ sound => sound.regular
  calc
    _ = HtmlToMarkdown.ink (textContentOf (act.run s).1) := kept _ _ regular
    _ = HtmlToMarkdown.ink text := renders.ink s

end Conversion.Renders

theorem Markdown.textContentOf_parent (shape : Markdown.Shape) (origin : Markdown.Origin)
    (ns : List Node) : textContentOf [.parent shape origin ns] = textContentOf ns := by
  rw [textContentOf, textContentOf, Node.textContent, String.append_empty]

theorem Markdown.textContentOf_leaf (content : Markdown.Leaf) (origin : Markdown.Origin) :
    textContentOf [.leaf content origin] = content.textContent := by
  rw [textContentOf, textContentOf, Node.textContent, String.append_empty]

section Handlers

open Conversion (Renders RendersNode)
open Handler (placed placedLeaf)

variable {walk : Walk} {e : Element} {parent : Option Element}

theorem leadingToggle_of_readable {ns : List Html.Node}
    (readable : Html.ThroughoutAll Html.Node.Readable ns) : Handler.leadingToggle ns = none := by
  fun_induction Handler.leadingToggle ns with
  | case1 tag properties children position rest head toggle =>
      exfalso
      have input : tag = "input" := eq_of_beq (Bool.and_eq_true_iff.mp toggle).1
      have unreplaced : Text.lower tag ∉ Html.replacedTags := readable.1.1.2.unreplaced
      rw [input] at unreplaced
      exact absurd (by decide) unreplaced
  | case2 tag properties children position rest head notToggle paragraph =>
      rename_i ih
      rw [ih readable.1.2]
      rfl
  | case3 => rfl
  | case4 => rfl

theorem textContentOf_builtTable (e : Element) (ns : List Node)
    (spans : List (List Html.CellSpan)) :
    textContentOf [Handler.builtTable e ns spans] = textContentOf ns := by
  have kinds : ∀ r ∈ Markdown.coerce Markdown.emptyRow ns, r.kind = .tableRow :=
    Markdown.kind_of_mem_coerce
  have rows := Markdown.textContentOf_rectangle (Handler.layout e).headless
    (Handler.layout e).align spans kinds
  have coerced : textContentOf (Markdown.coerce Markdown.emptyRow ns) = textContentOf ns :=
    Markdown.textContentOf_coerce .tableRow ns
  calc
    _ = textContentOf (Markdown.rectangle (Handler.layout e).headless (Handler.layout e).align
        (Markdown.coerce Markdown.emptyRow ns) spans).2 := Markdown.textContentOf_parent _ _ _
    _ = textContentOf (Markdown.coerce Markdown.emptyRow ns) := rows
    _ = textContentOf ns := coerced

theorem textContentOf_shownMedia (s : State) (e : Element) (ns : List Node) :
    textContentOf (Handler.shownMedia s e ns) = textContentOf ns := by
  unfold Handler.shownMedia
  split
  · rfl
  · exact Markdown.textContentOf_leaf _ _

theorem ink_handled (each : ∀ n parent, RendersNode n (walk.nodes n parent)) {key : String}
    {handler : TagHandler} (registered : Registered key handler) (named : Text.lower e.tag = key)
    (readable : e.toNode.Throughout Html.Node.Readable) (s : State) :
    ink (textContentOf ((Output.nodes <$> handler walk e parent).run s).1) =
      ink e.toNode.toText := by
  obtain ⟨lowered, legible⟩ : e.toNode.Readable := readable.self
  have replaced : key ∉ Html.replacedTags := named ▸ legible.unreplaced
  have children : Renders (walk.children e) (textOf e.children) :=
    Renders.all each readable.2 (some e)
  by_cases br : e.tag = "br"
  · have isBr : key = "br" := by
      rw [← named, br]
      decide
    have only : handler = Handler.lineBreak := (isBr ▸ registered).unique .lineBreak
    subst only
    rw [Html.toText_br br]
    rfl
  · have text : e.toNode.toText = textOf e.children := Html.Element.Legible.toText legible br
    have parented : ∀ (shape : Markdown.Shape) (ns : List Node),
        ink (textContentOf [placed e shape ns]) = ink (textContentOf ns) := fun shape ns =>
      congrArg ink (Markdown.textContentOf_parent shape _ ns)
    have marked : ∀ shape,
        ink (textContentOf ((Output.nodes <$> Handler.marked shape walk e parent).run s).1) =
          ink e.toNode.toText := by
      intro shape
      rw [text]
      exact children.after (fun _ ns _ => parented shape ns) s
    cases registered with
    | ignore member => exact absurd (List.mem_append_left _ member) replaced
    | base | definitionList | iframe | input | select | quote | wordBreak =>
        exact absurd (by decide) replaced
    | image member =>
        rcases List.mem_cons.mp member with rfl | other
        · exact absurd (by decide) replaced
        · rw [List.mem_singleton.mp other] at replaced
          exact absurd (by decide) replaced
    | passThrough => rw [text]; exact children.ink s
    | flow =>
        rw [text]
        exact children.after (fun _ ns regular => Markdown.ink_wrap regular) s
    | link =>
        rw [text]
        exact children.after (fun _ ns _ => parented _ ns) s
    | media =>
        rw [text, Handler.nodes_media]
        refine children.after (fun s ns _ => ?_) s
        split
        · rfl
        · rw [parented, textContentOf_shownMedia]
    | emphasis => exact marked .emphasis
    | strong => exact marked .strong
    | delete => exact marked .delete
    | blockquote =>
        rw [text]
        exact children.after
          (fun _ ns regular => (parented _ _).trans (Markdown.ink_wrap regular)) s
    | lineBreak => exact absurd (Text.eq_of_lower_eq lowered named (by decide)) br
    | inlineCode => exact congrArg ink (Markdown.textContentOf_leaf _ _)
    | listItem =>
        have whole : (Handler.taskOf e).2 = e.children := by
          rw [Handler.taskOf, leadingToggle_of_readable readable.2]
        rw [text, Handler.nodes_listItem, whole]
        exact children.after
          (fun _ ns regular => (parented _ _).trans (Markdown.ink_wrap regular)) s
    | list =>
        rw [text, Handler.nodes_list]
        refine children.after (fun _ ns _ => ?_) s
        dsimp only
        rw [parented]
        exact congrArg ink (Markdown.textContentOf_coerce (.listItem false none) ns)
    | heading =>
        rw [text]
        exact children.after (fun _ ns _ => (parented _ _).trans
          (congrArg ink (Markdown.textContentOf_dropSurroundingBreaks ns))) s
    | thematicBreak =>
        have rule : e.tag = "hr" := Text.eq_of_lower_eq lowered named (by decide)
        rw [text, legible.emptyRule rule]
        rfl
    | textarea => exact congrArg ink (Markdown.textContentOf_leaf _ _)
    | code =>
        have trimmed : ink (Text.trimTrailingLines e.toText) = ink e.toText := by
          rw [Text.trimTrailingLines, ink_ofList]
          exact inkOf_dropRightWhile (fun _ => isWhite_of_isLineEnd) _
        exact (congrArg ink (Markdown.textContentOf_leaf _ _)).trans trimmed
    | paragraph =>
        rw [text, Handler.nodes_paragraph]
        refine children.after (fun _ ns _ => ?_) s
        have kept := Markdown.textContentOf_dropSurroundingBreaks ns
        split
        next none => rw [← kept, List.isEmpty_iff.mp none]
        next => rw [parented, kept]
    | table =>
        rw [Handler.run_table]
        split
        · exact congrArg ink (Markdown.textContentOf_leaf _ _)
        · rw [text, ← children.ink { s with inTable := true, spanFrames := [] :: s.spanFrames }]
          exact congrArg ink (textContentOf_builtTable e _ _)
    | tableRow =>
        rw [text, Handler.nodes_tableRow, Conversion.run_modify]
        refine children.after (fun _ ns _ => ?_) _
        rw [parented]
        exact congrArg ink (Markdown.textContentOf_coerce .tableCell ns)
    | tableCell =>
        rw [text, Handler.nodes_tableCell, Conversion.run_modify]
        exact children.after (fun _ ns _ => parented _ ns) _

theorem rendersNode_rules (each : ∀ n parent, RendersNode n (walk.nodes n parent)) :
    StepRules walk RendersNode := by
  have sound := Markdown.sound_conversionInvariant.stepRules_anywhere fun n parent =>
    (each n parent).1
  apply sound.and
  exact {
    ignored := fun e marked readable => absurd marked readable.self.2.shown
    handled := fun e parent handler shown registered readable s =>
      ink_handled each registered rfl readable s
    unhandled := by
      intro e shown unknown readable s
      have notBr : e.tag ≠ "br" := by
        intro br
        rw [br, Handlers.find?_of_registered .lineBreak] at unknown
        cases unknown
      rw [readable.self.2.toText notBr]
      exact (Renders.all each readable.2 (some e)).ink s
    root := by
      intro children position parent readable s
      rw [Handler.nodes_root]
      refine (Renders.all each readable.2 none).after (fun s ns regular => ?_) s
      rw [Markdown.textContentOf_parent]
      split
      · exact Markdown.ink_wrap regular
      · rfl
    text := fun value position _ _ => congrArg ink (Markdown.textContentOf_leaf _ _)
    comment := fun value position readable => absurd readable.self.2 id
    doctype := fun position _ _ => rfl }

theorem rendersNode_convert (n : Html.Node) (parent : Option Element) :
    RendersNode n (Walk.nodes Handlers.standard.convert n parent) := by
  have possible : ∀ n, RendersNode n (pure [.text n.toText]) := by
    intro n
    refine ⟨Yields.single fun t => ?_, fun _ _ => ?_⟩
    · exact Markdown.sound_conversionInvariant.leaf t _ ConversionInvariant.unplaced
    · exact congrArg ink (Markdown.textContentOf_leaf (.text n.toText) {})
  exact @Handlers.convert_induction RendersNode (fun n => ⟨_, possible n⟩)
    (fun _ each => rendersNode_rules each) n parent

theorem Output.textContent_toTree (output : Option Output) :
    (Output.toTree output).textContent = textContentOf (Output.nodes output) := by
  rcases Output.toTree_cases output with single | several
  · rw [single, textContentOf, textContentOf, String.append_empty]
  · rw [several]
    rfl

/-- A conversion loses, doubles and moves no character of a tree whose text is all meant to be
read, white space apart. -/
theorem ink_convert [UrlReader] (options : Options) {tree : Html.Node}
    (lowered : tree.Throughout Html.Node.Lowered) (legible : tree.Throughout Html.Node.Legible) :
    ink (convert options Handlers.standard tree).textContent = ink tree.toText := by
  let small := tree.minify options.newlines
  have readable : small.Throughout Html.Node.Readable :=
    Html.throughout_minify Html.readable_minifiable _ (lowered.and legible)
  calc ink (convert options Handlers.standard tree).textContent
    _ = ink (walkTree options Handlers.standard small).textContent := Markdown.ink_normalize _
    _ = ink (textContentOf
          ((Walk.nodes Handlers.standard.convert small none).run (State.start options small)).1) :=
      congrArg ink (Output.textContent_toTree _)
    _ = ink small.toText := (rendersNode_convert small none).2 readable _
    _ = ink tree.toText := Html.ink_minify _ tree

def tabledPage : Html.Node :=
  let element (tag : String) (children : List Html.Node) : Html.Node :=
    .element tag OrderedMap.empty children none
  .root [
    element "p" [.text " a " none, element "em" [.text "b" none], element "br" []],
    element "table" [element "tr" [element "td" [.text "c" none]]],
    element "hr" []] none

theorem ink_convert_tabledPage :
    tabledPage.Throughout Html.Node.Lowered ∧ tabledPage.Throughout Html.Node.Legible ∧
      ink (convert {} Handlers.standard tabledPage).textContent = ['a', 'b', 'c'] := by
  have lowered : tabledPage.Throughout Html.Node.Lowered := by
    simp only [tabledPage, Html.Node.Throughout, Html.ThroughoutAll, Html.Node.Lowered, true_and,
      and_true]
    decide
  have legible : tabledPage.Throughout Html.Node.Legible := by
    have shown : ∀ tag ∈ ["p", "em", "br", "table", "tr", "td"], ∀ children,
        Html.Element.Legible ⟨tag, OrderedMap.empty, children, none⟩ := by
      intro tag member children
      have unreplaced : ∀ tag ∈ ["p", "em", "br", "table", "tr", "td"],
          Text.lower tag ∉ Html.replacedTags ∧ tag ≠ "hr" := by decide
      obtain ⟨legible, notRule⟩ := unreplaced tag member
      exact ⟨Bool.false_ne_true, legible, fun rule => absurd rule notRule⟩
    have rule : Html.Element.Legible ⟨"hr", OrderedMap.empty, [], none⟩ :=
      ⟨by decide, by decide, fun _ => rfl⟩
    simp only [tabledPage, Html.Node.Throughout, Html.ThroughoutAll, Html.Node.Legible, true_and,
      and_true]
    exact ⟨⟨shown _ (by simp) _, shown _ (by simp) _, shown _ (by simp) _⟩,
      ⟨shown _ (by simp) _, shown _ (by simp) _, shown _ (by simp) _⟩, rule⟩
  exact ⟨lowered, legible, (ink_convert {} lowered legible).trans (by decide)⟩

end Handlers

end HtmlToMarkdown
