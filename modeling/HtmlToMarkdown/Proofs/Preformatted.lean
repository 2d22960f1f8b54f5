import HtmlToMarkdown.Converter
import HtmlToMarkdown.Proofs.Siblings
import HtmlToMarkdown.Proofs.Whitespace.Repeated

/-!
Preformatted content. A code block takes the text of its element as minification leaves it, with all
markup in it gone. White space is kept in such an element and in whatever is in it, except where an
element in it asks for lines without breaks: there runs of white space are collapsed, and kept again
inside of a preformatted element further down.
-/

namespace HtmlToMarkdown

namespace Html

open Node (textOf)

mutual

/-- The text of a node in a preformatted element, `mode` being how white space is treated there. -/
def Node.keptText (newlines : Bool) (mode : WhiteSpace) : Node → String
  | .text value _ =>
    if mode = .verbatim then value else String.ofList (collapse newlines value.toList)
  | .root children _ => keptTextOf newlines mode children
  | .element tag properties children position =>
    if tag == "br" then "\n"
    else if tag == "script" || tag == "style" || tag == "template" then ""
    else keptTextOf newlines (whiteSpaceIn ⟨tag, properties, children, position⟩ mode) children
  | .comment _ _ => ""
  | .doctype _ => ""

def keptTextOf (newlines : Bool) (mode : WhiteSpace) : List Node → String
  | [] => ""
  | n :: ns => n.keptText newlines mode ++ keptTextOf newlines mode ns

end

/-- An element in preformatted content that leaves the white space in it as it is. -/
def Node.KeepsSpace : Node → Prop
  | .element tag properties children position =>
    whiteSpaceIn ⟨tag, properties, children, position⟩ .verbatim = .verbatim
  | _ => True

mutual

theorem keptText_of_keepsSpace (newlines : Bool) {n : Node} (keeps : n.Throughout Node.KeepsSpace) :
    n.keptText newlines .verbatim = n.toText := by
  match n with
  | .text value position => rfl
  | .root children position => exact keptTextOf_of_keepsSpace newlines keeps.2
  | .element tag properties children position =>
      have mode : whiteSpaceIn ⟨tag, properties, children, position⟩ .verbatim = .verbatim :=
        keeps.1
      rw [Node.keptText, Node.toText, mode, keptTextOf_of_keepsSpace newlines keeps.2]
  | .comment value position => rfl
  | .doctype position => rfl

theorem keptTextOf_of_keepsSpace (newlines : Bool) {ns : List Node}
    (keeps : ThroughoutAll Node.KeepsSpace ns) : keptTextOf newlines .verbatim ns = textOf ns := by
  match ns with
  | [] => rfl
  | n :: ns =>
      rw [keptTextOf, textOf, keptText_of_keepsSpace newlines keeps.1,
        keptTextOf_of_keepsSpace newlines keeps.2]

end

theorem minifyText_special (cx : Surroundings) (special : cx.whiteSpace ≠ .normal)
    (value : String) :
    minifyText cx value =
      (if cx.whiteSpace = .verbatim then value
        else String.ofList (collapse cx.newlines value.toList), .kept false) := by
  cases treated : cx.whiteSpace with
  | normal => exact absurd treated special
  | verbatim => simp [minifyText, treated]
  | nowrap => simp [minifyText, treated]

mutual

theorem toText_minifyNode (cx : Surroundings) (special : cx.whiteSpace ≠ .normal) (n : Node) :
    (minifyNode cx n).1.toText = n.keptText cx.newlines cx.whiteSpace ∧
      (minifyNode cx n).2 ≠ .removed := by
  match n with
  | .text value position =>
      rw [minifyNode, minifyText_special cx special]
      exact ⟨rfl, nofun⟩
  | .root children position =>
      refine ⟨?_, nofun⟩
      rw [minifyNode, Node.toText, textOf_filter]
      exact textOf_minifyAll { cx with after := true } special true children
  | .element tag properties children position =>
      refine ⟨?_, nofun⟩
      let inner := cx.inside ⟨tag, properties, children, position⟩
      have inside : textOf (minifyAll inner inner.before children).1 =
          keptTextOf cx.newlines inner.whiteSpace children :=
        textOf_minifyAll inner (whiteSpaceIn_ne_normal special _) inner.before children
      rw [minifyNode, Node.toText, Node.keptText, textOf_filter, inside]
      rfl
  | .comment value position => exact ⟨rfl, nofun⟩
  | .doctype position => exact ⟨rfl, nofun⟩

theorem textOf_minifyAll (cx : Surroundings) (special : cx.whiteSpace ≠ .normal) (before : Bool)
    (ns : List Node) :
    textOf (minifyAll cx before ns).1 = keptTextOf cx.newlines cx.whiteSpace ns := by
  match ns with
  | [] => rfl
  | n :: ns =>
      let around : Surroundings :=
        { cx with before := before, after := (boundary ns).getD cx.after }
      obtain ⟨same, stays⟩ := toText_minifyNode around special n
      have rest := fun strip => textOf_minifyAll cx special strip ns
      rw [minifyAll]
      dsimp only
      rw [if_neg stays, textOf, keptTextOf, rest]
      exact congrArg (· ++ _) same

end

def firstProperties (tag : String) (ns : List Node) : Option Properties :=
  ((ns.filterMap Node.asElement?).find? (·.tag == tag)).map (·.properties)

theorem ThinnedAll.firstProperties_eq {tag : String} {ns ms : List Node}
    (thinned : ThinnedAll ns ms) : firstProperties tag ms = firstProperties tag ns := by
  induction ns generalizing ms with
  | nil =>
      cases thinned
      rfl
  | cons n ns ih =>
      cases thinned with
      | removed _ rest => exact ih rest
      | kept here rest =>
          have later := ih rest
          cases here with
          | root | text | comment | doctype => exact later
          | element =>
              unfold firstProperties at later ⊢
              simp only [List.filterMap_cons, Node.asElement?, List.find?_cons]
              split
              · rfl
              · exact later

end Html

open Handlers (standard)
open Html (Element ThroughoutAll)
open Markdown (Node wrap)

namespace Handler

open Html (firstProperties)

theorem language_minify (newlines : Bool) (e : Element) :
    language (e.minify newlines) = language e := by
  let named (properties : Html.Properties) : Option String :=
    ((Element.mk "code" properties [] none).classes.findSome? languageOfClass).filter (· != "")
  have read : ∀ e : Element, language e =
      if e.tag == "pre" then (firstProperties "code" e.children).bind named else none := by
    intro e
    unfold language firstProperties Element.elementChildren
    cases (e.children.filterMap Html.Node.asElement?).find? (·.tag == "code") <;> rfl
  have thinned : Html.ThinnedAll e.children (e.minify newlines).children := by
    have whole := Html.thinned_minify newlines e.toNode
    rw [Element.toNode, Html.Node.minify, Html.minifyNode] at whole
    cases whole with
    | element inside => exact inside
  rw [read, read, thinned.firstProperties_eq]
  rfl

end Handler

section Code

def codeTags : List String := ["listing", "plaintext", "pre", "xmp"]

def codeBlock (e : Element) (text : String) : Node :=
  Handler.placedLeaf e (.code (Handler.language e) none (Text.trimTrailingLines text))

variable {e : Element} (named : e.tag ∈ codeTags)

include named

theorem toText_minify_code (newlines : Bool) :
    (e.minify newlines).toText = e.toNode.keptText newlines .verbatim := by
  have special : ∀ tag ∈ codeTags, Html.isPreformattedTag tag ∧ tag ≠ "br" ∧ tag ≠ "script" ∧
      tag ≠ "style" ∧ tag ≠ "template" := by
    decide +kernel
  obtain ⟨preformatted, isText⟩ := special e.tag named
  have mode : ∀ outer, Html.whiteSpaceIn e outer = .verbatim := by
    intro outer
    simp [Html.whiteSpaceIn, preformatted]
  have shown : ∀ {α : Type} (a b c : α), (if e.tag == "br" then a
      else if e.tag == "script" || e.tag == "style" || e.tag == "template" then b else c) = c := by
    simp [isText]
  let inner := (Html.Surroundings.mk newlines .normal false false).inside e
  have inside : inner.whiteSpace = .verbatim := mode .normal
  have text := Html.textOf_minifyAll inner (by simp [inside]) inner.before e.children
  calc (e.minify newlines).toText
    _ = Html.Node.textOf ((Html.minifyAll inner inner.before e.children).1.filter
          (!Html.isEmptyText ·)) := shown _ _ _
    _ = Html.keptTextOf newlines .verbatim e.children := by
      rw [Html.textOf_filter, text, inside]
      rfl
    _ = Html.keptTextOf newlines (Html.whiteSpaceIn e .verbatim) e.children := by rw [mode]
    _ = e.toNode.keptText newlines .verbatim := (shown _ _ _).symm

theorem convert_code [UrlReader] (shown : ¬ e.isIgnored) (options : Options)
    (position : Option Position) :
    convert options standard (.root [e.toNode] position) =
      .parent .root { position } [codeBlock e (e.minify options.newlines).toText] := by
  let small := e.minify options.newlines
  let code := codeBlock e small.toText
  have block : Html.isBlockTag e.tag := by
    have all : ∀ tag ∈ codeTags, Html.isBlockTag tag := by decide +kernel
    exact all e.tag named
  have minified : (Html.Node.root [e.toNode] position).minify options.newlines =
      .root [small.toNode] position :=
    @Html.minify_root options.newlines [e] (List.forall_mem_singleton.mpr block) position
  have nodes : Walk.nodes standard.convert small.toNode none = pure [code] := by
    have same : code = codeBlock small small.toText := by
      rw [codeBlock, Handler.language_minify]
      rfl
    rw [nodes_convert (e := small) shown (.code named), same]
    rfl
  have flow : wrap [code] = [code] :=
    Markdown.wrap_of_blocks (List.forall_mem_singleton.mpr rfl)
      (List.forall_mem_singleton.mpr Bool.false_ne_true)
  have walked : walkTree options standard (.root [small.toNode] position) =
      .parent .root { position } [code] := by
    rw [walkTree_root, Walk.all_singleton, nodes]
    dsimp only
    change Node.parent _ _ (if _ then wrap [code] else [code]) = _
    rw [flow, ite_self]
  rw [convert, minified, walked]
  exact Markdown.normalize_of_textFree (List.forall_mem_singleton.mpr Bool.false_ne_true)

end Code

section Preformatted

/-- A preformatted element becomes a code block with its text, without the line endings at the end.
White space in the text is as in the source, save for runs of it that stand in elements which ask
for lines without breaks; where there is no such element, it is the text of the source. -/
theorem convert_preformatted [UrlReader] {e : Element} (named : e.tag ∈ codeTags)
    (shown : ¬ e.isIgnored) (options : Options) (position : Option Position) :
    convert options standard (.root [e.toNode] position) =
        .parent .root { position } [codeBlock e (e.toNode.keptText options.newlines .verbatim)] ∧
      (ThroughoutAll Html.Node.KeepsSpace e.children →
        convert options standard (.root [e.toNode] position) =
          .parent .root { position } [codeBlock e e.toText]) := by
  have code := convert_code named shown options position
  rw [toText_minify_code named] at code
  refine ⟨code, fun keeps => ?_⟩
  have preformatted : ∀ tag ∈ codeTags, Html.isPreformattedTag tag := by decide +kernel
  have here : Html.Node.KeepsSpace e.toNode := by
    simp [Html.Node.KeepsSpace, Element.toNode, Html.whiteSpaceIn, preformatted e.tag named]
  rw [code, Html.keptText_of_keepsSpace options.newlines (n := e.toNode) ⟨here, keeps⟩]
  rfl

def quotedProgram : Element :=
  ⟨"pre", OrderedMap.empty, [
    .element "code" (OrderedMap.empty.insert "class" (.text "language-c")) [
      .text "int  x;\n" none,
      .comment "y" none,
      .element "b" OrderedMap.empty [.text "\tint z;" none] none,
      .element "br" OrderedMap.empty [] none] none,
    .text "\r\n" none], none⟩

theorem convert_preformatted_quotedProgram :
    quotedProgram.tag ∈ codeTags ∧ ¬ quotedProgram.isIgnored ∧
      ThroughoutAll Html.Node.KeepsSpace quotedProgram.children ∧
      convert {} standard (.root [quotedProgram.toNode] none) =
        .plain .root [.leaf (.code (some "c") none "int  x;\n\tint z;") {}] := by
  have named : quotedProgram.tag ∈ codeTags := by decide
  have shown : ¬ quotedProgram.isIgnored := by decide
  have keeps : ThroughoutAll Html.Node.KeepsSpace quotedProgram.children := by
    simp only [quotedProgram, ThroughoutAll, Html.Node.Throughout, Html.Node.KeepsSpace]
    decide +kernel
  have language : Handler.language quotedProgram = some "c" := by decide +kernel
  have text : Text.trimTrailingLines quotedProgram.toText = "int  x;\n\tint z;" := by
    decide +kernel
  refine ⟨named, shown, keeps, ?_⟩
  rw [(convert_preformatted named shown {} none).2 keeps, codeBlock, language, text]
  rfl

def unbrokenLine : Element :=
  ⟨"pre", OrderedMap.empty, [
    .element "nobr" OrderedMap.empty [.text "a  b" none] none], none⟩

/-- Of the two spaces in such a line one is left. -/
theorem not_convert_preformatted :
    unbrokenLine.tag ∈ codeTags ∧ ¬ unbrokenLine.isIgnored ∧
      convert {} standard (.root [unbrokenLine.toNode] none) =
        .plain .root [.leaf (.code none none "a b") {}] ∧
      Text.trimTrailingLines unbrokenLine.toText = "a  b" := by
  have named : unbrokenLine.tag ∈ codeTags := by decide
  have shown : ¬ unbrokenLine.isIgnored := by decide
  have language : Handler.language unbrokenLine = none := by decide +kernel
  have text : Text.trimTrailingLines (unbrokenLine.minify false).toText = "a b" := by
    decide +kernel
  refine ⟨named, shown, ?_, by decide +kernel⟩
  rw [convert_code named shown, codeBlock, language, text]
  rfl

end Preformatted

end HtmlToMarkdown
