import HtmlToMarkdown.Proofs.Ink.Conversion
import HtmlToMarkdown.Proofs.Walk.Scope

/-!
Quotation marks. How deep a quotation is nested is counted in the state while its content is
converted, and its marks are joined to the texts at the ends of that content. What can be read in
the end is the text of the source with the marks that go with each depth.
-/

namespace HtmlToMarkdown

open Handlers (standard)
open Html (Element ThroughoutAll)
open Markdown (Node)
open Markdown.Node (textContentOf)

namespace Html

mutual

/-- The text of a node with marks around its quotations, chosen by their depth. -/
def Node.quoted (o : Options) (depth : Nat) : Node → String
  | .element tag _ children _ =>
    if Text.lower tag == "q" then
      (o.quotePair depth).1 ++ quotedAll o (depth + 1) children ++ (o.quotePair depth).2
    else quotedAll o depth children
  | .text value _ => value
  | _ => ""

def quotedAll (o : Options) (depth : Nat) : List Node → String
  | [] => ""
  | n :: ns => n.quoted o depth ++ quotedAll o depth ns

end

/-- A text, a quotation, or an element that gives way to its content or puts a link, a deletion or
a mark around it. -/
def Node.Quotable : Node → Prop
  | .element tag properties children position =>
    ¬ (Element.mk tag properties children position).isIgnored ∧
      (Text.lower tag = "q" ∨ standard.find? tag ∈ [none, some Handler.passThrough,
        some Handler.emphasis, some Handler.strong, some Handler.delete, some Handler.link])
  | .text _ _ => True
  | _ => False

end Html

namespace Handler

theorem textContentOf_openQuote (mark : String) (ns : List Node) :
    textContentOf (openQuote mark ns) = mark ++ textContentOf ns := by
  unfold openQuote
  split
  · exact String.append_assoc ..
  · rfl

theorem textContentOf_closeQuote (mark : String) (ns : List Node) :
    textContentOf (closeQuote mark ns) = textContentOf ns ++ mark := by
  fun_induction closeQuote mark ns with
  | case1 => exact (String.append_empty).trans String.empty_append.symm
  | case2 value origin =>
      simp [Markdown.Leaf.textContent]
  | case3 n =>
      simp [Node.text, Markdown.Leaf.textContent]
  | case4 n ns =>
      rename_i ih
      rw [textContentOf, ih, textContentOf, String.append_assoc]

theorem textContentOf_quoteWith (marks : String × String) (ns : List Node) :
    textContentOf (quoteWith marks ns) = marks.1 ++ textContentOf ns ++ marks.2 := by
  unfold quoteWith
  split
  next none =>
    rw [List.isEmpty_iff.mp none]
    simp [Node.text, Markdown.Leaf.textContent]
  next => rw [textContentOf_openQuote, textContentOf_closeQuote, String.append_assoc]

end Handler

section Walk

variable {e : Element} {parent : Option Element}

/-- The content of a quotation is converted one deeper, and its marks are chosen after that. -/
theorem quoted_quotation {walk : Walk} (kept : ∀ s : State, s.Scoped ((walk.children e).run s).2)
    (children : ∀ s : State, textContentOf ((walk.children e).run s).1 =
      Html.quotedAll s.options s.quoteDepth e.children) (s : State) :
    textContentOf ((Output.nodes <$> Handler.quote walk e parent).run s).1 =
      (s.options.quotePair s.quoteDepth).1 ++
        Html.quotedAll s.options (s.quoteDepth + 1) e.children ++
          (s.options.quotePair s.quoteDepth).2 := by
  let inner : State := { s with quoteDepth := s.quoteDepth + 1 }
  let t := ((walk.children e).run inner).2
  have after : s.Scoped { t with quoteDepth := t.quoteDepth - 1 } := .closeQuote (kept inner)
  have options : t.options = s.options := after.options
  have depth : t.quoteDepth - 1 = s.quoteDepth := after.quoteDepth
  have content : textContentOf ((walk.children e).run inner).1 =
      Html.quotedAll s.options (s.quoteDepth + 1) e.children := children inner
  rw [Handler.nodes_quote, Conversion.run_after, Conversion.run_nestedQuote]
  change textContentOf (Handler.quoteWith (t.options.quotePair (t.quoteDepth - 1)) _) = _
  rw [Handler.textContentOf_quoteWith, options, depth, content]

theorem quoted_unquoted (notQuote : Text.lower e.tag ≠ "q") (quotable : e.toNode.Quotable)
    (s : State) :
    textContentOf ((Walk.nodes standard.convert e.toNode parent).run s).1 =
      textContentOf ((Walk.children standard.convert e).run s).1 := by
  obtain ⟨shown, named | member⟩ := quotable
  · exact absurd named notQuote
  cases found : standard.find? e.tag with
  | none =>
      have step := Handlers.step_unhandled standard.convert parent shown found
        Handlers.findKind?_element
      rw [Walk.nodes, Handlers.convert_eq, step]
      rfl
  | some handler =>
      have step := Handlers.step_handled standard.convert parent shown found
      rw [Walk.nodes, Handlers.convert_eq, step, Handlers.nodes_filtered]
      have kinds : handler ∈ [Handler.passThrough, Handler.emphasis, Handler.strong,
          Handler.delete, Handler.link] := by
        simpa [found] using member
      simp only [List.mem_cons, List.not_mem_nil, or_false] at kinds
      rcases kinds with rfl | rfl | rfl | rfl | rfl
      · rfl
      all_goals exact Markdown.textContentOf_parent _ _ _

theorem quoted_element (quotable : e.toNode.Quotable)
    (children : ∀ s : State, textContentOf ((Walk.children standard.convert e).run s).1 =
      Html.quotedAll s.options s.quoteDepth e.children) (s : State) :
    textContentOf ((Walk.nodes standard.convert e.toNode parent).run s).1 =
      e.toNode.quoted s.options s.quoteDepth := by
  by_cases named : Text.lower e.tag = "q"
  · have shown : ¬ e.isIgnored := quotable.1
    have kept : ∀ s : State, s.Scoped ((Walk.children standard.convert e).run s).2 :=
      scoped_rules.all fun n _ => scoped_nodes n (some e)
    have step := Handlers.step_handled standard.convert parent shown
      (Handlers.find?_of_lower (named.symm ▸ Handlers.Registered.quote))
    rw [Walk.nodes, Handlers.convert_eq, step, Handlers.nodes_filtered,
      quoted_quotation kept children]
    exact (if_pos (by simpa using named)).symm
  · rw [quoted_unquoted named quotable, children]
    exact (if_neg (by simpa using named)).symm

end Walk

mutual

theorem quoted_nodes (n : Html.Node) (quotable : n.Throughout Html.Node.Quotable)
    (parent : Option Element) (s : State) :
    textContentOf ((Walk.nodes standard.convert n parent).run s).1 =
      n.quoted s.options s.quoteDepth := by
  match n, quotable with
  | .element tag properties children position, ⟨here, below⟩ =>
      exact quoted_element (e := ⟨tag, properties, children, position⟩) here
        (quoted_all children below _) s
  | .text value position, _ =>
      have step := Handlers.step_of_kind (n := .text value position) standard.convert parent rfl
        Handlers.findKind?_text
      rw [Walk.nodes, Handlers.convert_eq, step]
      exact Markdown.textContentOf_leaf ..

theorem quoted_all (ns : List Html.Node) (quotable : ThroughoutAll Html.Node.Quotable ns)
    (parent : Option Element) (s : State) :
    textContentOf ((Walk.all standard.convert parent ns).run s).1 =
      Html.quotedAll s.options s.quoteDepth ns := by
  match ns, quotable with
  | [], _ => rfl
  | n :: ns, ⟨here, rest⟩ =>
      have kept := scoped_nodes n parent s
      rw [Walk.all_cons, Conversion.run_append, Markdown.textContentOf_append,
        quoted_nodes n here, quoted_all ns rest, kept.options, kept.quoteDepth]
      rfl

end

/-- Quotation marks go by the depth at which quotations are nested, wherever links, deletions and
marks stand between them. -/
theorem quoted_convert {n : Html.Node} (quotable : n.Throughout Html.Node.Quotable)
    (parent : Option Element) (s : State) :
    textContentOf (Output.nodes ((standard.convert n parent).run s).1) =
      n.quoted s.options s.quoteDepth :=
  quoted_nodes n quotable parent s

def report : Html.Node :=
  .element "q" OrderedMap.empty [
    .element "q" OrderedMap.empty [.text "No" none] none,
    .text " she told " none,
    .element "em" OrderedMap.empty [.element "q" OrderedMap.empty [.text "Bo" none] none] none] none

theorem quoted_convert_report :
    report.Throughout Html.Node.Quotable ∧
      ∀ (parent : Option Element) (s : State), s.options.quotes = ["«»", "'"] →
        s.quoteDepth = 0 →
          textContentOf (Output.nodes ((standard.convert report parent).run s).1) =
            "«'No' she told 'Bo'»" := by
  have quotation : Text.lower "q" = "q" := by decide +kernel
  have emphasis : Text.lower "em" ≠ "q" ∧ standard.find? "em" = some Handler.emphasis :=
    ⟨by decide +kernel, Handlers.find?_of_registered (.emphasis (by simp))⟩
  have plain : ∀ tag children position,
      ¬ (Element.mk tag OrderedMap.empty children position).isIgnored :=
    fun _ _ _ => Bool.false_ne_true
  have quotable : report.Throughout Html.Node.Quotable := by
    simp [report, ThroughoutAll, Html.Node.Throughout, Html.Node.Quotable, quotation, emphasis,
      plain]
  refine ⟨quotable, fun parent s quotes depth => ?_⟩
  rw [quoted_convert quotable, depth]
  have outer : s.options.quotePair 0 = ("«", "»") := by
    rw [Options.quotePair, quotes]
    rfl
  have inner : s.options.quotePair 1 = ("'", "'") := by
    rw [Options.quotePair, quotes]
    rfl
  simp [report, Html.Node.quoted, Html.quotedAll, outer, inner, quotation, emphasis]

end HtmlToMarkdown
