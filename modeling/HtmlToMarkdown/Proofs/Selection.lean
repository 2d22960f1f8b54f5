import HtmlToMarkdown.Proofs.Walk.Content

namespace HtmlToMarkdown

open Handlers (standard)
open Handler (Choice enabledOptions placedLeaf shownChoices shownSize)
open Html (Element ThroughoutAll)

namespace Html

mutual

def Node.elements : Node → List Element
  | .element tag properties children position =>
    ⟨tag, properties, children, position⟩ :: elementsIn children
  | _ => []

def elementsIn : List Node → List Element
  | [] => []
  | n :: ns => n.elements ++ elementsIn ns

end

def Node.Unnested : Node → Prop
  | .element tag _ children _ => tag = "option" → ∀ e ∈ elementsIn children, e.tag ≠ "option"
  | _ => True

def Element.isEnabledOption (e : Element) : Bool := e.tag == "option" && !e.hasFlag "disabled"

/-- The options of a list of choices that are selected and can be. -/
def Element.selection (e : Element) : List Element :=
  (elementsIn e.children).filter fun o => o.isEnabledOption && o.hasFlag "selected"

end Html

section Choices

/-- Where no option is inside another one, inner ones first is the order of the document. -/
theorem enabledOptions_eq {ns : List Html.Node} (unnested : ThroughoutAll Html.Node.Unnested ns) :
    enabledOptions ns = (Html.elementsIn ns).filter Element.isEnabledOption := by
  fun_induction enabledOptions ns with
  | case1 => rfl
  | case2 tag properties children position ns e inner later =>
      obtain ⟨⟨alone, below⟩, rest⟩ := unnested
      change _ ++ (if e.isEnabledOption then _ else _) ++ _ = _
      rw [inner below, later rest, Html.elementsIn, Html.Node.elements, List.cons_append,
        List.filter_cons, List.filter_append]
      by_cases enabled : e.isEnabledOption
      · have named : tag = "option" := eq_of_beq (Bool.and_eq_true_iff.mp enabled).1
        have none : (Html.elementsIn children).filter Element.isEnabledOption = [] := by
          refine List.filter_eq_nil_iff.mpr fun o member isOption => ?_
          exact alone named o member (eq_of_beq (Bool.and_eq_true_iff.mp isOption).1)
        rw [if_pos enabled, if_pos enabled, none]
        rfl
      · rw [if_neg enabled, if_neg enabled, List.append_nil]
  | case3 n ns notElement later =>
      have none : n.elements = [] := by
        cases n with
        | element tag properties children position => exact (notElement _ _ _ _ rfl).elim
        | root | text | comment | doctype => rfl
      rw [later unnested.2, Html.elementsIn, none]
      rfl

theorem shownChoices_eq {e : Element} (unnested : ThroughoutAll Html.Node.Unnested e.children)
    (selected : e.selection ≠ []) :
    shownChoices e e = (e.selection.take (shownSize e)).map Choice.ofOption := by
  have picked : (enabledOptions e.children).filter (·.hasFlag "selected") = e.selection := by
    rw [enabledOptions_eq unnested, List.filter_filter, Element.selection]
    exact List.filter_congr fun o _ => Bool.and_comm ..
  simp only [shownChoices, picked, List.isEmpty_iff, if_neg selected]

theorem shownSize_pos (e : Element) : 0 < shownSize e := by
  have usual : 0 < if e.hasFlag "multiple" then 4 else 1 := by
    cases e.hasFlag "multiple" <;> decide
  simp only [shownSize]
  cases e.integer? "size" with
  | none => exact usual
  | some n =>
      dsimp only
      split
      next positive => exact Int.pos_iff_toNat_pos.mp positive
      next => exact usual

def optionsText (options : List Element) : String :=
  Choice.textOf (options.map Choice.ofOption)

/-- More options make a longer text, even without a text of their own. -/
theorem optionsText_append_ne {options more : List Element} (some : options ≠ [])
    (added : more ≠ []) : optionsText (options ++ more) ≠ optionsText options := by
  let texts (options : List Element) : List String :=
    (options.map Choice.ofOption).map Choice.text
  have joined : optionsText (options ++ more) =
      optionsText options ++ ", " ++ optionsText more := by
    have apart := String.intercalate_append_of_ne_nil (l := texts options) (m := texts more)
      (s := ", ") (by simpa [texts] using some) (by simpa [texts] using added)
    simpa [optionsText, Choice.textOf, texts] using apart
  intro same
  have lengths := congrArg String.length (joined.symm.trans same)
  rw [String.length_append, String.length_append] at lengths
  have comma : ", ".length = 2 := rfl
  omega

end Choices

/-- A list of choices with a selection shows the selected options as far as it has lines for them,
and so all of them exactly if there are no more of them than lines. -/
theorem selection_convert {e : Element} (named : Text.lower e.tag = "select")
    (shown : ¬ e.isIgnored) (unnested : ThroughoutAll Html.Node.Unnested e.children)
    (selected : e.selection ≠ []) (parent : Option Element) (s : State) :
    (Walk.nodes standard.convert e.toNode parent).run s =
        ([placedLeaf e (.text (optionsText (e.selection.take (shownSize e))))], s) ∧
      (optionsText (e.selection.take (shownSize e)) = optionsText e.selection ↔
        e.selection.length ≤ shownSize e) := by
  have step := Handlers.step_handled standard.convert parent shown
    (Handlers.find?_of_lower (named.symm ▸ Handlers.Registered.select))
  have choices := shownChoices_eq unnested selected
  have some : e.selection.take (shownSize e) ≠ [] := by
    simp [selected, Nat.pos_iff_ne_zero.mp (shownSize_pos e)]
  constructor
  · have some : ¬ ((e.selection.take (shownSize e)).map Choice.ofOption).isEmpty := by
      simpa using some
    rw [Walk.nodes, Handlers.convert_eq, step, Handlers.nodes_filtered, Handler.nodes_select,
      choices, if_neg some]
    rfl
  · refine ⟨fun same => ?_, fun fits => by rw [List.take_of_length_le fits]⟩
    by_contra larger
    have rest : e.selection.drop (shownSize e) ≠ [] := by
      simpa using larger
    refine optionsText_append_ne some rest ?_
    rw [List.take_append_drop, same]

def fruitList : Element :=
  let option (properties : Html.Properties) (label : String) : Html.Node :=
    .element "option" properties [.text label none] none
  let chosen : Html.Properties := ⟨[("selected", .flag true)], by decide⟩
  ⟨"select", ⟨[("multiple", .flag true), ("size", .text "2")], by decide⟩, [
    .element "optgroup" OrderedMap.empty [
      option chosen "Apple",
      option ⟨[("selected", .flag true), ("disabled", .flag true)], by decide⟩ "Fig"] none,
    option ⟨[("selected", .flag true), ("value", .text "p")], by decide⟩ "Pear",
    option OrderedMap.empty "Quince",
    option chosen "Plum"], none⟩

/-- The last of the selected fruits is not shown. -/
theorem selection_convert_fruitList :
    fruitList.tag = "select" ∧ ¬ fruitList.isIgnored ∧
      ThroughoutAll Html.Node.Unnested fruitList.children ∧
      optionsText fruitList.selection = "Apple, Pear (p), Plum" ∧
      ∀ (parent : Option Element) (s : State),
        (Walk.nodes standard.convert fruitList.toNode parent).run s =
          ([.text "Apple, Pear (p)"], s) := by
  have shown : ¬ fruitList.isIgnored := by decide
  have unnested : ThroughoutAll Html.Node.Unnested fruitList.children := by
    simp [fruitList, ThroughoutAll, Html.Node.Throughout, Html.Node.Unnested, Html.elementsIn,
      Html.Node.elements]
  have whole : optionsText fruitList.selection = "Apple, Pear (p), Plum" := by decide +kernel
  have lines : optionsText (fruitList.selection.take (shownSize fruitList)) =
      "Apple, Pear (p)" := by
    decide +kernel
  refine ⟨rfl, shown, unnested, whole, fun parent s => ?_⟩
  have selected : fruitList.selection ≠ [] := by
    intro none
    rw [none] at whole
    exact absurd whole (by decide)
  have result := (selection_convert (by decide +kernel) shown unnested selected parent s).1
  rw [result, lines]
  rfl

end HtmlToMarkdown
