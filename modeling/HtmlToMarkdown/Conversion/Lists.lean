import HtmlToMarkdown.Conversion.Handler
import HtmlToMarkdown.Html.Tags
import HtmlToMarkdown.Markdown.Coerce
import HtmlToMarkdown.Markdown.Flow

namespace HtmlToMarkdown.Handler

open Html (Element)
open Markdown (Node coerce wrap)

def emptyItem : Node := .plain (.listItem false none) []

def isSpreadItem : Node → Bool
  | .parent (.listItem spread _) _ _ => spread
  | _ => false

/-- Whether there are several items, one of them with several blocks. -/
def itemsSpread (items : List Node) : Bool := 1 < items.length && items.any isSpreadItem

def listStart (e : Element) : UInt32 :=
  match e.integer? "start" with
  | some n => if 0 ≤ n && n < UInt32.size then UInt32.ofNat n.toNat else 1
  | none => 1

def list : TagHandler := fun walk e _ => do
  let items := coerce emptyItem (← walk.children e)
  let ordered := e.tag == "ol"
  let start := if ordered then some (listStart e) else none
  return some (.parent e.position (.list ordered start (itemsSpread items)) items)

def isToggle (e : Element) : Bool :=
  e.tag == "input" && (e.inputType == "checkbox" || e.inputType == "radio")

/-- The checkbox or radio button that the content starts with, be it in a leading paragraph, and
the content without it. -/
def leadingToggle : List Html.Node → Option (Element × List Html.Node)
  | .element tag properties children position :: rest =>
    let head : Element := ⟨tag, properties, children, position⟩
    if isToggle head then some (head, rest)
    else if tag == "p" then
      (leadingToggle children).map fun (toggle, children) =>
        (toggle, .element tag properties children position :: rest)
    else none
  | _ => none

/-- Whether there is a paragraph or a second block in the content, or in one of its blocks. -/
def spreadsOut (seenBlock : Bool) : List Html.Node → Bool
  | [] => false
  | .element tag _ children _ :: ns =>
    if Html.isPhrasingTag tag then spreadsOut seenBlock ns
    else tag == "p" || seenBlock || spreadsOut false children || spreadsOut true ns
  | _ :: ns => spreadsOut seenBlock ns

def listItem : TagHandler := fun walk e _ => do
  let (checked, content) := match leadingToggle e.children with
    | some (toggle, content) => (some (toggle.hasFlag "checked"), content)
    | none => (none, e.children)
  let children := wrap (← walk.children { e with children := content })
  return some (.parent e.position (.listItem (spreadsOut false content) checked) children)

structure Group where
  terms : List Html.Node := []
  definitions : List Html.Node := []

/-- A term right after a definition begins a new group. -/
def groupFrom (group : Group) (afterDefinition : Bool) : List Html.Node → List Group
  | [] => [group]
  | n :: ns =>
    if n.isTag "dt" then
      if afterDefinition then group :: groupFrom { terms := [n] } false ns
      else groupFrom { group with terms := group.terms ++ [n] } false ns
    else groupFrom { group with definitions := group.definitions ++ [n] } (n.isTag "dd") ns

def unwrapDivs (ns : List Html.Node) : List Html.Node :=
  ns.flatMap fun n => if n.isTag "div" then n.children else [n]

def plainList (items : List Node) : Node := .plain (.list false none (itemsSpread items)) items

/-- The content of a single item, or a list of several. -/
def unwrapSingle : List Node → List Node
  | [] => []
  | [item] => item.children
  | items => [plainList items]

def groupContent (walk : Walk) (e : Element) (ns : List Html.Node) : Conversion (List Node) := do
  return unwrapSingle (coerce emptyItem (← walk.all (some e) ns))

def groupItem : List Node → List Node
  | [] => []
  | content => [.plain (.listItem (1 < content.length) none) content]

def groupItems (walk : Walk) (e : Element) : List Group → Conversion (List Node)
  | [] => pure []
  | group :: groups => do
    let terms ← groupContent walk e group.terms
    let definitions ← groupContent walk e group.definitions
    let rest ← groupItems walk e groups
    return groupItem (terms ++ definitions) ++ rest

def definitionList : TagHandler := fun walk e _ => do
  match ← groupItems walk e (groupFrom {} false (unwrapDivs e.children)) with
  | [] => return none
  | items => return some (.parent e.position (.list false none (itemsSpread items)) items)

end HtmlToMarkdown.Handler
