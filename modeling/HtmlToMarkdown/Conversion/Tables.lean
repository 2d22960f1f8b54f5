import HtmlToMarkdown.Conversion.Handler
import HtmlToMarkdown.Markdown.Grid

namespace HtmlToMarkdown.Handler

open Html (CellSpan Element)
open Markdown (Align coerce emptyCell emptyRow rectangle)

mutual

/-- The elements of a table in the order of the document, without those of tables inside. -/
def gridElements : Html.Node → List Element
  | .element tag properties children position =>
    if tag == "table" then []
    else ⟨tag, properties, children, position⟩ :: gridElementsIn children
  | _ => []

def gridElementsIn : List Html.Node → List Element
  | [] => []
  | n :: ns => gridElements n ++ gridElementsIn ns

end

structure Layout where
  align : List (Option Align) := [none]
  headless : Bool := true
  /-- The number of rows begun. -/
  row : Nat := 0
  /-- The number of cells in the row. -/
  cell : Nat := 0

/-- Sets an entry that has no value yet, after as many new ones as it takes. -/
def setFirst {α : Type} (value : Option α) : Nat → List (Option α) → List (Option α)
  | 0, [] => [value]
  | 0, a :: as => a.or value :: as
  | i + 1, [] => none :: setFirst value i []
  | i + 1, a :: as => a :: setFirst value i as

def alignOf (e : Element) : Option Align :=
  (e.attribute? "align").bind fun s => Align.ofName? (Text.asciiLower s)

/-- A `th` in the first two rows, or a `thead`, makes a header. -/
def Layout.read (l : Layout) (e : Element) : Layout :=
  if e.tag == "th" || e.tag == "td" then
    { l with
      align := setFirst (alignOf e) l.cell l.align
      headless := l.headless && !(l.row ≤ 2 && e.tag == "th")
      cell := l.cell + 1 }
  else if e.tag == "thead" then { l with headless := false }
  else if e.tag == "tr" then { l with row := l.row + 1, cell := 0 }
  else l

def layout (e : Element) : Layout := (gridElementsIn e.children).foldl Layout.read {}

def table : TagHandler := fun walk e _ => do
  if (← get).inTable then return some (.leaf e.position (.text e.toText))
  else
    let (content, spans) ← Conversion.tableScope (walk.children e)
    let l := layout e
    let (align, rows) := rectangle l.headless l.align (coerce emptyRow content) spans
    return some (.parent e.position (.table align) rows)

def tableRow : TagHandler := fun walk e _ => do
  modify State.startSpanRow
  let cells := coerce emptyCell (← walk.children e)
  return some (.parent e.position .tableRow cells)

def tableCell : TagHandler := fun walk e _ => do
  modify (·.recordSpan (CellSpan.ofElement e))
  return some (.parent e.position .tableCell (← walk.children e))

end HtmlToMarkdown.Handler
