import HtmlToMarkdown.Html.Node
import HtmlToMarkdown.Markdown.Coerce

/-!
Tables as rectangles. Rows of Markdown have no merged cells, so a cell that covers several columns
or rows is followed by empty cells in its own row and moves the cells of later rows aside, and
short rows are filled up.
-/

namespace HtmlToMarkdown.Markdown

open Html (CellSpan)

def emptyCell : Node := .plain .tableCell []

def emptyRow : Node := .plain .tableRow []

abbrev Cell := Node × CellSpan

/-- Pairs values with spans from the left; a missing span is that of a single cell. -/
def pairSpans : List Node → List CellSpan → List Cell
  | [], _ => []
  | n :: ns, [] => (n, {}) :: pairSpans ns []
  | n :: ns, span :: spans => (n, span) :: pairSpans ns spans

def pairRows : List Node → List (List CellSpan) → List (List Cell)
  | [], _ => []
  | row :: rows, [] => pairSpans (coerce emptyCell row.children) [] :: pairRows rows []
  | row :: rows, spans :: rest =>
    pairSpans (coerce emptyCell row.children) spans :: pairRows rows rest

/-- A merged cell that reaches down: `width` columns from `column` on, for `rows` more rows. -/
structure Descent where
  column : Nat
  width : Nat
  rows : Nat
  deriving DecidableEq, Repr

def insertAt {α : Type} (i : Nat) (inserted row : List α) : List α :=
  row.take i ++ inserted ++ row.drop i

/-- Empty cells where a cell from above reaches into the row, at its end if it is too short. -/
def Descent.place (row : List Cell) (d : Descent) : List Cell :=
  insertAt d.column (List.replicate d.width (emptyCell, {})) row

def Descent.next? (d : Descent) : Option Descent :=
  if 1 < d.rows then some { d with rows := d.rows - 1 } else none

/-- Follows each cell by an empty one for every further column, and gives the cells that reach
down; `column` is where the row begins. -/
def widen (column : Nat) : List Cell → List Node × List Descent
  | [] => ([], [])
  | (n, span) :: row =>
    let (nodes, descents) := widen (column + 1 + (span.columns - 1)) row
    (n :: List.replicate (span.columns - 1) emptyCell ++ nodes,
      if 1 < span.rows then ⟨column, span.columns, span.rows - 1⟩ :: descents else descents)

/-- The rows without merged cells; `above` are the cells that reach into the first one. -/
def expand (above : List Descent) : List (List Cell) → List (List Node)
  | [] => []
  | row :: rows =>
    let (nodes, descents) := widen 0 (above.foldl Descent.place row)
    nodes :: expand (above.filterMap Descent.next? ++ descents) rows

def fit {α : Type} (n : Nat) (a : α) (row : List α) : List α :=
  (row ++ List.replicate n a).take n

def widest (rows : List (List Node)) : Nat := rows.foldl (fun n row => max n row.length) 0

def fillRow (columns : Nat) (row : Node) (cells : List Node) : Node :=
  row.withChildren (fit columns emptyCell cells)

/-- A rectangle of at least one column. Without a header, an empty row stands first. -/
def rectangle (headless : Bool) (align : List (Option Align)) (rows : List Node)
    (spans : List (List CellSpan)) : List (Option Align) × List Node :=
  let rows := if headless then emptyRow :: rows else rows
  let grid := expand [] (pairRows rows (if headless then [] :: spans else spans))
  let columns := max 1 (widest grid)
  (fit columns none align, List.zipWith (fillRow columns) rows grid)

end HtmlToMarkdown.Markdown
