import HtmlToMarkdown.Converter
import HtmlToMarkdown.Proofs.Grid.Standing
import HtmlToMarkdown.Proofs.Table.Conversion

namespace HtmlToMarkdown

open Handler (builtTable layout placed)
open Handlers (standard)
open Html (Apart CellSpan Element Elements KeepsColumns Seat)
open Markdown (Cell Node SeatedRows columnsOf emptyCell emptyRow expand fillRow fit
  rectangle standings tableWidth)

namespace Html.Element

/-- The cells at their places in the HTML table, row by row. -/
def seats (e : Element) : List (List Seat) := Html.seats e.spans

def columns (e : Element) : List (List Nat) := e.seats.map (·.map Seat.column)

theorem positive_spans (e : Element) : ∀ row ∈ e.spans, ∀ span ∈ row, span.Positive := by
  intro row member span inside
  rcases List.mem_map.mp member with ⟨r, -, rfl⟩
  rcases List.mem_map.mp inside with ⟨c, -, rfl⟩
  exact CellSpan.positive_ofElement c

end Html.Element

/-- The nodes of cells spread out to the width of the widest row. -/
def gridOf (cells : List (List Cell)) : List (List Node) :=
  (expand [] cells).map (fit (columnsOf cells) emptyCell)

def rowsOf (rs : List Element) (grid : List (List Node)) : List Node :=
  List.zipWith (fun r nodes => placed r .tableRow nodes) rs grid

section Grid

variable (cells : List (List Cell))

theorem length_gridOf : (gridOf cells).length = cells.length := by
  rw [gridOf, List.length_map, ← (Markdown.spread_expand [] cells).length_eq]

theorem length_of_mem_gridOf : ∀ nodes ∈ gridOf cells, nodes.length = columnsOf cells := by
  intro nodes member
  rcases List.mem_map.mp member with ⟨short, -, rfl⟩
  exact Markdown.length_fit _ _ _

theorem seatedRows_gridOf :
    SeatedRows (standings [] (cells.map (·.map Prod.snd))) cells (gridOf cells) := by
  apply (Markdown.seatedRows_expand [] cells).fit
  intro nodes member
  exact Nat.le_trans (Markdown.length_le_widest member) (Nat.le_max_right _ _)

end Grid

section Rows

variable {rs : List Element} {cells : List (List Cell)}

theorem fillRow_rowOf (columns : Nat) (lengths : rs.length = cells.length)
    (grid : List (List Node)) :
    List.zipWith (fillRow columns) (List.zipWith rowOf rs cells) grid =
      rowsOf rs (grid.map (fit columns emptyCell)) := by
  induction rs generalizing cells grid with
  | nil => rfl
  | cons r rs ih =>
      cases cells with
      | nil => cases lengths
      | cons row cells =>
          cases grid with
          | nil => rfl
          | cons nodes grid => exact congrArg (_ :: ·) (ih (Nat.succ.inj lengths) grid)

variable (lengths : rs.length = cells.length)
  (kinds : ∀ row ∈ cells, ∀ n ∈ row.map Prod.fst, n.kind = .tableCell)

include lengths kinds

theorem rectangle_rowOf (headless : Bool) (align : List (Option Markdown.Align)) :
    (rectangle headless align (List.zipWith rowOf rs cells) (cells.map (·.map Prod.snd))).2 =
      headerRows headless (columnsOf cells) ++ rowsOf rs (gridOf cells) := by
  rw [Markdown.rows_rectangle_eq, columnsOf_rowOf lengths kinds, givenCells_rowOf lengths kinds,
    gridOf, ← fillRow_rowOf _ lengths]
  cases headless with
  | false => rfl
  | true =>
      have header : fillRow (columnsOf cells) emptyRow [] =
          .plain .tableRow (List.replicate (columnsOf cells) emptyCell) := by
        have empties := @Markdown.fit_eq_append _ (columnsOf cells) [] (Nat.zero_le _) emptyCell
        exact congrArg (Node.plain .tableRow) empties
      exact congrArg (· :: _) header

end Rows

theorem exists_grid_table {e : Element} (isTable : e.IsRowTable) (parent : Option Element)
    {s : State} (outside : s.inTable = false) :
    ∃ headless grid,
      Output.nodes ((standard.convert e.toNode parent).run s).1 =
        [placed e (.table (fit (tableWidth e.spans) none (layout e).align))
          (headerRows headless (tableWidth e.spans) ++ rowsOf e.rows grid)] ∧
      grid.length = e.rows.length ∧ (∀ nodes ∈ grid, nodes.length = tableWidth e.spans) ∧
      SeatedRows (standings [] e.spans) ((convertRows e.rows).run { s with inTable := true }).1
        grid := by
  have converted :=
    (RecordsRows.rowTable isTable).outerTable isTable.named isTable.shown parent outside
  have width := columnsOf_convertRows e { s with inTable := true }
  have lengths := length_convertRows e.rows { s with inTable := true }
  have kinds := @kind_of_mem_convertRows e.rows { s with inTable := true }
  have spans := map_snd_convertRows e.rows { s with inTable := true }
  dsimp only at converted
  generalize ((convertRows e.rows).run { s with inTable := true }).1 = cells at *
  have seated : SeatedRows (standings [] e.spans) cells (gridOf cells) := by
    have spread := seatedRows_gridOf cells
    rwa [spans] at spread
  have kept : Markdown.coerce emptyRow (List.zipWith rowOf e.rows cells) =
      List.zipWith rowOf e.rows cells :=
    @Markdown.coerce_of_kind .tableRow _ kind_of_mem_zipWith_rowOf
  have align : (rectangle (layout e).headless (layout e).align (List.zipWith rowOf e.rows cells)
      (cells.map (·.map Prod.snd))).1 = fit (tableWidth e.spans) none (layout e).align := by
    rw [← width, ← columnsOf_rowOf lengths.symm kinds (layout e).headless]
    rfl
  refine ⟨(layout e).headless, gridOf cells, ?_, ?_, ?_, seated⟩
  · apply converted.trans
    rw [builtTable, kept, ← align, ← width, ← rectangle_rowOf lengths.symm kinds]
  · rw [length_gridOf, lengths]
  · rw [← width]
    exact length_of_mem_gridOf cells

/-- The conversion of a table without sections. Its rows hold the cells at the columns that they
have in HTML, and empty ones everywhere else, as long as none is disturbed by cells from above. If
one is, then not all of the cells stand there, unless some of them are empty themselves. -/
theorem columns_convert_table {e : Element} (isTable : e.IsRowTable) (apart : Apart e.seats)
    (parent : Option Element) {s : State} (outside : s.inTable = false) :
    ∃ align headless grid,
      Output.nodes ((standard.convert e.toNode parent).run s).1 =
        [placed e (.table align)
          (headerRows headless (tableWidth e.spans) ++ rowsOf e.rows grid)] ∧
      grid.length = e.rows.length ∧
      (∀ nodes ∈ grid, nodes.length = tableWidth e.spans) ∧
      let cells := ((convertRows e.rows).run { s with inTable := true }).1
      (KeepsColumns e.seats → SeatedRows e.columns cells grid) ∧
      ((∀ row ∈ cells, ∀ c ∈ row, c.1 ≠ emptyCell) →
        SeatedRows e.columns cells grid → KeepsColumns e.seats) := by
  obtain ⟨headless, grid, converted, rows, widths, seated⟩ :=
    exists_grid_table isTable parent outside
  have keeps : standings [] e.spans = e.columns ↔ KeepsColumns e.seats :=
    Markdown.standings_eq_iff e.positive_spans apart
  refine ⟨_, headless, grid, converted, rows, widths, ?_, ?_⟩
  · intro undisturbed
    rw [← keeps.mpr undisturbed]
    exact seated
  · intro filled inColumns
    exact keeps.mp (seated.unique inColumns filled)

def mergedTable : Element :=
  let cell (properties : Html.Properties) (text : String) : Html.Node :=
    .element "td" properties [.text text none] none
  let row (cells : List Html.Node) : Html.Node := .element "tr" OrderedMap.empty cells none
  ⟨"table", OrderedMap.empty, [
    row [cell ⟨[("rowspan", .text "2")], by decide⟩ "a",
      cell ⟨[("colspan", .text "2")], by decide⟩ "b"],
    row [cell OrderedMap.empty "c", cell OrderedMap.empty "d"]], none⟩

theorem exists_plainCell {properties : Html.Properties} {text : String}
    (shown : ¬ (⟨"td", properties, [.text text none], none⟩ : Element).isIgnored) :
    ∃ c : Element, .element "td" properties [.text text none] none = c.toNode ∧ c.IsPlainCell :=
  ⟨_, rfl, .inl rfl, shown, trivial, trivial⟩

theorem isRowTable_mergedTable : mergedTable.IsRowTable := by
  have isRow : ∀ cells, Elements Element.IsPlainCell cells →
      ∃ r : Element, .element "tr" OrderedMap.empty cells none = r.toNode ∧ r.IsPlainRow :=
    fun cells areCells =>
      ⟨⟨"tr", OrderedMap.empty, cells, none⟩, rfl, rfl, Bool.false_ne_true, areCells⟩
  refine ⟨rfl, Bool.false_ne_true, List.forall_mem_cons.mpr ⟨isRow _ ?_,
    List.forall_mem_singleton.mpr (isRow _ ?_)⟩⟩
  · exact List.forall_mem_cons.mpr ⟨exists_plainCell (by decide),
      List.forall_mem_singleton.mpr (exists_plainCell (by decide))⟩
  · exact List.forall_mem_cons.mpr ⟨exists_plainCell (by decide),
      List.forall_mem_singleton.mpr (exists_plainCell (by decide))⟩

theorem spans_mergedTable : mergedTable.spans = [[⟨1, 2⟩, ⟨2, 1⟩], [{}, {}]] := by decide

theorem seats_mergedTable :
    mergedTable.seats = [[⟨0, 0, ⟨1, 2⟩⟩, ⟨0, 1, ⟨2, 1⟩⟩], [⟨1, 1, {}⟩, ⟨1, 2, {}⟩]] := by
  rw [Element.seats, spans_mergedTable]
  decide

theorem columns_convert_mergedTable :
    mergedTable.IsRowTable ∧ Apart mergedTable.seats ∧ KeepsColumns mergedTable.seats ∧
      ∃ align headless grid,
        Output.nodes ((standard.convert mergedTable.toNode none).run
          (State.start {} mergedTable.toNode)).1 =
            [placed mergedTable (.table align)
              (headerRows headless 3 ++ rowsOf mergedTable.rows grid)] ∧
        SeatedRows [[0, 1], [1, 2]] ((convertRows mergedTable.rows).run
          { State.start {} mergedTable.toNode with inTable := true }).1 grid := by
  have columns : mergedTable.columns = [[0, 1], [1, 2]] := by
    rw [Element.columns, seats_mergedTable]
    rfl
  have width : tableWidth mergedTable.spans = 3 := by
    rw [spans_mergedTable]
    decide
  have apart : Apart mergedTable.seats := by
    rw [seats_mergedTable]
    decide
  have keeps : KeepsColumns mergedTable.seats := by
    rw [seats_mergedTable]
    decide
  obtain ⟨align, headless, grid, converted, -, -, seated, -⟩ := columns_convert_table
    isRowTable_mergedTable apart none (s := State.start {} mergedTable.toNode) rfl
  rw [width] at converted
  have inColumns := seated keeps
  rw [columns] at inColumns
  exact ⟨isRowTable_mergedTable, apart, keeps, align, headless, grid, converted, inColumns⟩

end HtmlToMarkdown
