import HtmlToMarkdown.Converter
import HtmlToMarkdown.Proofs.Grid.Width
import HtmlToMarkdown.Proofs.Table.Header
import HtmlToMarkdown.Proofs.Table.Rows

namespace HtmlToMarkdown

open Handler (builtTable layout placed)
open Handlers (Registered standard)
open Html (CellSpan Element)
open Markdown (Cell Node Spread columnsOf emptyCell emptyRow givenCells givenRows pairRows pairSpans
  rectangle tableWidth)

def Html.Element.spans (e : Element) : List (List CellSpan) :=
  e.rows.map fun r => r.elementChildren.map CellSpan.ofElement

/-- A row of a table that holds the cells of a source row, between empty ones. -/
def SpreadsRow (columns : Nat) (source : Element × List Cell) (row : Node) : Prop :=
  ∃ nodes, row = placed source.1 .tableRow nodes ∧ nodes.length = columns ∧ Spread source.2 nodes

def headerRows (headless : Bool) (columns : Nat) : List Node :=
  if headless then [.plain .tableRow (List.replicate columns emptyCell)] else []

theorem Markdown.Spread.eq_replicate {nodes : List Node} (spread : Spread [] nodes) :
    nodes = List.replicate nodes.length emptyCell := by
  generalize none : ([] : List Cell) = cells at spread
  induction spread with
  | done => rfl
  | empty rest ih => exact congrArg (emptyCell :: ·) (ih none)
  | cell n span rest => cases none

theorem Markdown.pairSpans_map (cells : List Cell) :
    pairSpans (cells.map Prod.fst) (cells.map Prod.snd) = cells := by
  induction cells with
  | nil => rfl
  | cons c cells ih => exact congrArg (c :: ·) ih

section Rows

variable {rs : List Element} {cells : List (List Cell)}

theorem pairRows_rowOf (lengths : rs.length = cells.length)
    (kinds : ∀ row ∈ cells, ∀ n ∈ row.map Prod.fst, n.kind = .tableCell) :
    pairRows (List.zipWith rowOf rs cells) (cells.map (·.map Prod.snd)) = cells := by
  induction cells generalizing rs with
  | nil =>
      rw [List.eq_nil_of_length_eq_zero lengths]
      rfl
  | cons row cells ih =>
      cases rs with
      | nil => cases lengths
      | cons r rs =>
          have here := kinds row List.mem_cons_self
          have later := fun other member => kinds other (List.mem_cons_of_mem _ member)
          have rest := ih (Nat.succ.inj lengths) later
          have kept : Markdown.coerce emptyCell (row.map Prod.fst) = row.map Prod.fst :=
            @Markdown.coerce_of_kind .tableCell _ here
          change pairSpans (Markdown.coerce emptyCell (row.map Prod.fst)) (row.map Prod.snd) ::
            pairRows (List.zipWith rowOf rs cells) (cells.map (·.map Prod.snd)) = row :: cells
          rw [kept, Markdown.pairSpans_map, rest]

theorem zip_rowOf (rs : List Element) (cells : List (List Cell)) :
    (List.zipWith rowOf rs cells).zip cells =
      (rs.zip cells).map fun source => (rowOf source.1 source.2, source.2) := by
  induction rs generalizing cells with
  | nil => rfl
  | cons r rs ih =>
      cases cells with
      | nil => rfl
      | cons row cells => exact congrArg ((rowOf r row, row) :: ·) (ih cells)

variable (lengths : rs.length = cells.length)
  (kinds : ∀ row ∈ cells, ∀ n ∈ row.map Prod.fst, n.kind = .tableCell)

include lengths kinds

theorem givenCells_rowOf (headless : Bool) :
    givenCells headless (List.zipWith rowOf rs cells) (cells.map (·.map Prod.snd)) =
      if headless then [] :: cells else cells := by
  have paired := pairRows_rowOf lengths kinds
  cases headless with
  | false => exact paired
  | true => exact congrArg ([] :: ·) paired

theorem columnsOf_rowOf (headless : Bool) :
    columnsOf (givenCells headless (List.zipWith rowOf rs cells) (cells.map (·.map Prod.snd))) =
      columnsOf cells := by
  rw [givenCells_rowOf lengths kinds]
  cases headless with
  | false => rfl
  | true => exact Markdown.columnsOf_cons_nil cells

/-- The rectangle made of rows: an empty header if there is none, and each row spread out. -/
theorem exists_rectangle_rowOf (headless : Bool) (align : List (Option Markdown.Align)) :
    ∃ body,
      (rectangle headless align (List.zipWith rowOf rs cells) (cells.map (·.map Prod.snd))).2 =
        headerRows headless (columnsOf cells) ++ body ∧
      List.Forall₂ (SpreadsRow (columnsOf cells)) (rs.zip cells) body := by
  have rows := Markdown.rows_rectangle headless align (List.zipWith rowOf rs cells)
    (cells.map (·.map Prod.snd))
  have spread : ∀ rows : List Node,
      List.Forall₂ (fun (given : Node × List Cell) row => ∃ nodes,
          row = given.1.withChildren nodes ∧ nodes.length = columnsOf cells ∧ Spread given.2 nodes)
        ((List.zipWith rowOf rs cells).zip cells) rows →
      List.Forall₂ (SpreadsRow (columnsOf cells)) (rs.zip cells) rows := by
    intro rows related
    rw [zip_rowOf, List.forall₂_map_left_iff] at related
    exact related
  rw [columnsOf_rowOf lengths kinds, givenCells_rowOf lengths kinds] at rows
  cases headless with
  | false => exact ⟨_, rfl, spread _ rows⟩
  | true =>
      generalize (rectangle true align (List.zipWith rowOf rs cells)
        (cells.map (·.map Prod.snd))).2 = made at rows ⊢
      cases rows with
      | @cons _ first _ body here rest =>
          rcases here with ⟨nodes, same, length, empty⟩
          have header : first = .plain .tableRow (List.replicate (columnsOf cells) emptyCell) := by
            rw [same, ← length, ← empty.eq_replicate]
            rfl
          exact ⟨_, congrArg (· :: _) header, spread _ rest⟩

end Rows

theorem kind_of_mem_zipWith_rowOf {rs : List Element} {cells : List (List Cell)} :
    ∀ n ∈ List.zipWith rowOf rs cells, n.kind = .tableRow := by
  intro n member
  rw [← List.map_uncurry_zip_eq_zipWith] at member
  rcases List.mem_map.mp member with ⟨source, -, rfl⟩
  rfl

theorem kind_of_mem_convertRows {rs : List Element} {s : State} :
    ∀ row ∈ ((convertRows rs).run s).1, ∀ n ∈ row.map Prod.fst, n.kind = .tableCell := by
  induction rs generalizing s with
  | nil => exact fun row member => nomatch member
  | cons r rs ih => exact List.forall_mem_cons.mpr ⟨kind_of_mem_convertCells, ih⟩

theorem columnsOf_convertRows (e : Element) (s : State) :
    columnsOf ((convertRows e.rows).run s).1 = tableWidth e.spans := by
  rw [Element.spans, ← map_snd_convertRows e.rows s]
  apply Markdown.columnsOf_eq
  intro row member c inside
  have span : row.map Prod.snd ∈ ((convertRows e.rows).run s).1.map (·.map Prod.snd) :=
    List.mem_map_of_mem member
  rw [map_snd_convertRows] at span
  rcases List.mem_map.mp span with ⟨r, -, same⟩
  have read : c.2 ∈ r.elementChildren.map CellSpan.ofElement := by
    rw [same]
    exact List.mem_map_of_mem inside
  rcases List.mem_map.mp read with ⟨source, -, given⟩
  rw [← given]
  exact CellSpan.positive_ofElement source

theorem RecordsRows.outerTable {e : Element} (named : e.tag = "table") (shown : ¬ e.isIgnored)
    (records : RecordsRows e.rows (Walk.children standard.convert e)) (parent : Option Element)
    {s : State} (outside : s.inTable = false) :
    ((Walk.nodes standard.convert e.toNode parent).run s).1 =
      let cells := ((convertRows e.rows).run { s with inTable := true }).1
      [builtTable e (List.zipWith rowOf e.rows cells) (cells.map (·.map Prod.snd))] := by
  have registered : Registered e.tag Handler.table := by
    rw [named]
    exact .table
  have notInside : ¬ s.inTable := by
    rw [outside]
    exact Bool.false_ne_true
  have content := (records { s with inTable := true } [] s.spanFrames rfl).1
  rw [nodes_convert shown registered, Handler.run_table, if_neg notInside]
  dsimp only at content ⊢
  rw [content]
  rfl

theorem run_outerTable {e : Element} (isTable : e.IsTable) (parent : Option Element) {s : State}
    (outside : s.inTable = false) :
    ((Walk.nodes standard.convert e.toNode parent).run s).1 =
      let cells := ((convertRows e.rows).run { s with inTable := true }).1
      [builtTable e (List.zipWith rowOf e.rows cells) (cells.map (·.map Prod.snd))] :=
  (RecordsRows.table isTable).outerTable isTable.named isTable.shown parent outside

/-- The conversion of a table. Each cell is followed by an empty one for every further column that
it covers, and every row is as wide as the widest one of the source. The header is looked for among
all the elements of the table, those of captions included. -/
theorem convert_table {e : Element} (isTable : e.IsTable) (parent : Option Element) {s : State}
    (outside : s.inTable = false) :
    ∃ align header body,
      Output.nodes ((standard.convert e.toNode parent).run s).1 =
        [placed e (.table align) (header ++ body)] ∧
      align.length = tableWidth e.spans ∧
      (e.Headed → header = []) ∧
      (¬ e.Headed →
        header = [.plain .tableRow (List.replicate (tableWidth e.spans) emptyCell)]) ∧
      (e.PlainAsides → (e.Headed ↔ e.Titled)) ∧
      body.length = e.rows.length ∧
      List.Forall₂ (SpreadsRow (tableWidth e.spans))
        (e.rows.zip ((convertRows e.rows).run { s with inTable := true }).1) body := by
  have converted := run_outerTable isTable parent outside
  have columns := columnsOf_convertRows e { s with inTable := true }
  have lengths := length_convertRows e.rows { s with inTable := true }
  have kinds := @kind_of_mem_convertRows e.rows { s with inTable := true }
  dsimp only at converted
  -- Of the converted cells only their numbers and their kind matter from here on.
  generalize ((convertRows e.rows).run { s with inTable := true }).1 = cells at *
  have kept : Markdown.coerce emptyRow (List.zipWith rowOf e.rows cells) =
      List.zipWith rowOf e.rows cells :=
    @Markdown.coerce_of_kind .tableRow _ kind_of_mem_zipWith_rowOf
  let made := rectangle (layout e).headless (layout e).align (List.zipWith rowOf e.rows cells)
    (cells.map (·.map Prod.snd))
  obtain ⟨body, rows, spread⟩ :=
    exists_rectangle_rowOf lengths.symm kinds (layout e).headless (layout e).align
  rw [columns] at rows spread
  have table : builtTable e (List.zipWith rowOf e.rows cells) (cells.map (·.map Prod.snd)) =
      placed e (.table made.1) made.2 := by
    unfold builtTable
    rw [kept]
  have width : made.1.length = tableWidth e.spans := by
    calc
      made.1.length = columnsOf (givenCells (layout e).headless (List.zipWith rowOf e.rows cells)
          (cells.map (·.map Prod.snd))) := Markdown.length_align_rectangle _ _ _ _
      _ = columnsOf cells := columnsOf_rowOf lengths.symm kinds _
      _ = tableWidth e.spans := columns
  have count : body.length = e.rows.length := by
    calc
      body.length = (e.rows.zip cells).length := spread.length_eq.symm
      _ = min e.rows.length cells.length := List.length_zip
      _ = e.rows.length := by omega
  refine ⟨made.1, headerRows (layout e).headless (tableWidth e.spans), body, ?_, width, ?_, ?_,
    Element.headed_iff_titled isTable, count, spread⟩
  · rw [← rows, ← table]
    exact converted
  · intro headed
    rw [(headless_layout e).mpr headed]
    rfl
  · intro bare
    rw [eq_true_of_ne_false (mt (headless_layout e).mp bare)]
    rfl

def captionedTable : Element :=
  let element (tag : String) (children : List Html.Node) : Element :=
    ⟨tag, OrderedMap.empty, children, none⟩
  element "table" [
    (element "caption" [(element "th" []).toNode]).toNode,
    (element "tr" [(element "td" [.text "a" none]).toNode]).toNode]

theorem convert_table_captioned :
    captionedTable.IsTable ∧ ¬ captionedTable.Titled ∧ captionedTable.rows.length = 1 ∧
      ∃ align row,
        Output.nodes ((standard.convert captionedTable.toNode none).run
          (State.start {} captionedTable.toNode)).1 =
            [placed captionedTable (.table align) [row]] := by
  have isCell : Element.IsCell ⟨"td", OrderedMap.empty, [.text "a" none], none⟩ :=
    ⟨.inl rfl, Bool.false_ne_true, trivial, trivial⟩
  have isRow : Element.IsRow ⟨"tr", OrderedMap.empty,
      [.element "td" OrderedMap.empty [.text "a" none] none], none⟩ :=
    ⟨rfl, Bool.false_ne_true, List.forall_mem_singleton.mpr ⟨_, rfl, isCell⟩⟩
  have isTable : captionedTable.IsTable := by
    refine ⟨rfl, Bool.false_ne_true, List.forall_mem_cons.mpr ⟨?_, ?_⟩⟩
    · exact ⟨_, rfl, .inr (.inr (.inl rfl))⟩
    · exact List.forall_mem_singleton.mpr ⟨_, rfl, .inl isRow⟩
  have headed : captionedTable.Headed :=
    ⟨[⟨"caption", OrderedMap.empty, [.element "th" OrderedMap.empty [] none], none⟩],
      ⟨"th", OrderedMap.empty, [], none⟩, _, rfl, .inr ⟨rfl, by decide⟩⟩
  have untitled : ¬ captionedTable.Titled := by
    unfold Element.Titled Element.HasTh
    decide
  obtain ⟨align, header, body, converted, -, none, -, -, count, -⟩ :=
    convert_table isTable none (s := State.start {} captionedTable.toNode) rfl
  rcases List.length_eq_one_iff.mp count with ⟨row, rfl⟩
  rw [none headed, List.nil_append] at converted
  exact ⟨isTable, untitled, rfl, align, row, converted⟩

end HtmlToMarkdown
