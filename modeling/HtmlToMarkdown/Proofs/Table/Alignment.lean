import HtmlToMarkdown.Converter
import HtmlToMarkdown.Proofs.Table.Columns

/-!
How the columns of a table are aligned. The cells are numbered from the start of each row, whatever
they cover, and the first alignment given for a number is that of the column with this number. Where
no cell is merged these are the columns in which the cells end up.
-/

namespace HtmlToMarkdown

open Handler (Layout alignOf builtTable gridElements gridElementsIn layout placed setFirst)
open Handlers (Registered standard)
open Html (AllRowless CellSpan Element Elements rowTags)
open Markdown (Align Cell Node SeatedRows columnsOf emptyRow fit rectangle standing standings
  tableWidth widened)

namespace Html.Element

/-- A cell without other cells in it but those of tables inside; rows there may be. -/
structure IsLoneCell (e : Element) : Prop where
  named : e.tag = "td" ∨ e.tag = "th"
  content : ∀ x ∈ gridElementsIn e.children, ¬ (x.tag = "td" ∨ x.tag = "th")

structure IsCellRow (e : Element) : Prop where
  named : e.tag = "tr"
  cells : Elements IsLoneCell e.children

/-- A table whose children are rows that hold cells only. -/
structure IsCellTable (e : Element) : Prop where
  named : e.tag = "table"
  shown : ¬ e.isIgnored
  rows : Elements IsCellRow e.children

def holdsRow (c : Element) : Bool := (gridElementsIn c.children).any (·.tag == "tr")

/-- The cells of a row with their numbers from `i` on. After a cell with a row inside, the count
starts over. -/
def numberedFrom : Nat → List Element → List (Nat × Element)
  | _, [] => []
  | i, c :: cs => (i, c) :: numberedFrom (if c.holdsRow then 0 else i + 1) cs

/-- The cells of a table in the order of the document, with their numbers in the rows. -/
def numberedCells (e : Element) : List (Nat × Element) :=
  e.elementChildren.flatMap fun r => numberedFrom 0 r.elementChildren

def numbers (e : Element) : List (List Nat) :=
  e.rows.map fun r => (numberedFrom 0 r.elementChildren).map Prod.fst

end Html.Element

open Html.Element (numberedFrom)

/-- The first alignment that is given for cells with the number. -/
def firstAlign (k : Nat) (cells : List (Nat × Element)) : Option Align :=
  cells.findSome? fun cell => if cell.1 = k then alignOf cell.2 else none

section Reading

variable {k : Nat}

theorem join_getElem?_setFirst {α : Type} (value : Option α) (i : Nat) (as : List (Option α)) :
    ((setFirst value i as)[k]?).join =
      ((as[k]?).join).or (if i = k then value else none) := by
  fun_induction setFirst value i as generalizing k with
  | case1 => cases k <;> simp
  | case2 a as => cases k <;> simp
  | case3 i ih =>
      cases k with
      | zero => simp
      | succ k => simpa using ih
  | case4 i a as ih =>
      cases k with
      | zero => simp
      | succ k => simpa using ih

@[simp] theorem firstAlign_append (cells more : List (Nat × Element)) :
    firstAlign k (cells ++ more) = (firstAlign k cells).or (firstAlign k more) :=
  List.findSome?_append

theorem firstAlign_cons (cell : Nat × Element) (cells : List (Nat × Element)) :
    firstAlign k (cell :: cells) =
      (if cell.1 = k then alignOf cell.2 else none).or (firstAlign k cells) := by
  rw [firstAlign, List.findSome?_cons, ← firstAlign]
  generalize (if cell.1 = k then alignOf cell.2 else none) = align
  cases align <;> rfl

def Handler.Layout.alignAt (l : Layout) (k : Nat) : Option Align := (l.align[k]?).join

theorem read_content {es : List Element} (plain : ∀ x ∈ es, ¬ (x.tag = "td" ∨ x.tag = "th"))
    (l : Layout) :
    (es.foldl Layout.read l).align = l.align ∧
      (es.foldl Layout.read l).cell = if es.any (·.tag == "tr") then 0 else l.cell := by
  induction es generalizing l with
  | nil => exact ⟨rfl, rfl⟩
  | cons e es ih =>
      obtain ⟨here, rest⟩ := List.forall_mem_cons.mp plain
      obtain ⟨align, cell⟩ := ih rest (l.read e)
      have noCell : ¬ (e.tag == "th" || e.tag == "td") := by simpa [or_comm] using here
      rw [List.foldl_cons, align, cell, List.any_cons, Layout.read, if_neg noCell]
      by_cases thead : e.tag = "thead"
      · simp [thead]
      · by_cases tr : e.tag = "tr" <;> simp [thead, tr]

theorem read_cell {c : Element} (isCell : c.IsLoneCell) (l : Layout) :
    let after := (c :: gridElementsIn c.children).foldl Layout.read l
    after.alignAt k = (l.alignAt k).or (if l.cell = k then alignOf c else none) ∧
      after.cell = if c.holdsRow then 0 else l.cell + 1 := by
  have named : (c.tag == "th" || c.tag == "td") = true := by
    simpa [or_comm] using isCell.named
  obtain ⟨align, cell⟩ := read_content isCell.content (l.read c)
  rw [Layout.read, if_pos named] at align cell
  dsimp only [List.foldl_cons]
  rw [Layout.read, if_pos named, Layout.alignAt, align, cell, join_getElem?_setFirst]
  exact ⟨rfl, rfl⟩

theorem read_cells {cs : List Element} (areCells : ∀ c ∈ cs, c.IsLoneCell) (l : Layout) :
    ((cs.flatMap fun c => c :: gridElementsIn c.children).foldl Layout.read l).alignAt k =
      (l.alignAt k).or (firstAlign k (numberedFrom l.cell cs)) := by
  induction cs generalizing l with
  | nil => exact (Option.or_none).symm
  | cons c cs ih =>
      obtain ⟨here, rest⟩ := List.forall_mem_cons.mp areCells
      obtain ⟨align, cell⟩ := read_cell (k := k) here l
      rw [List.flatMap_cons, List.foldl_append, ih rest, align, cell, Option.or_assoc,
        numberedFrom, firstAlign_cons]

theorem read_row {r : Element} (isRow : r.IsCellRow) (l : Layout) :
    ((r :: gridElementsIn r.children).foldl Layout.read l).alignAt k =
      (l.alignAt k).or (firstAlign k (numberedFrom 0 r.elementChildren)) := by
  obtain ⟨whole, areCells⟩ := isRow.cells.eq_map
  have apart : ∀ c ∈ r.children.filterMap Html.Node.asElement?, c.tag ≠ "table" := by
    intro c member
    rcases (areCells c member).named with named | named <;> rw [named] <;> decide
  have begun : l.read r = { l with row := l.row + 1, cell := 0 } := by
    simp [Layout.read, isRow.named]
  rw [whole, gridElementsIn_map apart, List.foldl_cons, begun, read_cells areCells]
  rfl

theorem read_rows {rs : List Element} (areRows : ∀ r ∈ rs, r.IsCellRow) (l : Layout) :
    ((rs.flatMap fun r => r :: gridElementsIn r.children).foldl Layout.read l).alignAt k =
      (l.alignAt k).or
        (firstAlign k (rs.flatMap fun r => numberedFrom 0 r.elementChildren)) := by
  induction rs generalizing l with
  | nil => exact (Option.or_none).symm
  | cons r rs ih =>
      obtain ⟨here, rest⟩ := List.forall_mem_cons.mp areRows
      rw [List.flatMap_cons, List.foldl_append, ih rest, read_row here, Option.or_assoc,
        List.flatMap_cons, firstAlign_append]

/-- The first alignment given for cells of a number is read for the column of that number. -/
theorem alignAt_layout {e : Element} (isTable : e.IsCellTable) :
    (layout e).alignAt k = firstAlign k e.numberedCells := by
  obtain ⟨whole, areRows⟩ := isTable.rows.eq_map
  have apart : ∀ r ∈ e.children.filterMap Html.Node.asElement?, r.tag ≠ "table" := by
    intro r member
    rw [(areRows r member).named]
    decide
  have start : (({} : Layout).alignAt k) = none := by cases k <;> rfl
  rw [layout, whole, gridElementsIn_map apart, read_rows areRows, start, Option.none_or]
  rfl

end Reading

section Unmerged

theorem widened_of_unmerged {x : Nat} {spans : List CellSpan}
    (unmerged : ∀ span ∈ spans, ¬ span.isMerged) :
    widened 0 (List.range' x spans.length) spans = List.range' x spans.length := by
  induction spans generalizing x with
  | nil => rfl
  | cons span spans ih =>
      obtain ⟨here, rest⟩ := List.forall_mem_cons.mp unmerged
      have single : span.columns - 1 = 0 := by
        simp only [CellSpan.isMerged, Bool.or_eq_true, decide_eq_true_eq, not_or] at here
        omega
      rw [List.length_cons, List.range'_succ, widened, single, Nat.add_zero, ih rest]

theorem standings_of_unmerged {spans : List (List CellSpan)}
    (unmerged : ∀ row ∈ spans, ∀ span ∈ row, ¬ span.isMerged) :
    standings [] spans = spans.map fun row => List.range' 0 row.length := by
  induction spans with
  | nil => rfl
  | cons row spans ih =>
      obtain ⟨here, rest⟩ := List.forall_mem_cons.mp unmerged
      have columns : standing [] row = List.range' 0 row.length := by
        rw [standing]
        simpa [Markdown.Descent.shift] using widened_of_unmerged here
      have none : ((standing [] row).zip row).filterMap Markdown.Descent.of? = [] := by
        rw [List.filterMap_eq_nil_iff]
        intro cell member
        have single := here cell.2 (List.of_mem_zip member).2
        simp only [CellSpan.isMerged, Bool.or_eq_true, decide_eq_true_eq, not_or] at single
        exact if_neg single.2
      rw [standings, none, List.filterMap_nil, List.append_nil, ih rest, columns, List.map_cons]

mutual

theorem not_tr_of_rowless {n : Html.Node} (rowless : n.Rowless) :
    ∀ x ∈ gridElements n, x.tag ∉ rowTags := by
  match n with
  | .element tag properties children position =>
      unfold gridElements
      split
      · exact fun x member => nomatch member
      next notTable =>
        obtain ⟨apart, inside⟩ := rowless.resolve_left (by simpa using notTable)
        have lowered : ∀ part ∈ rowTags, Text.lower part = part := by decide
        refine List.forall_mem_cons.mpr ⟨fun part => apart ?_, not_tr_of_allRowless inside⟩
        exact (lowered tag part).symm ▸ part
  | .root _ _ | .text _ _ | .comment _ _ | .doctype _ => exact fun x member => nomatch member

theorem not_tr_of_allRowless {ns : List Html.Node} (rowless : AllRowless ns) :
    ∀ x ∈ gridElementsIn ns, x.tag ∉ rowTags := by
  match ns with
  | [] => exact fun x member => nomatch member
  | n :: ns =>
      exact List.forall_mem_append.mpr
        ⟨not_tr_of_rowless rowless.1, not_tr_of_allRowless rowless.2⟩

end

namespace Html.Element

variable {e : Element}

theorem IsPlainCell.lone (isCell : e.IsPlainCell) : e.IsLoneCell where
  named := isCell.named
  content x member cell := by
    have apart := not_tr_of_allRowless isCell.content x member
    rcases cell with named | named <;> simp [named, rowTags] at apart

theorem IsPlainCell.not_holdsRow (isCell : e.IsPlainCell) : e.holdsRow = false := by
  rw [holdsRow, List.any_eq_false]
  intro x member row
  have apart := not_tr_of_allRowless isCell.content x member
  simp [eq_of_beq row, rowTags] at apart

theorem IsRowTable.cellTable (isTable : e.IsRowTable) : e.IsCellTable where
  named := isTable.named
  shown := isTable.shown
  rows := isTable.rows.mono fun _ isRow =>
    ⟨isRow.named, isRow.cells.mono fun _ isCell => isCell.lone⟩

theorem numbers_of_plain {cs : List Element} (plain : ∀ c ∈ cs, c.IsPlainCell) (i : Nat) :
    (numberedFrom i cs).map Prod.fst = List.range' i cs.length := by
  induction cs generalizing i with
  | nil => rfl
  | cons c cs ih =>
      obtain ⟨here, rest⟩ := List.forall_mem_cons.mp plain
      have next : (if c.holdsRow then 0 else i + 1) = i + 1 := by
        rw [here.not_holdsRow]
        rfl
      rw [numberedFrom, next, List.map_cons, ih rest, List.length_cons, List.range'_succ]

theorem IsRowTable.plain_cells (isTable : e.IsRowTable) :
    ∀ r ∈ e.rows, ∀ c ∈ r.elementChildren, c.IsPlainCell := by
  intro r member
  obtain ⟨p, inside, here⟩ := List.mem_flatMap.mp member
  have isRow := isTable.rows.eq_map.2 p inside
  rw [isRow.rowsOfPart, List.mem_singleton] at here
  exact here ▸ isRow.cells.eq_map.2

/-- Where no cell is merged, each one comes to stand in the column of its number. -/
theorem IsRowTable.standings_eq_numbers (isTable : e.IsRowTable)
    (unmerged : ∀ row ∈ e.spans, ∀ span ∈ row, ¬ span.isMerged) :
    standings [] e.spans = e.numbers := by
  rw [standings_of_unmerged unmerged, spans, List.map_map, numbers]
  apply List.map_congr_left
  intro r member
  rw [numbers_of_plain (isTable.plain_cells r member)]
  simp

end Html.Element

end Unmerged

theorem Markdown.getElem?_fit {α : Type} {n k : Nat} (as : List (Option α)) (inside : k < n) :
    (fit n none as)[k]? = some (as[k]?).join := by
  rw [fit, List.getElem?_take_of_lt inside]
  by_cases given : k < as.length
  · simp [List.getElem?_append_left given, List.getElem?_eq_getElem given]
  · have beyond : as.length ≤ k := Nat.le_of_not_lt given
    have filled : k - as.length < n := by omega
    simp [List.getElem?_append_right beyond, List.getElem?_eq_none beyond, filled]

theorem run_builtTable {e : Element} (named : e.tag = "table") (shown : ¬ e.isIgnored)
    (parent : Option Element) {s : State} (outside : s.inTable = false) :
    ∃ content spans, Output.nodes ((standard.convert e.toNode parent).run s).1 =
      [builtTable e content spans] := by
  have registered : Registered e.tag Handler.table := by
    rw [named]
    exact .table
  have notInside : ¬ s.inTable := by
    rw [outside]
    exact Bool.false_ne_true
  have converted := congrArg Prod.fst (congrFun (nodes_convert shown registered parent) s)
  have built := Handler.run_table standard.convert e parent s
  rw [if_neg notInside] at built
  exact ⟨_, _, converted.trans (congrArg Prod.fst built)⟩

theorem exists_align_builtTable (e : Element) (content : List Node) (spans : List (List CellSpan)) :
    ∃ align rows, builtTable e content spans = placed e (.table align) rows ∧
      (∀ row ∈ rows, row.children.length = align.length) ∧
      ∀ k (inside : k < align.length), align[k] = (layout e).alignAt k := by
  let rows := Markdown.coerce emptyRow content
  refine ⟨(rectangle (layout e).headless (layout e).align rows spans).1,
    (rectangle (layout e).headless (layout e).align rows spans).2, rfl, ?_, ?_⟩
  · intro row member
    obtain ⟨given, found, nodes, rfl, length, -⟩ :=
      Markdown.exists_of_mem_rectangle _ _ _ _ member
    have kind := Markdown.kind_of_mem_givenRows Markdown.kind_of_mem_coerce given found
    obtain ⟨origin, cells, rfl⟩ := Markdown.exists_row_of_kind kind
    exact length
  · intro k inside
    have within : k < columnsOf (Markdown.givenCells (layout e).headless rows spans) := by
      rwa [Markdown.length_align_rectangle] at inside
    exact (List.getElem_eq_iff inside).mpr (Markdown.getElem?_fit _ within)

/-- A table of rows of cells. The first alignment given for the cells of a number is that of the
column with this number, and where no cell is merged the cells of a number are those that end up in
this column. -/
theorem align_convert_table {e : Element} (isTable : e.IsCellTable) (parent : Option Element)
    {s : State} (outside : s.inTable = false) :
    ∃ align rows,
      Output.nodes ((standard.convert e.toNode parent).run s).1 = [placed e (.table align) rows] ∧
      (∀ row ∈ rows, row.children.length = align.length) ∧
      (∀ k (inside : k < align.length), align[k] = firstAlign k e.numberedCells) ∧
      (e.IsRowTable → (∀ row ∈ e.spans, ∀ span ∈ row, ¬ span.isMerged) →
        ∃ headless grid,
          rows = headerRows headless (tableWidth e.spans) ++ rowsOf e.rows grid ∧
          SeatedRows e.numbers ((convertRows e.rows).run { s with inTable := true }).1 grid) := by
  obtain ⟨content, spans, converted⟩ := run_builtTable isTable.named isTable.shown parent outside
  obtain ⟨align, rows, built, widths, entries⟩ := exists_align_builtTable e content spans
  rw [built] at converted
  refine ⟨align, rows, converted, widths, fun k inside => ?_, fun isRowTable unmerged => ?_⟩
  · rw [entries k inside, alignAt_layout isTable]
  · obtain ⟨headless, grid, same, -, -, seated⟩ := exists_grid_table isRowTable parent outside
    rw [isRowTable.standings_eq_numbers unmerged] at seated
    have whole := List.singleton_inj.mp (converted.symm.trans same)
    exact ⟨headless, grid, (Node.parent.inj whole).2.2, seated⟩

def pairTable (first second : Html.Properties) : Element :=
  let cell (properties : Html.Properties) (text : String) : Html.Node :=
    .element "td" properties [.text text none] none
  ⟨"table", OrderedMap.empty, [
    .element "tr" OrderedMap.empty [cell first "a", cell second "b"] none], none⟩

theorem isRowTable_pairTable {first second : Html.Properties}
    (firstShown : ¬ (⟨"td", first, [.text "a" none], none⟩ : Element).isIgnored)
    (secondShown : ¬ (⟨"td", second, [.text "b" none], none⟩ : Element).isIgnored) :
    (pairTable first second).IsRowTable := by
  refine ⟨rfl, Bool.false_ne_true, List.forall_mem_singleton.mpr
    ⟨⟨"tr", OrderedMap.empty, _, none⟩, rfl, rfl, Bool.false_ne_true, ?_⟩⟩
  exact List.forall_mem_cons.mpr ⟨exists_plainCell firstShown,
    List.forall_mem_singleton.mpr (exists_plainCell secondShown)⟩

def spannedTable : Element :=
  pairTable (OrderedMap.empty.insert "colspan" (.text "2"))
    (OrderedMap.empty.insert "align" (.text "RIGHT"))

def evenTable : Element :=
  pairTable OrderedMap.empty (OrderedMap.empty.insert "align" (.text "RIGHT"))

theorem isRowTable_spannedTable : spannedTable.IsRowTable :=
  isRowTable_pairTable (by decide) (by decide)

theorem spans_spannedTable : spannedTable.spans = [[⟨2, 1⟩, {}]] := by decide

theorem align_convert_spannedTable :
    (spannedTable.IsCellTable ∧
      ∃ align rows,
        Output.nodes ((standard.convert spannedTable.toNode none).run
          (State.start {} spannedTable.toNode)).1 = [placed spannedTable (.table align) rows] ∧
        ∀ inside : 1 < align.length, align[1] = some .right) ∧
      evenTable.IsRowTable ∧ (∀ row ∈ evenTable.spans, ∀ span ∈ row, ¬ span.isMerged) ∧
      ∃ align headless grid,
        Output.nodes ((standard.convert evenTable.toNode none).run
          (State.start {} evenTable.toNode)).1 =
            [placed evenTable (.table align)
              (headerRows headless 2 ++ rowsOf evenTable.rows grid)] ∧
        (∀ inside : 1 < align.length, align[1] = some .right) ∧
        SeatedRows [[0, 1]] ((convertRows evenTable.rows).run
          { State.start {} evenTable.toNode with inTable := true }).1 grid := by
  constructor
  · have isTable := isRowTable_spannedTable.cellTable
    obtain ⟨align, rows, converted, -, entries, -⟩ :=
      align_convert_table isTable none (s := State.start {} spannedTable.toNode) rfl
    exact ⟨isTable, align, rows, converted, fun inside => (entries 1 inside).trans (by decide)⟩
  · have isTable : evenTable.IsRowTable := isRowTable_pairTable (by decide) (by decide)
    have unmerged : ∀ row ∈ evenTable.spans, ∀ span ∈ row, ¬ span.isMerged := by decide
    have width : tableWidth evenTable.spans = 2 := by decide
    have numbers : evenTable.numbers = [[0, 1]] := by decide
    obtain ⟨align, rows, converted, -, entries, seats⟩ :=
      align_convert_table isTable.cellTable none (s := State.start {} evenTable.toNode) rfl
    obtain ⟨headless, grid, rfl, seated⟩ := seats isTable unmerged
    rw [width] at converted
    rw [numbers] at seated
    exact ⟨isTable, unmerged, align, headless, grid, converted,
      fun inside => (entries 1 inside).trans (by decide), seated⟩

/-- The second cell stands in the third column and is the only one to be aligned, but it is the
second column that is aligned. -/
theorem not_aligned_spannedTable :
    spannedTable.IsCellTable ∧
      spannedTable.numberedCells.map (fun cell => (cell.1, alignOf cell.2)) =
        [(0, none), (1, some .right)] ∧
      ∃ headless grid,
        Output.nodes ((standard.convert spannedTable.toNode none).run
          (State.start {} spannedTable.toNode)).1 =
            [placed spannedTable (.table [none, some .right, none])
              (headerRows headless 3 ++ rowsOf spannedTable.rows grid)] ∧
        SeatedRows [[0, 2]] ((convertRows spannedTable.rows).run
          { State.start {} spannedTable.toNode with inTable := true }).1 grid := by
  obtain ⟨headless, grid, converted, -, -, seated⟩ := exists_grid_table isRowTable_spannedTable none
    (s := State.start {} spannedTable.toNode) rfl
  have width : tableWidth spannedTable.spans = 3 := by
    rw [spans_spannedTable]
    decide
  have align : (layout spannedTable).align = [none, some .right] := by decide
  rw [width, align] at converted
  rw [spans_spannedTable] at seated
  exact ⟨isRowTable_spannedTable.cellTable, by decide, headless, grid, converted, seated⟩

end HtmlToMarkdown
