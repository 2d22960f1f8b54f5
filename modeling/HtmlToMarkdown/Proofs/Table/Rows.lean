import HtmlToMarkdown.Proofs.Coercion
import HtmlToMarkdown.Proofs.Grid.Spread
import HtmlToMarkdown.Proofs.Table.Frame

namespace HtmlToMarkdown

open Conversion (Frameless)
open Handler (placed)
open Handlers (Registered standard)
open Html (CellSpan Element Elements)
open Markdown (Cell Node coerce emptyCell)

/-- A cell with its content converted, and what it covers. -/
def convertCell (c : Element) : Conversion Cell :=
  (Walk.children standard.convert c).after fun _ ns =>
    (placed c .tableCell ns, CellSpan.ofElement c)

def convertCells : List Element → Conversion (List Cell)
  | [] => pure []
  | c :: cs => do
    let cell ← convertCell c
    let rest ← convertCells cs
    return cell :: rest

def convertRows : List Element → Conversion (List (List Cell))
  | [] => pure []
  | r :: rs => do
    let cells ← convertCells r.elementChildren
    let rest ← convertRows rs
    return cells :: rest

def rowOf (r : Element) (cells : List Cell) : Node := placed r .tableRow (cells.map Prod.fst)

theorem snd_convertCells (cs : List Element) (s : State) :
    ((convertCells cs).run s).1.map Prod.snd = cs.map CellSpan.ofElement := by
  induction cs generalizing s with
  | nil => rfl
  | cons c cs ih => exact congrArg (CellSpan.ofElement c :: ·) (ih _)

theorem map_snd_convertRows (rs : List Element) (s : State) :
    ((convertRows rs).run s).1.map (·.map Prod.snd) =
      rs.map fun r => r.elementChildren.map CellSpan.ofElement := by
  induction rs generalizing s with
  | nil => rfl
  | cons r rs ih =>
      have rest := ih ((convertCells r.elementChildren).run s).2
      have here := snd_convertCells r.elementChildren s
      rw [List.map_cons, ← here, ← rest]
      rfl

theorem length_convertRows (rs : List Element) (s : State) :
    ((convertRows rs).run s).1.length = rs.length := by
  rw [← List.length_map, map_snd_convertRows, List.length_map]

theorem kind_of_mem_convertCells {cs : List Element} {s : State} :
    ∀ n ∈ ((convertCells cs).run s).1.map Prod.fst, n.kind = .tableCell := by
  induction cs generalizing s with
  | nil => exact fun n member => nomatch member
  | cons c cs ih => exact List.forall_mem_cons.mpr ⟨rfl, ih⟩

theorem convertRows_append (rs more : List Element) :
    convertRows (rs ++ more) = do return (← convertRows rs) ++ (← convertRows more) := by
  induction rs with
  | nil => rfl
  | cons r rs ih =>
      rw [List.cons_append, convertRows, ih]
      rfl

namespace State

theorem appendToLastRow_append (span : CellSpan) (rows : List (List CellSpan))
    (row : List CellSpan) : appendToLastRow span (rows ++ [row]) = rows ++ [row ++ [span]] := by
  induction rows with
  | nil => rfl
  | cons first rows ih =>
      cases rows with
      | nil => rfl
      | cons second rows => exact congrArg (first :: ·) ih

theorem recordSpan_frames (s : State) (span : CellSpan) (rows : List (List CellSpan))
    (row : List CellSpan) (frames : List (List (List CellSpan))) :
    ({ s with spanFrames := (rows ++ [row]) :: frames }).recordSpan span =
      { s with spanFrames := (rows ++ [row ++ [span]]) :: frames } := by
  unfold recordSpan
  dsimp only
  rw [appendToLastRow_append]

theorem startSpanRow_frames (s : State) (rows : List (List CellSpan))
    (frames : List (List (List CellSpan))) :
    ({ s with spanFrames := rows :: frames }).startSpanRow =
      { s with spanFrames := (rows ++ [[]]) :: frames } := rfl

end State

/-- In a table, an action gives the cells, and their spans go to the end of the last row. -/
def RecordsCells (cs : List Element) (act : Conversion (List Node)) : Prop :=
  ∀ s rows row frames, s.inTable →
    act.run { s with spanFrames := (rows ++ [row]) :: frames } =
      (((convertCells cs).run s).1.map Prod.fst, { ((convertCells cs).run s).2 with
        spanFrames := (rows ++ [row ++ ((convertCells cs).run s).1.map Prod.snd]) :: frames }) ∧
    ((convertCells cs).run s).2.inTable

def RecordsRows (rs : List Element) (act : Conversion (List Node)) : Prop :=
  ∀ s recorded frames, s.inTable →
    act.run { s with spanFrames := recorded :: frames } =
      (List.zipWith rowOf rs ((convertRows rs).run s).1, { ((convertRows rs).run s).2 with
        spanFrames := (recorded ++ ((convertRows rs).run s).1.map (·.map Prod.snd)) :: frames }) ∧
    ((convertRows rs).run s).2.inTable

theorem Html.Element.IsPlainCell.registered {c : Element} (isCell : c.IsPlainCell) :
    Registered c.tag Handler.tableCell := by
  rcases isCell.named with td | th
  · exact .tableCell (by simp [td])
  · exact .tableCell (by simp [th])

theorem Html.Element.IsPlainCell.frameless {c : Element} (isCell : c.IsPlainCell) :
    Frameless (Walk.children standard.convert c) :=
  .all fun n member => frameless_convert (Html.allRowless_iff.mp isCell.content n member) _

theorem run_cell {c : Element} (isCell : c.IsPlainCell) (parent : Option Element) {s : State}
    (inside : s.inTable) (rows : List (List CellSpan)) (row : List CellSpan)
    (frames : List (List (List CellSpan))) :
    (Walk.nodes standard.convert c.toNode parent).run
        { s with spanFrames := (rows ++ [row]) :: frames } =
      ([((convertCell c).run s).1.1], { ((convertCell c).run s).2 with
        spanFrames := (rows ++ [row ++ [CellSpan.ofElement c]]) :: frames }) ∧
    ((convertCell c).run s).2.inTable := by
  obtain ⟨content, still⟩ :=
    isCell.frameless s ((rows ++ [row ++ [CellSpan.ofElement c]]) :: frames) inside
  constructor
  · rw [nodes_convert isCell.shown isCell.registered, Handler.nodes_tableCell,
      Conversion.run_modify, State.recordSpan_frames, Conversion.run_after, content]
    rfl
  · exact still

theorem recordsCells_all {cs : List Element} (areCells : ∀ c ∈ cs, c.IsPlainCell)
    (parent : Option Element) :
    RecordsCells cs (Walk.all standard.convert parent (cs.map Element.toNode)) := by
  induction cs with
  | nil =>
      intro s rows row frames inside
      constructor
      · change _ = ([], { s with spanFrames := (rows ++ [row ++ []]) :: frames })
        rw [List.append_nil]
        rfl
      · exact inside
  | cons c cs ih =>
      intro s rows row frames inside
      rcases List.forall_mem_cons.mp areCells with ⟨here, later⟩
      rcases run_cell here parent inside rows row frames with ⟨first, still⟩
      rcases ih later _ rows (row ++ [CellSpan.ofElement c]) frames still with ⟨rest, after⟩
      constructor
      · rw [List.map_cons, Walk.all_cons, Conversion.run_append, first]
        dsimp only
        rw [rest, List.append_assoc]
        rfl
      · exact after

theorem run_row {r : Element} (isRow : r.IsPlainRow) (parent : Option Element) {s : State}
    (inside : s.inTable) (recorded : List (List CellSpan)) (frames : List (List (List CellSpan))) :
    (Walk.nodes standard.convert r.toNode parent).run { s with spanFrames := recorded :: frames } =
      ([rowOf r ((convertCells r.elementChildren).run s).1],
        { ((convertCells r.elementChildren).run s).2 with spanFrames := (recorded ++
          [((convertCells r.elementChildren).run s).1.map Prod.snd]) :: frames }) ∧
    ((convertCells r.elementChildren).run s).2.inTable := by
  rcases isRow.cells.eq_map with ⟨whole, areCells⟩
  obtain ⟨cells, still⟩ :=
    recordsCells_all areCells (some r) s recorded [] frames inside
  have registered : Registered r.tag Handler.tableRow := by
    rw [isRow.named]
    exact .tableRow
  have kept : coerce emptyCell (((convertCells r.elementChildren).run s).1.map Prod.fst) =
      ((convertCells r.elementChildren).run s).1.map Prod.fst :=
    @Markdown.coerce_of_kind .tableCell _ kind_of_mem_convertCells
  constructor
  · rw [nodes_convert isRow.shown registered, Handler.nodes_tableRow, Conversion.run_modify,
      State.startSpanRow_frames, Conversion.run_after, Walk.children, whole, cells]
    dsimp only
    rw [List.nil_append]
    exact Prod.ext (congrArg (fun ns => [placed r .tableRow ns]) kept) rfl
  · exact still

namespace RecordsRows

theorem nil : RecordsRows [] (pure []) := by
  intro s recorded frames inside
  constructor
  · change _ = ([], { s with spanFrames := (recorded ++ []) :: frames })
    rw [List.append_nil]
    rfl
  · exact inside

theorem append {rs more : List Element} {act next : Conversion (List Node)}
    (records : RecordsRows rs act) (rest : RecordsRows more next) :
    RecordsRows (rs ++ more) (do return (← act) ++ (← next)) := by
  intro s recorded frames inside
  rcases records s recorded frames inside with ⟨first, still⟩
  obtain ⟨second, after⟩ := rest ((convertRows rs).run s).2
    (recorded ++ ((convertRows rs).run s).1.map (·.map Prod.snd)) frames still
  have both : (convertRows (rs ++ more)).run s =
      (((convertRows rs).run s).1 ++ ((convertRows more).run ((convertRows rs).run s).2).1,
        ((convertRows more).run ((convertRows rs).run s).2).2) := by
    rw [convertRows_append]
    rfl
  have lengths : rs.length = ((convertRows rs).run s).1.length := (length_convertRows rs s).symm
  rw [both]
  constructor
  · rw [Conversion.run_append, first]
    dsimp only
    rw [second, List.zipWith_append lengths, List.map_append, List.append_assoc]
  · exact after

theorem row {r : Element} (isRow : r.IsPlainRow) (parent : Option Element) :
    RecordsRows [r] (Walk.nodes standard.convert r.toNode parent) :=
  fun _ recorded frames inside => run_row isRow parent inside recorded frames

theorem all {rows : Element → List Element} {ps : List Element} {parent : Option Element}
    (each : ∀ p ∈ ps, RecordsRows (rows p) (Walk.nodes standard.convert p.toNode parent)) :
    RecordsRows (ps.flatMap rows) (Walk.all standard.convert parent (ps.map Element.toNode)) := by
  induction ps with
  | nil => exact nil
  | cons p ps ih =>
      rcases List.forall_mem_cons.mp each with ⟨here, later⟩
      rw [List.map_cons, Walk.all_cons, List.flatMap_cons]
      exact here.append (ih later)

theorem group {e : Element} (isSection : e.IsSection) (parent : Option Element) :
    RecordsRows e.elementChildren (Walk.nodes standard.convert e.toNode parent) := by
  rcases isSection.rows.eq_map with ⟨whole, areRows⟩
  have registered : Registered e.tag Handler.passThrough := by
    rcases isSection.named with named | named | named <;> rw [named] <;>
      exact .passThrough (by decide)
  have rows := all fun r member => row (areRows r member).plain (some e)
  rw [nodes_convert isSection.shown registered, Handler.nodes_passThrough, Walk.children, whole]
  rw [List.flatMap_singleton'] at rows
  exact rows

theorem aside {e : Element} (isAside : e.IsAside) (parent : Option Element) :
    RecordsRows [] (Walk.nodes standard.convert e.toNode parent) := by
  have registered : Registered e.tag Handler.ignore := by
    rcases isAside with named | named <;> rw [named] <;> exact .ignore (by decide)
  have nothing : Walk.nodes standard.convert e.toNode parent = pure [] := by
    by_cases marked : e.isIgnored
    · rw [Walk.nodes, Handlers.convert_eq, Handlers.step_ignored _ _ marked]
      rfl
    · rw [nodes_convert marked registered, Handler.nodes_ignore]
  rw [nothing]
  exact nil

theorem part {e : Element} (isPart : e.IsPart) (parent : Option Element) :
    RecordsRows e.rowsOfPart (Walk.nodes standard.convert e.toNode parent) := by
  rcases isPart with isRow | isSection | isAside
  · rw [isRow.rowsOfPart]
    exact row isRow.plain parent
  · rw [isSection.rowsOfPart]
    exact group isSection parent
  · rw [isAside.rowsOfPart]
    exact aside isAside parent

theorem rowTable {e : Element} (isTable : e.IsRowTable) :
    RecordsRows e.rows (Walk.children standard.convert e) := by
  rcases isTable.rows.eq_map with ⟨whole, areRows⟩
  have rows := @all Element.rowsOfPart (e.children.filterMap Html.Node.asElement?) (some e)
    fun r member => by
      rw [(areRows r member).rowsOfPart]
      exact row (areRows r member) (some e)
  rw [← whole] at rows
  exact rows

theorem table {e : Element} (isTable : e.IsTable) :
    RecordsRows e.rows (Walk.children standard.convert e) := by
  rcases isTable.parts.eq_map with ⟨whole, areParts⟩
  have parts := all fun p member => part (areParts p member) (some e)
  rw [← whole] at parts
  exact parts

end RecordsRows

end HtmlToMarkdown
