import HtmlToMarkdown.Markdown.Grid
import HtmlToMarkdown.Proofs.Coercion
import Mathlib.Data.List.Forall2

namespace HtmlToMarkdown.Markdown

/-- Cells without their spans: the covered columns are empty, and so are any others between. -/
inductive Spread : List Cell → List Node → Prop
  | done : Spread [] []
  | empty {cells : List Cell} {nodes : List Node} (rest : Spread cells nodes) :
    Spread cells (emptyCell :: nodes)
  | cell {cells : List Cell} {nodes : List Node} (n : Node) (span : Html.CellSpan)
    (rest : Spread cells nodes) :
    Spread ((n, span) :: cells) (n :: List.replicate (span.columns - 1) emptyCell ++ nodes)

namespace Spread

variable {cells : List Cell} {nodes : List Node}

theorem empties (k : Nat) (spread : Spread cells nodes) :
    Spread cells (List.replicate k emptyCell ++ nodes) := by
  induction k with
  | zero => exact spread
  | succ k ih => exact .empty ih

theorem append_empties (spread : Spread cells nodes) (k : Nat) :
    Spread cells (nodes ++ List.replicate k emptyCell) := by
  induction spread with
  | done => simpa using done.empties k
  | empty rest ih => exact .empty ih
  | cell n span rest ih =>
      rw [List.append_assoc]
      exact .cell n span ih

theorem mem {c : Node} (spread : Spread cells nodes) (member : c ∈ nodes) :
    c = emptyCell ∨ ∃ span, (c, span) ∈ cells := by
  induction spread with
  | done => cases member
  | empty rest ih =>
      rcases List.mem_cons.mp member with same | later
      · exact .inl same
      · exact ih later
  | cell n span rest ih =>
      rcases List.mem_append.mp member with here | later
      · rcases List.mem_cons.mp here with same | padding
        · exact .inr ⟨span, same ▸ List.mem_cons_self⟩
        · exact .inl (List.eq_of_mem_replicate padding)
      · exact (ih later).imp_right fun ⟨other, inside⟩ => ⟨other, List.mem_cons_of_mem _ inside⟩

end Spread

def emptySlot : Cell := (emptyCell, {})

inductive Shifted : List Cell → List Cell → Prop
  | done : Shifted [] []
  | empty {cells placed : List Cell} (rest : Shifted cells placed) :
    Shifted cells (emptySlot :: placed)
  | cell {cells placed : List Cell} (c : Cell) (rest : Shifted cells placed) :
    Shifted (c :: cells) (c :: placed)

namespace Shifted

theorem refl (cells : List Cell) : Shifted cells cells := by
  induction cells with
  | nil => exact .done
  | cons c cells ih => exact .cell c ih

theorem empties (k : Nat) {cells placed : List Cell} (shifted : Shifted cells placed) :
    Shifted cells (List.replicate k emptySlot ++ placed) := by
  induction k with
  | zero => exact shifted
  | succ k ih => exact .empty ih

theorem insertAt {cells placed : List Cell} (shifted : Shifted cells placed) (i k : Nat) :
    Shifted cells (insertAt i (List.replicate k emptySlot) placed) := by
  induction shifted generalizing i with
  | done => simpa [Markdown.insertAt] using done.empties k
  | empty rest ih =>
      cases i with
      | zero => exact (Shifted.empty rest).empties k
      | succ i => exact .empty (ih i)
  | cell c rest ih =>
      cases i with
      | zero => exact (Shifted.cell c rest).empties k
      | succ i => exact .cell c (ih i)

theorem place {cells placed : List Cell} (above : List Descent) (shifted : Shifted cells placed) :
    Shifted cells (above.foldl Descent.place placed) := by
  induction above generalizing placed with
  | nil => exact shifted
  | cons d above ih => exact ih (shifted.insertAt d.column d.width)

theorem spread_widen {cells placed : List Cell} (shifted : Shifted cells placed) (column : Nat) :
    Spread cells (widen column placed).1 := by
  induction shifted generalizing column with
  | done => exact .done
  | empty rest ih => exact .empty (ih (column + 1 + 0))
  | cell c rest ih => exact .cell c.1 c.2 (ih (column + 1 + (c.2.columns - 1)))

end Shifted

theorem spread_expand (above : List Descent) (rows : List (List Cell)) :
    List.Forall₂ Spread rows (expand above rows) := by
  induction rows generalizing above with
  | nil => exact .nil
  | cons row rows ih => exact .cons (((Shifted.refl row).place above).spread_widen 0) (ih _)

theorem length_fit {α : Type} (n : Nat) (a : α) (row : List α) : (fit n a row).length = n := by
  simp [fit]

theorem fit_eq_append {α : Type} {n : Nat} {row : List α} (short : row.length ≤ n) (a : α) :
    fit n a row = row ++ List.replicate (n - row.length) a := by
  rw [fit, List.take_append, List.take_of_length_le short, List.take_replicate,
    Nat.min_eq_left (Nat.sub_le n row.length)]

theorem widest_le_iff {rows : List (List Node)} {n : Nat} :
    widest rows ≤ n ↔ ∀ length ∈ rows.map List.length, length ≤ n := by
  have folded : ∀ (rows : List (List Node)) (m : Nat),
      rows.foldl (fun n row => max n row.length) m ≤ n ↔
        m ≤ n ∧ ∀ length ∈ rows.map List.length, length ≤ n := by
    intro rows
    induction rows with
    | nil => simp
    | cons row rows ih =>
        intro m
        rw [List.foldl_cons, ih, List.map_cons, List.forall_mem_cons, Nat.max_le, and_assoc]
  exact (folded rows 0).trans (and_iff_right (Nat.zero_le n))

theorem length_le_widest {rows : List (List Node)} {row : List Node} (member : row ∈ rows) :
    row.length ≤ widest rows := by
  have all := widest_le_iff.mp (Nat.le_refl (widest rows))
  exact all row.length (List.mem_map_of_mem member)

theorem length_pairRows (rows : List Node) (spans : List (List Html.CellSpan)) :
    (pairRows rows spans).length = rows.length := by
  fun_induction pairRows rows spans <;> simp_all

theorem forall₂_fillRow {columns : Nat} {rows : List Node} {cells : List (List Cell)}
    {grid : List (List Node)} (lengths : rows.length = cells.length)
    (spread : List.Forall₂ Spread cells grid) (fits : ∀ nodes ∈ grid, nodes.length ≤ columns) :
    List.Forall₂
      (fun (given : Node × List Cell) row => ∃ nodes, row = given.1.withChildren nodes ∧
        nodes.length = columns ∧ Spread given.2 nodes)
      (rows.zip cells) (List.zipWith (fillRow columns) rows grid) := by
  induction spread generalizing rows with
  | nil =>
      rw [List.eq_nil_of_length_eq_zero lengths]
      exact .nil
  | @cons given nodes cells grid here rest ih =>
      cases rows with
      | nil => cases lengths
      | cons row rows =>
          rcases List.forall_mem_cons.mp fits with ⟨short, shorter⟩
          have padded : Spread given (fit columns emptyCell nodes) := by
            rw [fit_eq_append short]
            exact here.append_empties _
          refine .cons ⟨_, rfl, length_fit _ _ _, padded⟩ (ih (Nat.succ.inj lengths) shorter)

theorem exists_of_forall₂ {α β : Type} {R : α → β → Prop} {as : List α} {bs : List β}
    (related : List.Forall₂ R as bs) {b : β} (member : b ∈ bs) : ∃ a ∈ as, R a b := by
  induction related with
  | nil => cases member
  | cons here rest ih =>
      rcases List.mem_cons.mp member with same | later
      · exact ⟨_, List.mem_cons_self, same ▸ here⟩
      · rcases ih later with ⟨a, inside, holds⟩
        exact ⟨a, List.mem_cons_of_mem _ inside, holds⟩

theorem map_fst_pairSpans (ns : List Node) (spans : List Html.CellSpan) :
    (pairSpans ns spans).map Prod.fst = ns := by
  fun_induction pairSpans ns spans <;> simp_all

theorem map_fst_of_mem_zip_pairRows {rows : List Node} {spans : List (List Html.CellSpan)}
    {row : Node} {cells : List Cell} (member : (row, cells) ∈ rows.zip (pairRows rows spans)) :
    cells.map Prod.fst = coerce emptyCell row.children := by
  fun_induction pairRows rows spans with
  | case1 => cases member
  | case2 first rows =>
      rename_i ih
      rcases List.mem_cons.mp member with here | later
      · rcases Prod.mk.inj here with ⟨rfl, rfl⟩
        exact map_fst_pairSpans _ _
      · exact ih later
  | case3 first rows here rest =>
      rename_i ih
      rcases List.mem_cons.mp member with here | later
      · rcases Prod.mk.inj here with ⟨rfl, rfl⟩
        exact map_fst_pairSpans _ _
      · exact ih later

def givenRows (headless : Bool) (rows : List Node) : List Node :=
  if headless then emptyRow :: rows else rows

theorem kind_of_mem_givenRows {headless : Bool} {rows : List Node}
    (kinds : ∀ r ∈ rows, r.kind = .tableRow) :
    ∀ r ∈ givenRows headless rows, r.kind = .tableRow := by
  cases headless with
  | false => exact kinds
  | true => exact List.forall_mem_cons.mpr ⟨rfl, kinds⟩

def givenSpans (headless : Bool) (spans : List (List Html.CellSpan)) : List (List Html.CellSpan) :=
  if headless then [] :: spans else spans

def givenCells (headless : Bool) (rows : List Node) (spans : List (List Html.CellSpan)) :
    List (List Cell) :=
  pairRows (givenRows headless rows) (givenSpans headless spans)

/-- A row with the cells that it is coerced to, spread out. -/
inductive Refilled : Node → Node → Prop
  | row {origin : Origin} {children nodes : List Node} {cells : List Cell}
    (own : cells.map Prod.fst = coerce emptyCell children) (spread : Spread cells nodes) :
    Refilled (.parent .tableRow origin children) (.parent .tableRow origin nodes)

theorem refilled_of_zip {columns : Nat} {rows filled : List Node} {cells : List (List Cell)}
    (lengths : rows.length = cells.length) (kinds : ∀ r ∈ rows, r.kind = .tableRow)
    (own : ∀ given ∈ rows.zip cells, given.2.map Prod.fst = coerce emptyCell given.1.children)
    (related : List.Forall₂
      (fun (given : Node × List Cell) row => ∃ nodes, row = given.1.withChildren nodes ∧
        nodes.length = columns ∧ Spread given.2 nodes) (rows.zip cells) filled) :
    List.Forall₂ Refilled rows filled := by
  induction rows generalizing cells filled with
  | nil =>
      cases related
      exact .nil
  | cons row rows ih =>
      cases cells with
      | nil => cases lengths
      | cons given cells =>
          rw [List.zip_cons_cons] at related own
          obtain ⟨kind, rest⟩ := List.forall_mem_cons.mp kinds
          obtain ⟨ownRow, ownRest⟩ := List.forall_mem_cons.mp own
          obtain ⟨origin, children, rfl⟩ := exists_row_of_kind kind
          cases related with
          | cons here later =>
              obtain ⟨nodes, rfl, -, spread⟩ := here
              exact .cons (.row ownRow spread) (ih (Nat.succ.inj lengths) rest ownRest later)

def columnsOf (cells : List (List Cell)) : Nat := max 1 (widest (expand [] cells))

section Rectangle

variable (headless : Bool) (align : List (Option Align)) (rows : List Node)
  (spans : List (List Html.CellSpan))

theorem length_align_rectangle :
    (rectangle headless align rows spans).1.length =
      columnsOf (givenCells headless rows spans) :=
  length_fit _ _ _

theorem rows_rectangle_eq :
    (rectangle headless align rows spans).2 =
      List.zipWith (fillRow (columnsOf (givenCells headless rows spans)))
        (givenRows headless rows) (expand [] (givenCells headless rows spans)) := rfl

/-- Each row of a rectangle holds the cells of one row, spread out to the same length. -/
theorem rows_rectangle :
    List.Forall₂
      (fun (given : Node × List Cell) row => ∃ nodes, row = given.1.withChildren nodes ∧
        nodes.length = columnsOf (givenCells headless rows spans) ∧ Spread given.2 nodes)
      ((givenRows headless rows).zip (givenCells headless rows spans))
      (rectangle headless align rows spans).2 := by
  rw [rows_rectangle_eq]
  apply forall₂_fillRow (length_pairRows _ _).symm (spread_expand [] _)
  intro nodes member
  exact Nat.le_trans (length_le_widest member) (Nat.le_max_right _ _)

theorem refilled_rectangle (kinds : ∀ r ∈ rows, r.kind = .tableRow) :
    List.Forall₂ Refilled (givenRows headless rows) (rectangle headless align rows spans).2 :=
  refilled_of_zip (length_pairRows _ _).symm (kind_of_mem_givenRows kinds)
    (fun _ member => map_fst_of_mem_zip_pairRows member) (rows_rectangle headless align rows spans)

theorem exists_of_mem_rectangle {row : Node}
    (member : row ∈ (rectangle headless align rows spans).2) :
    ∃ given ∈ givenRows headless rows, ∃ nodes, row = given.withChildren nodes ∧
      nodes.length = (rectangle headless align rows spans).1.length ∧
      ∀ c ∈ nodes, c = emptyCell ∨ c ∈ coerce emptyCell given.children := by
  obtain ⟨⟨given, cells⟩, found, nodes, same, length, spread⟩ :=
    exists_of_forall₂ (rows_rectangle headless align rows spans) member
  refine ⟨given, (List.of_mem_zip found).1, nodes, same, ?_, ?_⟩
  · rw [length, length_align_rectangle]
  · intro c inside
    refine (spread.mem inside).imp_right fun ⟨span, here⟩ => ?_
    rw [← map_fst_of_mem_zip_pairRows found]
    exact List.mem_map_of_mem (f := Prod.fst) here

end Rectangle

end HtmlToMarkdown.Markdown
