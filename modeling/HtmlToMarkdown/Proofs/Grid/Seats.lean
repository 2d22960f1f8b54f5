import HtmlToMarkdown.Html.Node
import Mathlib

/-!
The places of cells in an HTML table. Row by row and from the left, each cell takes the first
column after the cell before it that no cell from above covers. As long as no slot is covered
twice, the columns to the left of a cell are those of the cells there, which tells its own.
-/

namespace HtmlToMarkdown.Html

structure Seat where
  row : Nat
  column : Nat
  span : CellSpan
  deriving DecidableEq, Repr

namespace Seat

def stop (s : Seat) : Nat := s.column + s.span.columns

def Over (s : Seat) (column : Nat) : Prop := s.column ≤ column ∧ column < s.stop

def Covers (s : Seat) (row column : Nat) : Prop :=
  (s.row ≤ row ∧ row < s.row + s.span.rows) ∧ s.Over column

/-- The cell stands above the row and reaches down into it. -/
def Reaches (row : Nat) (s : Seat) : Prop := s.row < row ∧ row < s.row + s.span.rows

def Disjoint (s t : Seat) : Prop := ∀ row column, ¬ (s.Covers row column ∧ t.Covers row column)

def Separate (s t : Seat) : Prop := ∀ column, ¬ (s.Over column ∧ t.Over column)

instance : Std.Symm Separate where
  symm _ _ separate column both := separate column both.symm

instance (s : Seat) (column : Nat) : Decidable (s.Over column) := by
  unfold Over
  infer_instance

instance (s : Seat) (row column : Nat) : Decidable (s.Covers row column) := by
  unfold Covers
  infer_instance

instance (row : Nat) : DecidablePred (Reaches row) := by
  intro s
  unfold Reaches
  infer_instance

theorem disjoint_iff {s t : Seat} :
    s.Disjoint t ↔
      min (s.row + s.span.rows) (t.row + t.span.rows) ≤ max s.row t.row ∨
        min s.stop t.stop ≤ max s.column t.column := by
  unfold Disjoint Covers Over
  constructor
  · intro disjoint
    have corner := disjoint (max s.row t.row) (max s.column t.column)
    omega
  · intro beside row column both
    omega

instance : DecidableRel Disjoint := fun _ _ => decidable_of_iff _ disjoint_iff.symm

end Seat

/-- The first column not covered from above, of the `n` columns from the given one on or else the
one after them. -/
def firstFree (above : List Seat) (row column : Nat) : Nat → Nat
  | 0 => column
  | n + 1 =>
    if ∃ s ∈ above, s.Covers row column then firstFree above row (column + 1) n else column

def farthest (above : List Seat) : Nat := (above.map Seat.stop).foldr max 0

def seatRow (above : List Seat) (row column : Nat) : List CellSpan → List Seat
  | [] => []
  | span :: spans =>
    let free := firstFree above row column (farthest above)
    ⟨row, free, span⟩ :: seatRow above row (free + span.columns) spans

def seatRows (above : List Seat) (row : Nat) : List (List CellSpan) → List (List Seat)
  | [] => []
  | spans :: rows =>
    let own := seatRow above row 0 spans
    own :: seatRows (above ++ own) (row + 1) rows

/-- The cells of a table at their places, row by row. -/
def seats (spans : List (List CellSpan)) : List (List Seat) := seatRows [] 0 spans

def Apart (rows : List (List Seat)) : Prop := rows.flatten.Pairwise Seat.Disjoint

instance (rows : List (List Seat)) : Decidable (Apart rows) :=
  inferInstanceAs (Decidable (rows.flatten.Pairwise Seat.Disjoint))

def leftOf (column : Nat) (ss : List Seat) : List Seat := ss.filter (·.column < column)

def widthOf (ss : List Seat) : Nat := (ss.map (·.span.columns)).sum

section FirstFree

variable {above : List Seat} {row column x : Nat}

theorem stop_le_farthest {s : Seat} (member : s ∈ above) : s.stop ≤ farthest above := by
  unfold farthest
  induction above with
  | nil => cases member
  | cons t above ih =>
      rw [List.map_cons, List.foldr_cons]
      rcases List.mem_cons.mp member with rfl | later
      · exact Nat.le_max_left _ _
      · exact Nat.le_trans (ih later) (Nat.le_max_right _ _)

theorem firstFree_spec {n : Nat} (far : ∀ s ∈ above, s.stop ≤ column + n) :
    column ≤ firstFree above row column n ∧
      (∀ s ∈ above, ¬ s.Covers row (firstFree above row column n)) ∧
      ∀ y, column ≤ y → y < firstFree above row column n → ∃ s ∈ above, s.Covers row y := by
  induction n generalizing column with
  | zero =>
      rw [firstFree]
      refine ⟨Nat.le_refl _, fun s member covers => ?_, fun y start before => ?_⟩
      · have beyond := far s member
        have inside := covers.2.2
        omega
      · omega
  | succ n ih =>
      have further : ∀ s ∈ above, s.stop ≤ column + 1 + n := by
        intro s member
        have beyond := far s member
        omega
      rw [firstFree]
      split
      next covered =>
        rcases ih further with ⟨after, free, passed⟩
        refine ⟨by omega, free, fun y start before => ?_⟩
        by_cases here : y = column
        · exact here ▸ covered
        · exact passed y (by omega) before
      next free =>
        refine ⟨Nat.le_refl _, fun s member covers => free ⟨s, member, covers⟩, ?_⟩
        intro y start before
        omega

end FirstFree

section Rows

variable {above : List Seat} {row column : Nat} {spans : List CellSpan}

theorem firstFree_farthest (above : List Seat) (row column : Nat) :
    column ≤ firstFree above row column (farthest above) ∧
      ∀ y, column ≤ y → y < firstFree above row column (farthest above) →
        ∃ s ∈ above, s.Covers row y := by
  have far : ∀ s ∈ above, s.stop ≤ column + farthest above := fun s member =>
    Nat.le_trans (stop_le_farthest member) (Nat.le_add_left _ _)
  rcases @firstFree_spec above row column (farthest above) far with ⟨after, -, passed⟩
  exact ⟨after, passed⟩

theorem map_span_seatRow : (seatRow above row column spans).map Seat.span = spans := by
  induction spans generalizing column with
  | nil => rfl
  | cons span spans ih => exact congrArg (span :: ·) ih

theorem row_of_mem_seatRow : ∀ s ∈ seatRow above row column spans, s.row = row := by
  induction spans generalizing column with
  | nil => exact fun s member => nomatch member
  | cons span spans ih => exact List.forall_mem_cons.mpr ⟨rfl, ih⟩

theorem le_column_of_mem_seatRow : ∀ s ∈ seatRow above row column spans, column ≤ s.column := by
  induction spans generalizing column with
  | nil => exact fun s member => nomatch member
  | cons span spans ih =>
      have after := (firstFree_farthest above row column).1
      refine List.forall_mem_cons.mpr ⟨after, fun s member => ?_⟩
      exact Nat.le_trans (Nat.le_trans after (Nat.le_add_right _ _)) (ih s member)

theorem ascending_seatRow :
    (seatRow above row column spans).Pairwise fun s t => s.stop ≤ t.column := by
  induction spans generalizing column with
  | nil => exact .nil
  | cons span spans ih => exact List.pairwise_cons.mpr ⟨le_column_of_mem_seatRow, ih⟩

/-- Before a cell there are only covered columns and other cells of the row. -/
theorem full_seatRow : ∀ m ∈ seatRow above row column spans, ∀ x, column ≤ x → x < m.column →
    (∃ s ∈ above, s.Covers row x) ∨ ∃ s ∈ seatRow above row column spans, s.Over x := by
  induction spans generalizing column with
  | nil => exact fun s member => nomatch member
  | cons span spans ih =>
      let free := firstFree above row column (farthest above)
      have passed := (firstFree_farthest above row column).2
      intro m member x start before
      by_cases early : x < free
      · exact .inl (passed x start early)
      · by_cases own : x < free + span.columns
        · exact .inr ⟨_, List.mem_cons_self, Nat.le_of_not_lt early, own⟩
        · rcases List.mem_cons.mp member with rfl | later
          · have early : x < free := before
            contradiction
          · refine (ih m later x (by omega) before).imp_right ?_
            rintro ⟨s, inside, within⟩
            exact ⟨s, List.mem_cons_of_mem _ inside, within⟩

end Rows

structure Filled (above own : List Seat) : Prop where
  apart : (above ++ own).Pairwise Seat.Separate
  positive : ∀ s ∈ above ++ own, 0 < s.span.columns
  ascending : own.Pairwise fun s t => s.stop ≤ t.column
  full : ∀ m ∈ own, ∀ x < m.column, ∃ t ∈ above ++ own, t.Over x

section Width

theorem widthOf_append (ss ts : List Seat) : widthOf (ss ++ ts) = widthOf ss + widthOf ts := by
  rw [widthOf, List.map_append, List.sum_append]
  rfl

@[simp] theorem widthOf_cons (s : Seat) (ss : List Seat) :
    widthOf (s :: ss) = s.span.columns + widthOf ss := rfl

theorem length_le_widthOf {ss : List Seat} (positive : ∀ s ∈ ss, 0 < s.span.columns) :
    ss.length ≤ widthOf ss := by
  induction ss with
  | nil => exact Nat.le_refl 0
  | cons s ss ih =>
      rcases List.forall_mem_cons.mp positive with ⟨here, rest⟩
      have more := ih rest
      rw [widthOf_cons, List.length_cons]
      omega

@[simp] theorem leftOf_append (n : Nat) (ss ts : List Seat) :
    leftOf n (ss ++ ts) = leftOf n ss ++ leftOf n ts := List.filter_append ..

theorem mem_leftOf {n : Nat} {s : Seat} {ss : List Seat} :
    s ∈ leftOf n ss ↔ s ∈ ss ∧ s.column < n := by
  rw [leftOf, List.mem_filter, decide_eq_true_iff]

/-- Cells that cover the columns before `n` once each take up `n` columns. -/
theorem widthOf_leftOf {ss : List Seat} {n : Nat}
    (apart : ss.Pairwise Seat.Separate)
    (full : ∀ x < n, ∃ t ∈ ss, t.Over x) (cut : ∀ t ∈ ss, t.column < n → t.stop ≤ n) :
    widthOf (leftOf n ss) = n := by
  let slots := (leftOf n ss).flatMap fun s => List.range' s.column s.span.columns
  have once : slots.Nodup := by
    refine List.nodup_flatMap.mpr ⟨fun s _ => List.nodup_range', ?_⟩
    refine (apart.filter _).imp fun {s t} distinct x inside other => ?_
    rw [List.mem_range'_1] at inside other
    exact distinct x ⟨inside, other⟩
  have all : ∀ x, x ∈ slots ↔ x ∈ List.range n := by
    intro x
    rw [List.mem_flatMap, List.mem_range]
    constructor
    · rintro ⟨s, member, inside⟩
      rcases mem_leftOf.mp member with ⟨given, before⟩
      have ends := cut s given before
      rw [List.mem_range'_1] at inside
      exact Nat.lt_of_lt_of_le inside.2 ends
    · intro before
      rcases full x before with ⟨s, given, within⟩
      refine ⟨s, mem_leftOf.mpr ⟨given, Nat.lt_of_le_of_lt within.1 before⟩, ?_⟩
      exact List.mem_range'_1.mpr within
  calc
    widthOf (leftOf n ss) = slots.length := by
      rw [List.length_flatMap, widthOf]
      simp only [List.length_range']
    _ = (List.range n).length :=
      ((List.perm_ext_iff_of_nodup once List.nodup_range).mpr all).length_eq
    _ = n := List.length_range

end Width

namespace Filled

variable {above own : List Seat}

theorem eq_of_over (filled : Filled above own) {s t : Seat} (here : s ∈ above ++ own)
    (there : t ∈ above ++ own) {x : Nat} (within : s.Over x) (other : t.Over x) : s = t := by
  by_contra distinct
  exact filled.apart.forall here there distinct x ⟨within, other⟩

theorem over_column (filled : Filled above own) {s : Seat} (member : s ∈ above ++ own) :
    s.Over s.column := by
  have some := filled.positive s member
  exact ⟨Nat.le_refl _, Nat.lt_add_of_pos_right some⟩

theorem stop_le (filled : Filled above own) {s t : Seat} (here : s ∈ above ++ own)
    (there : t ∈ above ++ own) (before : t.column < s.column) : t.stop ≤ s.column := by
  by_contra beyond
  have same := filled.eq_of_over here there (filled.over_column here)
    ⟨Nat.le_of_lt before, Nat.lt_of_not_le beyond⟩
  rw [same] at before
  exact Nat.lt_irrefl _ before

/-- Up to a cell of the row, the columns before a cell are those of the cells to its left. -/
theorem column_eq (filled : Filled above own) {s m : Seat} (here : s ∈ above ++ own)
    (member : m ∈ own) (left : s.column ≤ m.column) :
    widthOf (leftOf s.column above) + widthOf (leftOf s.column own) = s.column := by
  rw [← widthOf_append, ← leftOf_append]
  apply widthOf_leftOf filled.apart
  · intro x before
    exact filled.full m member x (Nat.lt_of_lt_of_le before left)
  · intro t there before
    exact filled.stop_le here there before

end Filled

end HtmlToMarkdown.Html
