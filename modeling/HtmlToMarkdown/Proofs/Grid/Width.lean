import HtmlToMarkdown.Proofs.Grid.Spread
import Mathlib

namespace HtmlToMarkdown

open Html (CellSpan)

namespace Html.CellSpan

structure Positive (span : CellSpan) : Prop where
  columns : 0 < span.columns
  rows : 0 < span.rows

theorem read_pos (e : Element) (name : String) {most : Nat} (some : 0 < most) :
    0 < read e name most := by
  unfold read
  split
  · split
    · omega
    · omega
  · omega

theorem positive_ofElement (e : Element) : (ofElement e).Positive :=
  ⟨read_pos e _ (by decide), read_pos e _ (by decide)⟩

end Html.CellSpan

namespace Markdown

def coveredFrom (spans : List CellSpan) (j i : Nat) : Nat :=
  ((spans.filter fun span => i < j + span.rows).map (·.columns)).sum

def columnsAt (spans : List (List CellSpan)) (i : Nat) : Nat :=
  ∑ j ∈ Finset.range (i + 1), coveredFrom (spans.getD j []) j i

def tableWidth (spans : List (List CellSpan)) : Nat :=
  max 1 ((Finset.range spans.length).sup (columnsAt spans))

theorem coveredFrom_succ (spans : List CellSpan) (j i : Nat) :
    coveredFrom spans (j + 1) (i + 1) = coveredFrom spans j i := by
  have same : ∀ rows : Nat, i + 1 < j + 1 + rows ↔ i < j + rows := by omega
  simp only [coveredFrom, same]

theorem columnsAt_zero (row : List CellSpan) (rows : List (List CellSpan)) :
    columnsAt (row :: rows) 0 = coveredFrom row 0 0 := by
  rw [columnsAt, Finset.sum_range_one]
  rfl

theorem columnsAt_succ (row : List CellSpan) (rows : List (List CellSpan)) (i : Nat) :
    columnsAt (row :: rows) (i + 1) = columnsAt rows i + coveredFrom row 0 (i + 1) := by
  rw [columnsAt, Finset.sum_range_succ']
  refine congrArg (· + _) (Finset.sum_congr rfl fun j _ => ?_)
  exact coveredFrom_succ _ j i

section Rows

theorem perm_insertAt {α : Type} (i : Nat) (inserted row : List α) :
    (insertAt i inserted row).Perm (inserted ++ row) := by
  calc
    (row.take i ++ inserted ++ row.drop i).Perm (inserted ++ row.take i ++ row.drop i) :=
      List.perm_append_comm.append_right _
    _ = inserted ++ row := by rw [List.append_assoc, List.take_append_drop]

theorem perm_place (above : List Descent) (row : List Cell) :
    (above.foldl Descent.place row).Perm
      (List.replicate (above.map (·.width)).sum emptySlot ++ row) := by
  induction above generalizing row with
  | nil => exact List.Perm.refl row
  | cons d above ih =>
      have here : (d.place row).Perm (List.replicate d.width emptySlot ++ row) :=
        perm_insertAt d.column _ row
      calc
        (above.foldl Descent.place (d.place row)).Perm
            (List.replicate (above.map (·.width)).sum emptySlot ++ d.place row) := ih _
        List.Perm _ (List.replicate (above.map (·.width)).sum emptySlot ++
            (List.replicate d.width emptySlot ++ row)) := here.append_left _
        _ = List.replicate ((d :: above).map (·.width)).sum emptySlot ++ row := by
          rw [← List.append_assoc, List.replicate_append_replicate, List.map_cons, List.sum_cons,
            Nat.add_comm]

theorem length_widen {cells : List Cell} (positive : ∀ c ∈ cells, c.2.Positive) (column : Nat) :
    (widen column cells).1.length = (cells.map (·.2.columns)).sum := by
  induction cells generalizing column with
  | nil => rfl
  | cons c cells ih =>
      rcases List.forall_mem_cons.mp positive with ⟨here, rest⟩
      have some := here.columns
      simp only [widen, List.length_cons, List.length_append, List.length_replicate, ih rest,
        List.map_cons, List.sum_cons]
      omega

def descending (k : Nat) (above : List Descent) : Nat :=
  ((above.filter fun d => k < d.rows).map (·.width)).sum

theorem descending_append (k : Nat) (above more : List Descent) :
    descending k (above ++ more) = descending k above + descending k more := by
  rw [descending, List.filter_append, List.map_append, List.sum_append]
  rfl

theorem descending_next (k : Nat) (above : List Descent) :
    descending k (above.filterMap Descent.next?) = descending (k + 1) above := by
  induction above with
  | nil => rfl
  | cons d above ih =>
      by_cases more : 1 < d.rows
      · have next : d.next? = some { d with rows := d.rows - 1 } := if_pos more
        have same : k < d.rows - 1 ↔ k + 1 < d.rows := by omega
        rw [List.filterMap_cons_some next]
        unfold descending at ih ⊢
        simp only [List.filter_cons, same]
        split
        · rw [List.map_cons, List.map_cons, List.sum_cons, List.sum_cons, ih]
        · exact ih
      · have next : d.next? = none := if_neg more
        have ends : ¬ k + 1 < d.rows := by omega
        rw [List.filterMap_cons_none next, ih]
        unfold descending
        rw [List.filter_cons_of_neg (by simpa using ends)]

theorem descending_widen (k column : Nat) (cells : List Cell) :
    descending k (widen column cells).2 = coveredFrom (cells.map Prod.snd) 0 (k + 1) := by
  induction cells generalizing column with
  | nil => rfl
  | cons c cells ih =>
      have rest := ih (column + 1 + (c.2.columns - 1))
      unfold coveredFrom at rest ⊢
      unfold descending at rest ⊢
      simp only [widen, List.map_cons, List.filter_cons, Nat.zero_add, decide_eq_true_eq] at rest ⊢
      by_cases more : k + 1 < c.2.rows
      · have reaches : 1 < c.2.rows := by omega
        have still : k < c.2.rows - 1 := by omega
        rw [if_pos reaches, if_pos more, List.filter_cons_of_pos (by simpa using still),
          List.map_cons, List.map_cons, List.sum_cons, List.sum_cons, rest]
      · rw [if_neg more, ← rest]
        split
        · have ends : ¬ k < c.2.rows - 1 := by omega
          rw [List.filter_cons_of_neg (by simpa using ends)]
        · rfl

theorem coveredFrom_perm {spans other : List CellSpan} (perm : spans.Perm other) (j i : Nat) :
    coveredFrom spans j i = coveredFrom other j i :=
  ((perm.filter _).map _).sum_nat

theorem coveredFrom_place (above : List Descent) (row : List Cell) (k : Nat) :
    coveredFrom ((above.foldl Descent.place row).map Prod.snd) 0 (k + 1) =
      coveredFrom (row.map Prod.snd) 0 (k + 1) := by
  have single : ¬ k + 1 < 0 + (emptySlot.2).rows := by
    change ¬ k + 1 < 0 + 1
    omega
  rw [coveredFrom_perm ((perm_place above row).map Prod.snd), List.map_append, List.map_replicate]
  unfold coveredFrom
  rw [List.filter_append, List.filter_replicate_of_neg (by simpa using single), List.nil_append]

theorem positive_place {above : List Descent} {row : List Cell}
    (positive : ∀ c ∈ row, c.2.Positive) :
    ∀ c ∈ above.foldl Descent.place row, c.2.Positive := by
  intro c member
  rcases List.mem_append.mp ((perm_place above row).mem_iff.mp member) with added | own
  · rw [List.eq_of_mem_replicate added]
    exact ⟨Nat.one_pos, Nat.one_pos⟩
  · exact positive c own

theorem length_widen_place {above : List Descent} (alive : ∀ d ∈ above, 0 < d.rows)
    {row : List Cell} (positive : ∀ c ∈ row, c.2.Positive) :
    (widen 0 (above.foldl Descent.place row)).1.length =
      descending 0 above + coveredFrom (row.map Prod.snd) 0 0 := by
  have whole : descending 0 above = (above.map (·.width)).sum := by
    unfold descending
    rw [List.filter_eq_self.mpr]
    intro d member
    exact decide_eq_true (alive d member)
  have own : coveredFrom (row.map Prod.snd) 0 0 = (row.map (·.2.columns)).sum := by
    unfold coveredFrom
    rw [List.filter_eq_self.mpr, List.map_map]
    · rfl
    · intro span member
      rcases List.mem_map.mp member with ⟨c, inside, rfl⟩
      simpa using (positive c inside).rows
  calc
    _ = ((above.foldl Descent.place row).map (·.2.columns)).sum :=
      length_widen (positive_place positive) 0
    _ = ((List.replicate (above.map (·.width)).sum emptySlot ++ row).map (·.2.columns)).sum :=
      ((perm_place above row).map _).sum_nat
    _ = (above.map (·.width)).sum + (row.map (·.2.columns)).sum := by simp [emptySlot]
    _ = descending 0 above + coveredFrom (row.map Prod.snd) 0 0 := by rw [whole, own]

theorem alive_next {above : List Descent} : ∀ d ∈ above.filterMap Descent.next?, 0 < d.rows := by
  intro d member
  rcases List.mem_filterMap.mp member with ⟨before, -, next⟩
  unfold Descent.next? at next
  split at next
  · rw [← Option.some.inj next]
    dsimp only
    omega
  · cases next

theorem alive_widen (column : Nat) (cells : List Cell) :
    ∀ d ∈ (widen column cells).2, 0 < d.rows := by
  induction cells generalizing column with
  | nil => exact fun d member => nomatch member
  | cons c cells ih =>
      intro d member
      simp only [widen] at member
      split at member
      · rcases List.mem_cons.mp member with rfl | later
        · dsimp only
          omega
        · exact ih _ d later
      · exact ih _ d member

/-- Row by row, the columns of the cells that reach in from above the grid and of those of its
own. -/
theorem lengths_expand {above : List Descent} (alive : ∀ d ∈ above, 0 < d.rows)
    {rows : List (List Cell)} (positive : ∀ row ∈ rows, ∀ c ∈ row, c.2.Positive) :
    (expand above rows).map List.length = (List.range rows.length).map fun i =>
      descending i above + columnsAt (rows.map (·.map Prod.snd)) i := by
  induction rows generalizing above with
  | nil => rfl
  | cons row rows ih =>
      rcases List.forall_mem_cons.mp positive with ⟨here, rest⟩
      -- The later rows see this one only through the cells that reach down out of it.
      let placed := above.foldl Descent.place row
      let below := above.filterMap Descent.next? ++ (widen 0 placed).2
      have aliveBelow : ∀ d ∈ below, 0 < d.rows :=
        List.forall_mem_append.mpr ⟨alive_next, alive_widen 0 placed⟩
      have shifted : ∀ i, descending i below =
          descending (i + 1) above + coveredFrom (row.map Prod.snd) 0 (i + 1) := by
        intro i
        rw [descending_append, descending_next, descending_widen, coveredFrom_place]
      change (widen 0 placed).1.length :: (expand below rows).map List.length = _
      rw [ih aliveBelow rest, length_widen_place alive here, List.length_cons,
        List.range_succ_eq_map, List.map_cons, List.map_map, List.map_cons, columnsAt_zero]
      refine congrArg _ (List.map_congr_left fun i _ => ?_)
      rw [shifted, Function.comp_apply, Nat.succ_eq_add_one, columnsAt_succ]
      omega

end Rows

/-- The number of columns of a grid is the width that the spans ask for. -/
theorem columnsOf_eq {rows : List (List Cell)} (positive : ∀ row ∈ rows, ∀ c ∈ row, c.2.Positive) :
    columnsOf rows = tableWidth (rows.map (·.map Prod.snd)) := by
  have alive : ∀ d ∈ ([] : List Descent), 0 < d.rows := fun d member => nomatch member
  apply eq_of_forall_ge_iff
  intro n
  rw [columnsOf, tableWidth, Nat.max_le, Nat.max_le, widest_le_iff, lengths_expand alive positive,
    Finset.sup_le_iff, List.forall_mem_map, List.length_map]
  simp [descending]

example : tableWidth [[⟨2, 2⟩], [⟨1, 1⟩, ⟨1, 1⟩]] = 4 := by decide

@[simp] theorem columnsOf_cons_nil (rows : List (List Cell)) :
    columnsOf ([] :: rows) = columnsOf rows :=
  rfl

end Markdown

end HtmlToMarkdown
