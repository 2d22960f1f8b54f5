import HtmlToMarkdown.Proofs.Grid.Seated
import HtmlToMarkdown.Proofs.Grid.Width

/-!
When the cells of a grid stand in the columns that they have in the table. The columns of a row
depend on the cells above only through those that reach down into it, so row by row the cells from
above are at their places as long as all rows before were undisturbed.
-/

namespace HtmlToMarkdown

open Html (Apart CellSpan Filled Pushes Seat Undisturbed leftOf pushed seatRow seatRows widthOf)

namespace Html

def reaching (row : Nat) (ss : List Seat) : List Seat := ss.filter (Seat.Reaches row)

/-- No row of the table is disturbed by the cells above it. -/
def KeepsColumns (rows : List (List Seat)) : Prop :=
  ∀ row own, rows[row]? = some own → Undisturbed (reaching row rows.flatten) own

theorem keepsColumns_iff {rows : List (List Seat)} :
    KeepsColumns rows ↔
      ∀ row (h : row < rows.length), Undisturbed (reaching row rows.flatten) rows[row] := by
  constructor
  · exact fun keeps row h => keeps row rows[row] (List.getElem?_eq_getElem h)
  · intro each row own given
    rcases List.getElem?_eq_some_iff.mp given with ⟨h, rfl⟩
    exact each row h

instance (rows : List (List Seat)) : Decidable (KeepsColumns rows) :=
  decidable_of_iff _ keepsColumns_iff.symm

section Reaching

variable {taken : List Seat} {row : Nat} {spans : List CellSpan}

theorem covers_of_over {s : Seat} (positive : s.span.Positive)
    (near : s.row = row ∨ s.Reaches row) {x : Nat} (within : s.Over x) : s.Covers row x := by
  have some := positive.rows
  refine ⟨?_, within⟩
  rcases near with here | reaches
  · omega
  · exact ⟨Nat.le_of_lt reaches.1, reaches.2⟩

theorem filled_seatRow (above : ∀ s ∈ taken, s.row < row)
    (positive : ∀ s ∈ taken ++ seatRow taken row 0 spans, s.span.Positive)
    (apart : (taken ++ seatRow taken row 0 spans).Pairwise Seat.Disjoint) :
    Filled (reaching row taken) (seatRow taken row 0 spans) := by
  have part : (reaching row taken ++ seatRow taken row 0 spans).Sublist
      (taken ++ seatRow taken row 0 spans) := List.filter_sublist.append_right _
  have near : ∀ s ∈ reaching row taken ++ seatRow taken row 0 spans,
      s.row = row ∨ s.Reaches row := by
    intro s member
    rcases List.mem_append.mp member with reaches | own
    · exact .inr (of_decide_eq_true (List.mem_filter.mp reaches).2)
    · exact .inl (Html.row_of_mem_seatRow s own)
  refine ⟨?_, ?_, Html.ascending_seatRow, ?_⟩
  · refine (apart.sublist part).imp_of_mem fun {s t} here there disjoint x both => ?_
    have covers := covers_of_over (positive s (part.subset here)) (near s here) both.1
    have other := covers_of_over (positive t (part.subset there)) (near t there) both.2
    exact disjoint row x ⟨covers, other⟩
  · exact fun s member => (positive s (part.subset member)).columns
  · intro m member x before
    rcases Html.full_seatRow m member x (Nat.zero_le x) before with
      ⟨s, inside, covers⟩ | ⟨s, own, within⟩
    · have reaches : s ∈ reaching row taken :=
        List.mem_filter.mpr ⟨inside, decide_eq_true ⟨above s inside, covers.1.2⟩⟩
      exact ⟨s, List.mem_append_left _ reaches, covers.2⟩
    · exact ⟨s, List.mem_append_right _ own, within⟩

theorem le_row_of_mem_seatRows {rows : List (List CellSpan)} :
    ∀ s ∈ (seatRows taken row rows).flatten, row ≤ s.row := by
  induction rows generalizing taken row with
  | nil => exact fun s member => nomatch member
  | cons spans rows ih =>
      intro s member
      rcases List.mem_append.mp member with own | later
      · exact Nat.le_of_eq (Html.row_of_mem_seatRow s own).symm
      · exact Nat.le_of_succ_le (ih s later)

theorem map_span_seatRows {rows : List (List CellSpan)} :
    (seatRows taken row rows).map (·.map Seat.span) = rows := by
  induction rows generalizing taken row with
  | nil => rfl
  | cons spans rows ih =>
      change (seatRow taken row 0 spans).map Seat.span :: _ = spans :: rows
      rw [Html.map_span_seatRow, ih]

theorem reaching_append_seatRows {rows : List (List CellSpan)} :
    reaching row (taken ++ (seatRows taken row rows).flatten) = reaching row taken := by
  have none : reaching row (seatRows taken row rows).flatten = [] := by
    refine List.filter_eq_nil_iff.mpr fun s member reaches => ?_
    exact Nat.not_lt_of_le (le_row_of_mem_seatRows s member) (of_decide_eq_true reaches).1
  rw [reaching, List.filter_append]
  exact (congrArg (_ ++ ·) none).trans (List.append_nil _)

end Reaching

end Html

namespace Markdown

def Descent.ofSeat (row : Nat) (s : Seat) : Descent :=
  ⟨s.column, s.span.columns, s.row + s.span.rows - row⟩

def descents (row : Nat) (taken : List Seat) : List Descent :=
  (Html.reaching row taken).map (Descent.ofSeat row)

theorem shift_descents (row : Nat) (ss : List Seat) (q : Nat) :
    (ss.map (Descent.ofSeat row)).foldl Descent.shift q = pushed ss q := by
  rw [List.foldl_map]
  rfl

theorem widened_eq_iff {own : List Seat} (positive : ∀ s ∈ own, 0 < s.span.columns) (f : Nat → Nat)
    (k i : Nat) :
    widened k ((List.range' i own.length).map f) (own.map Seat.span) = own.map Seat.column ↔
      ∀ before m after, own = before ++ m :: after →
        f (i + before.length) + k + widthOf before = m.column + before.length := by
  induction own generalizing k i with
  | nil =>
      refine iff_of_true rfl fun before m after split => absurd split.symm (by simp)
  | cons s own ih =>
      rcases List.forall_mem_cons.mp positive with ⟨here, rest⟩
      have next : ∀ n, i + (n + 1) = i + 1 + n := by omega
      rw [List.length_cons, List.range'_succ, List.map_cons, List.map_cons, List.map_cons, widened,
        List.cons_eq_cons, ih rest]
      constructor
      · rintro ⟨first, later⟩ before m after split
        cases before with
        | nil =>
            rcases List.cons.inj split with ⟨rfl, -⟩
            exact first
        | cons t before =>
            rcases List.cons.inj split with ⟨rfl, more⟩
            have column := later before m after more
            rw [Html.widthOf_cons, List.length_cons, next]
            omega
      · intro each
        refine ⟨each [] s own rfl, ?_⟩
        rintro before m after rfl
        have column := each (s :: before) m after rfl
        rw [Html.widthOf_cons, List.length_cons, next] at column
        omega

theorem standing_eq_iff {above own : List Seat} (filled : Filled above own) (row : Nat) :
    standing (above.map (Descent.ofSeat row)) (own.map Seat.span) = own.map Seat.column ↔
      Undisturbed above own := by
  have positive : ∀ s ∈ own, 0 < s.span.columns := fun s member =>
    filled.positive s (List.mem_append_right above member)
  have shift : (above.map (Descent.ofSeat row)).foldl Descent.shift = pushed above :=
    funext (shift_descents row above)
  rw [standing, List.length_map, shift, widened_eq_iff positive, Html.undisturbed_iff filled]
  refine forall_congr' fun before => forall_congr' fun m => forall_congr' fun after =>
    forall_congr' fun split => ?_
  rw [Nat.zero_add, Nat.add_zero, Html.pushed_eq_column_iff filled split]

theorem descents_eq (row : Nat) (taken : List Seat) :
    descents row taken =
      taken.filterMap fun s => if s.Reaches row then some (Descent.ofSeat row s) else none := by
  rw [descents, Html.reaching, ← List.filterMap_eq_map, List.filterMap_filter]
  simp only [decide_eq_true_eq, Function.comp_apply]

theorem ofSeat_next? {s : Seat} {row : Nat} (above : s.row < row) :
    (if s.Reaches row then some (Descent.ofSeat row s) else none).bind Descent.next? =
      if s.Reaches (row + 1) then some (Descent.ofSeat (row + 1) s) else none := by
  by_cases further : row + 1 < s.row + s.span.rows
  · have now : s.Reaches row := ⟨above, by omega⟩
    have still : s.Reaches (row + 1) := ⟨by omega, further⟩
    have more : 1 < s.row + s.span.rows - row := by omega
    rw [if_pos now, if_pos still, Option.bind_some]
    exact if_pos more
  · have gone : ¬ s.Reaches (row + 1) := fun reaches => further reaches.2
    rw [if_neg gone, Option.bind_eq_none_iff]
    intro d given
    split at given
    · have ends : ¬ 1 < s.row + s.span.rows - row := by omega
      rw [← Option.some.inj given]
      exact if_neg ends
    · cases given

theorem of?_eq {s : Seat} {row : Nat} (here : s.row = row) :
    Descent.of? (s.column, s.span) =
      if s.Reaches (row + 1) then some (Descent.ofSeat (row + 1) s) else none := by
  have more : 1 < s.span.rows ↔ s.Reaches (row + 1) := by
    unfold Seat.Reaches
    omega
  have less : s.span.rows - 1 = s.row + s.span.rows - (row + 1) := by omega
  rw [Descent.of?, Descent.ofSeat, less]
  simp only [more]

theorem descents_succ {taken own : List Seat} {row : Nat} (above : ∀ s ∈ taken, s.row < row)
    (here : ∀ s ∈ own, s.row = row) :
    (descents row taken).filterMap Descent.next? ++
        ((own.map Seat.column).zip (own.map Seat.span)).filterMap Descent.of? =
      descents (row + 1) (taken ++ own) := by
  rw [descents_eq, descents_eq, List.filterMap_append, List.filterMap_filterMap, List.zip_map',
    List.filterMap_map]
  congr 1
  · exact List.filterMap_congr fun s member => ofSeat_next? (above s member)
  · exact List.filterMap_congr fun s member => of?_eq (here s member)

theorem forall_getElem?_cons {α : Type} {a : α} {as : List α} {P : Nat → α → Prop} :
    (∀ i b, (a :: as)[i]? = some b → P i b) ↔ P 0 a ∧ ∀ i b, as[i]? = some b → P (i + 1) b := by
  constructor
  · exact fun each => ⟨each 0 a rfl, fun i b given => each (i + 1) b given⟩
  · rintro ⟨first, rest⟩ (_ | i) b given
    · rw [← Option.some.inj given]
      exact first
    · exact rest i b given

/-- From a row on, the cells of a grid stand in their columns exactly when the rows are
undisturbed. -/
theorem standings_seatRows_iff {taken : List Seat} {row : Nat} {rows : List (List CellSpan)}
    (above : ∀ s ∈ taken, s.row < row)
    (positive : ∀ s ∈ taken ++ (seatRows taken row rows).flatten, s.span.Positive)
    (apart : (taken ++ (seatRows taken row rows).flatten).Pairwise Seat.Disjoint) :
    standings (descents row taken) rows = (seatRows taken row rows).map (·.map Seat.column) ↔
      ∀ i own, (seatRows taken row rows)[i]? = some own →
        Undisturbed (Html.reaching (row + i) (taken ++ (seatRows taken row rows).flatten)) own := by
  induction rows generalizing taken row with
  | nil => exact iff_of_true rfl fun i own given => nomatch given
  | cons spans rows ih =>
      let own := seatRow taken row 0 spans
      let rest := seatRows (taken ++ own) (row + 1) rows
      have here : ∀ s ∈ own, s.row = row := Html.row_of_mem_seatRow
      have next : ∀ s ∈ taken ++ own, s.row < row + 1 := by
        refine List.forall_mem_append.mpr ⟨fun s old => ?_, fun s new => ?_⟩
        · exact Nat.lt_succ_of_lt (above s old)
        · exact Nat.lt_succ_of_le (Nat.le_of_eq (here s new))
      have whole : taken ++ (seatRows taken row (spans :: rows)).flatten =
          taken ++ own ++ rest.flatten := (List.append_assoc ..).symm
      have reaches := @Html.reaching_append_seatRows taken row (spans :: rows)
      rw [whole] at positive apart reaches
      have filled : Filled (Html.reaching row taken) own :=
        Html.filled_seatRow above (fun s member => positive s (List.mem_append_left _ member))
          (apart.sublist (List.sublist_append_left _ _))
      have first := standing_eq_iff filled row
      rw [Html.map_span_seatRow] at first
      change standing (descents row taken) spans :: _ =
          own.map Seat.column :: rest.map (·.map Seat.column) ↔
        ∀ i other, (own :: rest)[i]? = some other → _
      rw [whole, forall_getElem?_cons, Nat.add_zero, reaches, ← first, List.cons_eq_cons]
      refine and_congr_right fun same => ?_
      -- Only as long as the row is undisturbed the cells above the next one are at their places.
      have below := descents_succ above here
      rw [Html.map_span_seatRow, ← same] at below
      have later := ih next positive apart
      simp only [Nat.add_assoc, Nat.add_comm 1] at later
      rw [below]
      exact later

/-- The cells of a table stand in their columns exactly when no row is disturbed. -/
theorem standings_eq_iff {spans : List (List CellSpan)}
    (positive : ∀ row ∈ spans, ∀ span ∈ row, span.Positive) (apart : Apart (Html.seats spans)) :
    standings [] spans = (Html.seats spans).map (·.map Seat.column) ↔
      Html.KeepsColumns (Html.seats spans) := by
  have given : ∀ s ∈ ([] : List Seat) ++ (Html.seats spans).flatten, s.span.Positive := by
    intro s member
    rcases List.mem_flatten.mp member with ⟨own, inside, here⟩
    have same : own.map Seat.span ∈ spans := by
      rw [← @Html.map_span_seatRows [] 0 spans]
      exact List.mem_map_of_mem inside
    exact positive _ same _ (List.mem_map_of_mem here)
  have rows := @standings_seatRows_iff [] 0 spans (fun s member => nomatch member) given apart
  simp only [Nat.zero_add, List.nil_append] at rows
  exact rows

-- The places made for the cells of the first row are put in out of order, or come before the
-- columns of the wide cell.
example : ¬ Html.KeepsColumns (Html.seats [[{}, ⟨1, 3⟩], [⟨1, 2⟩], [{}]]) := by decide
example : ¬ Html.KeepsColumns (Html.seats [[⟨2, 1⟩, ⟨1, 2⟩], [⟨2, 1⟩, {}]]) := by decide

end Markdown

end HtmlToMarkdown
