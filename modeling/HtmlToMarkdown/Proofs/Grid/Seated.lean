import HtmlToMarkdown.Proofs.Grid.Columns
import HtmlToMarkdown.Proofs.Grid.Spread

namespace HtmlToMarkdown.Markdown

open Html (CellSpan Seat)

/-- From column `x` on, the values stand at their columns, and everywhere else is `e`. -/
inductive Seated {α : Type} (e : α) : Nat → List Nat → List α → List α → Prop
  | done (x : Nat) : Seated e x [] [] []
  | empty {x : Nat} {columns : List Nat} {values row : List α}
    (rest : Seated e (x + 1) columns values row) : Seated e x columns values (e :: row)
  | value {x : Nat} {columns : List Nat} {values row : List α} (a : α)
    (rest : Seated e (x + 1) columns values row) :
    Seated e x (x :: columns) (a :: values) (a :: row)

namespace Seated

variable {α : Type} {e : α} {x : Nat} {columns : List Nat} {values row : List α}

theorem le_of_mem (seated : Seated e x columns values row) : ∀ y ∈ columns, x ≤ y := by
  induction seated with
  | done x => exact fun y member => nomatch member
  | empty rest ih => exact fun y member => Nat.le_of_succ_le (ih y member)
  | value a rest ih =>
      exact List.forall_mem_cons.mpr
        ⟨Nat.le_refl _, fun y member => Nat.le_of_succ_le (ih y member)⟩

theorem shift (seated : Seated e x columns values row) (k : Nat) :
    Seated e (x + k) (columns.map (· + k)) values row := by
  induction seated with
  | done x => exact .done _
  | @empty x columns values row rest ih =>
      rw [Nat.add_right_comm] at ih
      exact .empty ih
  | @value x columns values row a rest ih =>
      rw [Nat.add_right_comm] at ih
      exact .value a ih

theorem empties {k : Nat} (seated : Seated e (x + k) columns values row) :
    Seated e x columns values (List.replicate k e ++ row) := by
  induction k generalizing x with
  | zero => exact seated
  | succ k ih =>
      rw [← Nat.add_assoc, Nat.add_right_comm] at seated
      exact .empty (ih seated)

theorem append_empties (seated : Seated e x columns values row) (k : Nat) :
    Seated e x columns values (row ++ List.replicate k e) := by
  induction seated with
  | done x =>
      have nothing := empties (@Seated.done _ e (x + k))
      rwa [List.append_nil] at nothing
  | empty rest ih => exact .empty ih
  | value a rest ih => exact .value a ih

/-- Values side by side. -/
theorem line (x : Nat) (row : List α) : Seated e x (List.range' x row.length) row row := by
  induction row generalizing x with
  | nil => exact .done x
  | cons a row ih => exact .value a (ih (x + 1))

theorem insertAt_zero (seated : Seated e x columns values row) (k : Nat) :
    Seated e x (columns.map fun y => if x + 0 ≤ y then y + k else y) values
      (Markdown.insertAt 0 (List.replicate k e) row) := by
  have all : (columns.map fun y => if x + 0 ≤ y then y + k else y) = columns.map (· + k) :=
    List.map_congr_left fun y member => if_pos (seated.le_of_mem y member)
  rw [all]
  exact (seated.shift k).empties

theorem insertAt (seated : Seated e x columns values row) (i k : Nat) :
    Seated e x (columns.map fun y => if x + i ≤ y then y + k else y) values
      (Markdown.insertAt i (List.replicate k e) row) := by
  induction seated generalizing i with
  | done x =>
      have nothing := (@Seated.done _ e x).insertAt_zero k
      simpa [Markdown.insertAt] using nothing
  | @empty x columns values row rest ih =>
      cases i with
      | zero => exact (Seated.empty rest).insertAt_zero k
      | succ i =>
          have same : x + 1 + i = x + (i + 1) := by omega
          have more := ih i
          rw [same] at more
          exact .empty more
  | @value x columns values row a rest ih =>
      cases i with
      | zero => exact (Seated.value a rest).insertAt_zero k
      | succ i =>
          have same : x + 1 + i = x + (i + 1) := by omega
          have before : ¬ x + (i + 1) ≤ x := by omega
          have more := ih i
          rw [same] at more
          rw [List.map_cons, if_neg before]
          exact .value a more

theorem unique {other : List Nat} (seated : Seated e x columns values row)
    (again : Seated e x other values row) (filled : ∀ a ∈ values, a ≠ e) : columns = other := by
  induction seated generalizing other with
  | done x => cases again; rfl
  | empty rest ih =>
      cases again with
      | empty more => exact ih more filled
      | value a more => exact absurd rfl (filled _ List.mem_cons_self)
  | value a rest ih =>
      cases again with
      | empty more => exact absurd rfl (filled _ List.mem_cons_self)
      | value b more => rw [ih more fun c member => filled c (List.mem_cons_of_mem _ member)]

end Seated

def Descent.shift (q : Nat) (d : Descent) : Nat := if d.column ≤ q then q + d.width else q

/-- The places of cells once those to their left are followed by what they cover, `k` further
columns before the first one among them. -/
def widened (k : Nat) : List Nat → List CellSpan → List Nat
  | x :: columns, span :: spans => (x + k) :: widened (k + (span.columns - 1)) columns spans
  | _, _ => []

def standing (above : List Descent) (spans : List CellSpan) : List Nat :=
  widened 0 ((List.range' 0 spans.length).map (above.foldl Descent.shift)) spans

def Descent.of? (cell : Nat × CellSpan) : Option Descent :=
  if 1 < cell.2.rows then some ⟨cell.1, cell.2.columns, cell.2.rows - 1⟩ else none

def standings (above : List Descent) : List (List CellSpan) → List (List Nat)
  | [] => []
  | spans :: rows =>
    let columns := standing above spans
    columns ::
      standings (above.filterMap Descent.next? ++ (columns.zip spans).filterMap Descent.of?) rows

section Standing

variable {x : Nat} {columns : List Nat} {cells row : List Cell}

theorem Seated.place (seated : Seated emptySlot 0 columns cells row) (above : List Descent) :
    Seated emptySlot 0 (columns.map (above.foldl Descent.shift)) cells
      (above.foldl Descent.place row) := by
  induction above generalizing columns row with
  | nil => simpa using seated
  | cons d above ih =>
      have here := seated.insertAt d.column d.width
      have same : (fun y => if 0 + d.column ≤ y then y + d.width else y) = (Descent.shift · d) := by
        simp only [Nat.zero_add]
        rfl
      rw [same] at here
      have more := ih here
      rwa [List.map_map] at more

/-- Each cell is followed by what it covers, which pushes the cells after it. -/
theorem Seated.widen (seated : Seated emptySlot x columns cells row) (k : Nat) :
    Seated emptyCell (x + k) (widened k columns (cells.map Prod.snd)) (cells.map Prod.fst)
        (widen (x + k) row).1 ∧
      (widen (x + k) row).2 =
        ((widened k columns (cells.map Prod.snd)).zip (cells.map Prod.snd)).filterMap
          Descent.of? := by
  induction seated generalizing k with
  | done x => exact ⟨.done _, rfl⟩
  | @empty x columns cells row rest ih =>
      rcases ih k with ⟨nodes, descents⟩
      have next : x + 1 + k = x + k + 1 := by omega
      rw [next] at nodes descents
      exact ⟨.empty nodes, descents⟩
  | @value x columns cells row c rest ih =>
      rcases c with ⟨n, span⟩
      rcases ih (k + (span.columns - 1)) with ⟨nodes, descents⟩
      have next : x + 1 + (k + (span.columns - 1)) = x + k + 1 + (span.columns - 1) := by omega
      rw [next] at nodes descents
      constructor
      · exact .value n nodes.empties
      · rw [List.map_cons, widened, List.zip_cons_cons, List.filterMap_cons, ← descents]
        simp only [Markdown.widen, Descent.of?]
        split <;> rfl

end Standing

/-- Row by row, the cells stand at their columns, and everywhere else are empty ones. -/
inductive SeatedRows : List (List Nat) → List (List Cell) → List (List Node) → Prop
  | nil : SeatedRows [] [] []
  | cons {columns : List Nat} {cells : List Cell} {nodes : List Node} {more : List (List Nat)}
    {rows : List (List Cell)} {grid : List (List Node)}
    (here : Seated emptyCell 0 columns (cells.map Prod.fst) nodes)
    (rest : SeatedRows more rows grid) :
    SeatedRows (columns :: more) (cells :: rows) (nodes :: grid)

namespace SeatedRows

variable {columns other : List (List Nat)} {rows : List (List Cell)} {grid : List (List Node)}

theorem unique (seated : SeatedRows columns rows grid) (again : SeatedRows other rows grid)
    (filled : ∀ row ∈ rows, ∀ c ∈ row, c.1 ≠ emptyCell) : columns = other := by
  induction seated generalizing other with
  | nil => cases again; rfl
  | cons here rest ih =>
      rcases List.forall_mem_cons.mp filled with ⟨first, later⟩
      cases again with
      | cons there more =>
          rw [here.unique there (List.forall_mem_map.mpr first), ih more later]

theorem fit {width : Nat} (seated : SeatedRows columns rows grid)
    (fits : ∀ nodes ∈ grid, nodes.length ≤ width) :
    SeatedRows columns rows (grid.map (fit width emptyCell)) := by
  induction seated with
  | nil => exact .nil
  | cons here rest ih =>
      rcases List.forall_mem_cons.mp fits with ⟨short, shorter⟩
      refine .cons ?_ (ih shorter)
      rw [fit_eq_append short]
      exact here.append_empties _

end SeatedRows

/-- The cells of a grid stand in the columns that are told from their spans. -/
theorem seatedRows_expand (above : List Descent) (rows : List (List Cell)) :
    SeatedRows (standings above (rows.map (·.map Prod.snd))) rows (expand above rows) := by
  induction rows generalizing above with
  | nil => exact .nil
  | cons row rows ih =>
      obtain ⟨nodes, descents⟩ := ((Seated.line 0 row).place above).widen 0
      have columns : standing above (row.map Prod.snd) =
          widened 0 ((List.range' 0 row.length).map (above.foldl Descent.shift))
            (row.map Prod.snd) := by
        rw [standing, List.length_map]
      rw [← columns] at nodes descents
      have rest := ih (above.filterMap Descent.next? ++
        ((standing above (row.map Prod.snd)).zip (row.map Prod.snd)).filterMap Descent.of?)
      rw [← descents] at rest
      rw [List.map_cons, standings, ← descents]
      exact .cons nodes rest

end HtmlToMarkdown.Markdown
