import HtmlToMarkdown.Proofs.Table.Source

namespace HtmlToMarkdown

open Handler (Layout gridElements gridElementsIn layout)
open Html (AllCellFree Element Elements gridTags)

def rowCount (es : List Element) : Nat := es.countP (·.tag == "tr")

/-- There is a `thead`, or a `th` before the third row, `begun` of them having begun already. -/
def HasHeader (begun : Nat) (es : List Element) : Prop :=
  ∃ before mark after, es = before ++ mark :: after ∧
    (mark.tag = "thead" ∨ mark.tag = "th" ∧ begun + rowCount before ≤ 2)

namespace Html.Element

def Headed (e : Element) : Prop := HasHeader 0 (gridElementsIn e.children)

def HasTh (r : Element) : Prop := ∃ c ∈ r.elementChildren, c.tag = "th"

/-- A table with a `thead`, or a `th` in one of the first two rows. -/
def Titled (e : Element) : Prop :=
  (∃ p ∈ e.elementChildren, p.tag = "thead") ∨ ∃ r ∈ e.rows.take 2, r.HasTh

/-- No caption or group of columns holds rows or headers. -/
def PlainAsides (e : Element) : Prop :=
  ∀ p ∈ e.elementChildren, p.IsAside →
    ∀ x ∈ gridElementsIn p.children, x.tag ∉ ["tr", "th", "thead"]

end Html.Element

section Reading

variable {begun : Nat} {es fs : List Element}

@[simp] theorem not_hasHeader_nil : ¬ HasHeader begun [] := by
  rintro ⟨before, mark, after, split, -⟩
  exact absurd split.symm (by simp)

theorem rowCount_cons (e : Element) (es : List Element) :
    rowCount (e :: es) = rowCount es + if e.tag = "tr" then 1 else 0 := by
  rw [rowCount, List.countP_cons, rowCount]
  simp only [beq_iff_eq]

theorem hasHeader_cons {e : Element} :
    HasHeader begun (e :: es) ↔ (e.tag = "thead" ∨ e.tag = "th" ∧ begun ≤ 2) ∨
      HasHeader (begun + if e.tag = "tr" then 1 else 0) es := by
  constructor
  · rintro ⟨before, mark, after, split, makes⟩
    cases before with
    | nil =>
        rcases List.cons.inj split with ⟨rfl, rfl⟩
        exact .inl makes
    | cons first before =>
        rcases List.cons.inj split with ⟨rfl, rfl⟩
        rw [rowCount_cons] at makes
        have later : mark.tag = "thead" ∨ mark.tag = "th" ∧
            (begun + if e.tag = "tr" then 1 else 0) + rowCount before ≤ 2 := by
          rcases makes with thead | ⟨th, few⟩
          · exact .inl thead
          · exact .inr ⟨th, by omega⟩
        exact .inr ⟨before, mark, after, rfl, later⟩
  · rintro (here | ⟨before, mark, after, rfl, makes⟩)
    · exact ⟨[], e, es, rfl, here⟩
    · have earlier : mark.tag = "thead" ∨ mark.tag = "th" ∧ begun + rowCount (e :: before) ≤ 2 := by
        rw [rowCount_cons]
        rcases makes with thead | ⟨th, few⟩
        · exact .inl thead
        · exact .inr ⟨th, by omega⟩
      exact ⟨e :: before, mark, after, rfl, earlier⟩

theorem hasHeader_append :
    HasHeader begun (es ++ fs) ↔ HasHeader begun es ∨ HasHeader (begun + rowCount es) fs := by
  induction es generalizing begun with
  | nil => simp [rowCount]
  | cons e es ih =>
      rw [List.cons_append, hasHeader_cons, ih, hasHeader_cons, rowCount_cons, Nat.add_assoc,
        Nat.add_comm (rowCount es)]
      exact (or_assoc).symm

theorem rowCount_of_rowFree (rowFree : ∀ x ∈ es, x.tag ≠ "tr") : rowCount es = 0 := by
  apply List.countP_eq_zero.mpr
  intro x member tr
  exact rowFree x member (eq_of_beq tr)

/-- Before the next row begins, any `th` makes a header or none does. -/
theorem hasHeader_of_rowFree (rowFree : ∀ x ∈ es, x.tag ≠ "tr" ∧ x.tag ≠ "thead") :
    HasHeader begun es ↔ begun ≤ 2 ∧ ∃ x ∈ es, x.tag = "th" := by
  constructor
  · rintro ⟨before, mark, after, rfl, makes⟩
    have member : mark ∈ before ++ mark :: after := by simp
    rcases makes.resolve_left (rowFree mark member).2 with ⟨th, few⟩
    have early : begun ≤ 2 := by omega
    exact ⟨early, mark, member, th⟩
  · rintro ⟨few, mark, member, th⟩
    rcases List.append_of_mem member with ⟨before, after, rfl⟩
    have none : rowCount before = 0 :=
      rowCount_of_rowFree fun x inside => (rowFree x (List.mem_append_left _ inside)).1
    exact ⟨before, mark, after, rfl, .inr ⟨th, by rwa [none]⟩⟩

theorem headless_foldl_read (l : Layout) :
    (es.foldl Layout.read l).headless = false ↔ l.headless = false ∨ HasHeader l.row es := by
  induction es generalizing l with
  | nil => simp
  | cons e es ih =>
      rw [List.foldl_cons, ih, hasHeader_cons, ← or_assoc]
      unfold Layout.read
      by_cases th : e.tag = "th"
      · cases l.headless <;> simp [th]
      · by_cases td : e.tag = "td"
        · simp [td]
        · by_cases thead : e.tag = "thead"
          · simp [thead]
          · by_cases tr : e.tag = "tr"
            · simp [tr]
            · simp [th, td, thead, tr]

theorem headless_layout (e : Element) : (layout e).headless = false ↔ e.Headed := by
  rw [layout, headless_foldl_read]
  exact or_iff_right (by simp)

end Reading

/-- Elements that read as rows: among them are just these, and what makes a header is a `thead` or
a `th` in a row. -/
structure ReadsAs (es : List Element) (headed : Prop) (rows : List Element) : Prop where
  header (begun : Nat) :
    HasHeader begun es ↔ headed ∨ ∃ r ∈ rows.take (2 - begun), r.HasTh
  count : rowCount es = rows.length

namespace ReadsAs

theorem append {es fs rs more : List Element} {headed other : Prop} (reads : ReadsAs es headed rs)
    (rest : ReadsAs fs other more) : ReadsAs (es ++ fs) (headed ∨ other) (rs ++ more) where
  header begun := by
    have split : (∃ r ∈ (rs ++ more).take (2 - begun), r.HasTh) ↔
        (∃ r ∈ rs.take (2 - begun), r.HasTh) ∨
          ∃ r ∈ more.take (2 - begun - rs.length), r.HasTh := by
      simp only [List.take_append, List.mem_append, or_and_right, exists_or]
    rw [hasHeader_append, reads.header, rest.header, reads.count, split, Nat.sub_add_eq]
    exact or_or_or_comm
  count := by
    rw [rowCount, List.countP_append, ← rowCount, ← rowCount, reads.count, rest.count,
      List.length_append]

theorem plain {es : List Element} (plain : ∀ x ∈ es, x.tag ∉ ["tr", "th", "thead"]) :
    ReadsAs es False [] where
  header begun := by
    have rowFree : ∀ x ∈ es, x.tag ≠ "tr" ∧ x.tag ≠ "thead" := by
      intro x member
      have apart := plain x member
      constructor <;> intro named <;> simp [named] at apart
    have noTh : ¬ ∃ x ∈ es, x.tag = "th" := by
      rintro ⟨x, member, th⟩
      exact absurd (by simp [th]) (plain x member)
    rw [hasHeader_of_rowFree rowFree, List.take_nil]
    simp [noTh]
  count := by
    apply rowCount_of_rowFree
    intro x member tr
    exact absurd (by simp [tr]) (plain x member)

theorem flatMap {parts : List Element} {below : Element → List Element} {headed : Element → Prop}
    {rows : Element → List Element}
    (each : ∀ p ∈ parts, ReadsAs (below p) (headed p) (rows p)) :
    ReadsAs (parts.flatMap below) (∃ p ∈ parts, headed p) (parts.flatMap rows) := by
  induction parts with
  | nil => exact ⟨fun begun => by simp, rfl⟩
  | cons p parts ih =>
      rcases List.forall_mem_cons.mp each with ⟨here, later⟩
      rw [List.flatMap_cons, List.flatMap_cons]
      simp only [List.mem_cons, exists_eq_or_imp]
      exact here.append (ih later)

end ReadsAs

theorem lower_gridTags : ∀ tag ∈ gridTags, Text.lower tag = tag := by decide

mutual

theorem tag_of_mem_gridElements {n : Html.Node} (free : n.CellFree) :
    ∀ x ∈ gridElements n, x.tag ∉ gridTags := by
  match n with
  | .element tag properties children position =>
      unfold gridElements
      split
      · intro x member
        exact nomatch member
      next notTable =>
        rcases free.resolve_left (by simpa using notTable) with ⟨apart, inside⟩
        rw [List.forall_mem_cons]
        constructor
        · intro part
          exact apart ((lower_gridTags tag part).symm ▸ part)
        · exact tag_of_mem_gridElementsIn inside
  | .root _ _ | .text _ _ | .comment _ _ | .doctype _ => exact fun x member => nomatch member

theorem tag_of_mem_gridElementsIn {ns : List Html.Node} (free : AllCellFree ns) :
    ∀ x ∈ gridElementsIn ns, x.tag ∉ gridTags := by
  match ns with
  | [] => exact fun x member => nomatch member
  | n :: ns =>
      exact List.forall_mem_append.mpr
        ⟨tag_of_mem_gridElements free.1, tag_of_mem_gridElementsIn free.2⟩

end

theorem gridElementsIn_map {es : List Element} (apart : ∀ e ∈ es, e.tag ≠ "table") :
    gridElementsIn (es.map Element.toNode) =
      es.flatMap fun e => e :: gridElementsIn e.children := by
  induction es with
  | nil => rfl
  | cons e es ih =>
      rcases List.forall_mem_cons.mp apart with ⟨here, later⟩
      rw [List.map_cons, gridElementsIn, ih later, List.flatMap_cons, Element.toNode, gridElements,
        if_neg (by simpa using here)]

section Cells

variable {cs : List Element} (areCells : ∀ c ∈ cs, c.IsCell)

include areCells

theorem gridElementsIn_cells :
    gridElementsIn (cs.map Element.toNode) =
      cs.flatMap fun c => c :: gridElementsIn c.children := by
  apply gridElementsIn_map
  intro c member
  exact (areCells c member).tag_ne_table

/-- The elements of cells are the cells and others that are no parts of the table. -/
theorem mem_gridElementsIn_cells {x : Element}
    (member : x ∈ gridElementsIn (cs.map Element.toNode)) :
    x ∈ cs ∧ (x.tag = "td" ∨ x.tag = "th") ∨ x.tag ∉ gridTags := by
  rw [gridElementsIn_cells areCells] at member
  rcases List.mem_flatMap.mp member with ⟨c, inside, here⟩
  rcases List.mem_cons.mp here with rfl | below
  · exact .inl ⟨inside, (areCells x inside).named⟩
  · exact .inr (tag_of_mem_gridElementsIn (areCells c inside).content x below)

theorem rowFree_cells :
    ∀ x ∈ gridElementsIn (cs.map Element.toNode), x.tag ≠ "tr" ∧ x.tag ≠ "thead" := by
  intro x member
  rcases mem_gridElementsIn_cells areCells member with ⟨-, named | named⟩ | apart
  · exact named ▸ by decide
  · exact named ▸ by decide
  · constructor <;> intro named <;> exact absurd (named ▸ by decide) apart

theorem hasHeader_cells {begun : Nat} :
    HasHeader begun (gridElementsIn (cs.map Element.toNode)) ↔
      begun ≤ 2 ∧ ∃ c ∈ cs, c.tag = "th" := by
  rw [hasHeader_of_rowFree (rowFree_cells areCells)]
  apply and_congr_right
  intro
  constructor
  · rintro ⟨x, member, th⟩
    rcases mem_gridElementsIn_cells areCells member with ⟨inside, -⟩ | apart
    · exact ⟨x, inside, th⟩
    · exact absurd (th ▸ by decide) apart
  · rintro ⟨c, member, th⟩
    rw [gridElementsIn_cells areCells]
    exact ⟨c, List.mem_flatMap.mpr ⟨c, member, List.mem_cons_self⟩, th⟩

end Cells

namespace ReadsAs

theorem row {r : Element} (isRow : r.IsRow) :
    ReadsAs (r :: gridElementsIn r.children) False [r] := by
  rcases isRow.cells.eq_map with ⟨whole, areCells⟩
  have rowFree := rowFree_cells areCells
  have header := fun begun => @hasHeader_cells _ areCells begun
  rw [← whole] at rowFree header
  constructor
  · intro begun
    have notHeader : ¬ (r.tag = "thead" ∨ r.tag = "th" ∧ begun ≤ 2) := by
      rw [isRow.named]
      simp
    rw [hasHeader_cons, or_iff_right notHeader, if_pos isRow.named, header, false_or]
    -- The row is among the first two exactly when at most one has begun before it.
    by_cases early : begun ≤ 1
    · have some : [r].take (2 - begun) = [r] := List.take_of_length_le (by simp; omega)
      have soon : begun + 1 ≤ 2 := by omega
      rw [some, and_iff_right soon]
      simp [Element.HasTh, Element.elementChildren]
    · have none : 2 - begun = 0 := by omega
      have late : ¬ begun + 1 ≤ 2 := by omega
      rw [none, List.take_zero]
      simp [late]
  · rw [rowCount_cons, if_pos isRow.named, rowCount_of_rowFree fun x member => (rowFree x member).1]
    rfl

theorem group {e : Element} (isSection : e.IsSection) :
    ReadsAs (e :: gridElementsIn e.children) (e.tag = "thead") e.elementChildren := by
  rcases isSection.rows.eq_map with ⟨whole, areRows⟩
  have apart : ∀ r ∈ e.children.filterMap Html.Node.asElement?, r.tag ≠ "table" :=
    fun r member => Element.IsPart.tag_ne_table (.inl (areRows r member))
  have rows := flatMap fun r member => row (areRows r member)
  rw [← gridElementsIn_map apart, ← whole, List.flatMap_singleton'] at rows
  have plainTag : e.tag ≠ "tr" ∧ e.tag ≠ "th" := by
    rcases isSection.named with named | named | named <;> rw [named] <;> decide
  constructor
  · intro begun
    rw [hasHeader_cons, if_neg plainTag.1, Nat.add_zero, rows.header]
    simp [plainTag.2, Element.elementChildren]
  · rw [rowCount_cons, if_neg plainTag.1, Nat.add_zero, rows.count]
    rfl

theorem aside {e : Element} (isAside : e.IsAside)
    (content : ∀ x ∈ gridElementsIn e.children, x.tag ∉ ["tr", "th", "thead"]) :
    ReadsAs (e :: gridElementsIn e.children) False [] := by
  apply plain
  rw [List.forall_mem_cons]
  constructor
  · rcases isAside with named | named <;> rw [named] <;> decide
  · exact content

end ReadsAs

/-- Where only rows hold parts of a table, a header is what it is said to be. -/
theorem Html.Element.headed_iff_titled {e : Element} (isTable : e.IsTable)
    (plain : e.PlainAsides) : e.Headed ↔ e.Titled := by
  rcases isTable.parts.eq_map with ⟨whole, areParts⟩
  have each : ∀ p ∈ e.elementChildren,
      ReadsAs (p :: gridElementsIn p.children) (p.tag = "thead") p.rowsOfPart := by
    intro p member
    rcases areParts p member with isRow | isSection | isAside
    · have notThead : ¬ p.tag = "thead" := by
        rw [isRow.named]
        decide
      rw [isRow.rowsOfPart, eq_false notThead]
      exact ReadsAs.row isRow
    · rw [isSection.rowsOfPart]
      exact ReadsAs.group isSection
    · have notThead : ¬ p.tag = "thead" := by
        rcases isAside with named | named <;> rw [named] <;> decide
      rw [isAside.rowsOfPart, eq_false notThead]
      exact ReadsAs.aside isAside (plain p member isAside)
  have apart : ∀ p ∈ e.elementChildren, p.tag ≠ "table" :=
    fun p member => (areParts p member).tag_ne_table
  have reads := (ReadsAs.flatMap each).header 0
  rw [← gridElementsIn_map apart] at reads
  unfold Headed
  rw [whole]
  exact reads

end HtmlToMarkdown
