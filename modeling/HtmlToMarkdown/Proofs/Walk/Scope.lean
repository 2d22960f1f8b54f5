import HtmlToMarkdown.Proofs.Walk.Actions

namespace HtmlToMarkdown

open Conversion (reads)
open Handlers (standard)
open Html (CellSpan)

def Lengthened (rows longer : List (List CellSpan)) : Prop :=
  rows = [] ∨ ∃ front last cells added,
    rows = front ++ [last] ∧ longer = front ++ (last ++ cells) :: added

namespace Lengthened

variable {rows longer longest : List (List CellSpan)}

theorem append (rows added : List (List CellSpan)) : Lengthened rows (rows ++ added) := by
  rcases List.eq_nil_or_concat rows with none | ⟨front, last, same⟩
  · exact .inl none
  · refine .inr ⟨front, last, [], added, by simp [same], ?_⟩
    simp [same]

theorem refl (rows : List (List CellSpan)) : Lengthened rows rows := by
  simpa using append rows []

theorem appendToLastRow (span : CellSpan) (rows : List (List CellSpan)) :
    Lengthened rows (State.appendToLastRow span rows) := by
  fun_induction State.appendToLastRow span rows with
  | case1 => exact .inl rfl
  | case2 row => exact .inr ⟨[], row, [span], [], rfl, rfl⟩
  | case3 row rows more ih =>
      rcases ih with none | ⟨front, last, cells, added, same, longer⟩
      · exact absurd none more
      · refine .inr ⟨row :: front, last, cells, added, ?_, ?_⟩
        · rw [same, List.cons_append]
        · rw [longer, List.cons_append]

theorem trans (first : Lengthened rows longer) (second : Lengthened longer longest) :
    Lengthened rows longest := by
  rcases first with none | ⟨front, last, cells, added, rfl, rfl⟩
  · exact .inl none
  · rcases second with none | ⟨before, tip, more, rest, same, rfl⟩
    · simp at none
    · -- The last row of the middle is either the one that took in cells or one put after it.
      rcases List.eq_nil_or_concat added with rfl | ⟨between, final, rfl⟩
      · obtain ⟨rfl, equal⟩ := List.append_inj' same rfl
        obtain rfl : last ++ cells = tip := by simpa using equal
        exact .inr ⟨front, last, cells ++ more, rest, rfl, by simp⟩
      · have split : (front ++ (last ++ cells) :: between) ++ [final] = before ++ [tip] := by
          simpa using same
        obtain ⟨rfl, -⟩ := List.append_inj' split rfl
        exact .inr ⟨front, last, cells, between ++ (tip ++ more) :: rest, rfl, by simp⟩

end Lengthened

/-- The same tables are open, and only the innermost has grown. -/
inductive SameTables :
    List (List (List CellSpan)) → List (List (List CellSpan)) → Prop
  | closed : SameTables [] []
  | opened {rows longer : List (List CellSpan)} (outer : List (List (List CellSpan)))
    (grown : Lengthened rows longer) : SameTables (rows :: outer) (longer :: outer)

namespace SameTables

theorem refl (frames : List (List (List CellSpan))) : SameTables frames frames := by
  cases frames with
  | nil => exact .closed
  | cons rows outer => exact .opened outer (.refl rows)

theorem trans {frames middle final : List (List (List CellSpan))} (first : SameTables frames middle)
    (second : SameTables middle final) : SameTables frames final := by
  cases first with
  | closed => exact second
  | opened outer grown =>
      cases second with
      | opened _ more => exact .opened outer (grown.trans more)

theorem eq_nil {final : List (List (List CellSpan))} (same : SameTables [] final) : final = [] := by
  cases same
  rfl

theorem tail {rows : List (List CellSpan)} {outer final : List (List (List CellSpan))}
    (same : SameTables (rows :: outer) final) : final.tail = outer := by
  cases same
  rfl

end SameTables

structure State.Scoped (s t : State) : Prop where
  options : t.options = s.options
  readBase : t.readBase = s.readBase
  elements : t.elements = s.elements
  quoteDepth : t.quoteDepth = s.quoteDepth
  inTable : t.inTable = s.inTable
  tables : SameTables s.spanFrames t.spanFrames
  base : s.baseFound → t.baseFound = s.baseFound ∧ t.base = s.base

namespace State.Scoped

variable {s t u : State}

theorem refl (s : State) : s.Scoped s :=
  ⟨rfl, rfl, rfl, rfl, rfl, .refl _, fun _ => ⟨rfl, rfl⟩⟩

theorem trans (first : s.Scoped t) (second : t.Scoped u) : s.Scoped u where
  options := second.options.trans first.options
  readBase := second.readBase.trans first.readBase
  elements := second.elements.trans first.elements
  quoteDepth := second.quoteDepth.trans first.quoteDepth
  inTable := second.inTable.trans first.inTable
  tables := first.tables.trans second.tables
  base found := by
    obtain ⟨stillFound, sameBase⟩ := first.base found
    obtain ⟨thenFound, thenBase⟩ := second.base (stillFound ▸ found)
    exact ⟨thenFound.trans stillFound, thenBase.trans sameBase⟩

theorem freezeBase (s : State) (href : Option String) : s.Scoped (s.freezeBase href) := by
  unfold State.freezeBase
  split
  · exact refl s
  next fresh => exact ⟨rfl, rfl, rfl, rfl, rfl, .refl _, fun found => absurd found fresh⟩

theorem startSpanRow (s : State) : s.Scoped s.startSpanRow := by
  unfold State.startSpanRow
  split
  · exact refl s
  next rows frames opened =>
    refine ⟨rfl, rfl, rfl, rfl, rfl, ?_, fun _ => ⟨rfl, rfl⟩⟩
    rw [opened]
    exact .opened frames (.append rows [[]])

theorem recordSpan (s : State) (span : CellSpan) : s.Scoped (s.recordSpan span) := by
  unfold State.recordSpan
  split
  · exact refl s
  next rows frames opened =>
    refine ⟨rfl, rfl, rfl, rfl, rfl, ?_, fun _ => ⟨rfl, rfl⟩⟩
    rw [opened]
    exact .opened frames (.appendToLastRow span rows)

/-- A quotation that was opened is closed again. -/
theorem closeQuote (inside : { s with quoteDepth := s.quoteDepth + 1 }.Scoped t) :
    s.Scoped { t with quoteDepth := t.quoteDepth - 1 } where
  options := inside.options
  readBase := inside.readBase
  elements := inside.elements
  quoteDepth := by
    rw [inside.quoteDepth]
    exact Nat.add_sub_cancel _ _
  inTable := inside.inTable
  tables := inside.tables
  base := inside.base

/-- What was recorded in a table is gone when the table is closed. -/
theorem closeTable
    (inside : { s with inTable := true, spanFrames := [] :: s.spanFrames }.Scoped t) :
    s.Scoped { t with inTable := s.inTable, spanFrames := t.spanFrames.tail } where
  options := inside.options
  readBase := inside.readBase
  elements := inside.elements
  quoteDepth := inside.quoteDepth
  inTable := rfl
  tables := by
    rw [inside.tables.tail]
    exact .refl _
  base := inside.base

/-- After a base was found, URLs are resolved in the same way for good. -/
theorem resolve (same : s.Scoped t) (found : s.baseFound) (url : Option String) :
    t.resolve url = s.resolve url := by
  unfold State.resolve
  rw [(same.base found).2]

end State.Scoped

theorem scoped_rules :
    ActionRules (fun _ _ => True) fun _ act => ∀ s : State, s.Scoped (act.run s).2 where
  pure _ s := .refl s
  bind first rest s := (first s).trans (rest _ _)
  reads _ s := .refl s
  input _ _ _ s := .refl s
  base e _ _ s := .freezeBase s (e.attribute? "href")
  row s := .startSpanRow s
  cell span s := .recordSpan s span
  nestedQuote holds _ := .closeQuote (holds _)
  tableScope holds _ := .closeTable (holds _)

theorem scoped_nodes (n : Html.Node) (parent : Option Html.Element) (s : State) :
    s.Scoped ((Walk.nodes standard.convert n parent).run s).2 := by
  refine scoped_rules.convert (Html.Node.Throughout.of_forall ?_ n) parent s
  intro m
  cases m <;> trivial

/-- The conversion of a node, or of any nodes one after the other, leaves the quotations, the
tables and the elements by `id` as they were. It only adds to the innermost table, and after a base
was found no other one counts for any URL. -/
theorem scoped_convert (n : Html.Node) (ns : List Html.Node) (parent : Option Html.Element)
    (s : State) :
    (s.Scoped ((standard.convert n parent).run s).2 ∧
      s.Scoped ((Walk.all standard.convert parent ns).run s).2) ∧
    (s.baseFound → ∀ url, ((standard.convert n parent).run s).2.resolve url = s.resolve url ∧
      ((Walk.all standard.convert parent ns).run s).2.resolve url = s.resolve url) := by
  have one : s.Scoped ((standard.convert n parent).run s).2 := scoped_nodes n parent s
  have several : s.Scoped ((Walk.all standard.convert parent ns).run s).2 :=
    scoped_rules.all (fun n _ => scoped_nodes n parent) s
  exact ⟨⟨one, several⟩, fun found url => ⟨one.resolve found url, several.resolve found url⟩⟩

end HtmlToMarkdown
