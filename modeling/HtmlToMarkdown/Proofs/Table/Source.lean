import HtmlToMarkdown.Conversion.Tables

namespace HtmlToMarkdown.Html

def gridTags : List String := ["tr", "td", "th", "thead"]

mutual

/-- There are no parts of a table but in a table inside. -/
def Node.CellFree : Node → Prop
  | .root children _ => AllCellFree children
  | .element tag _ children _ =>
    tag = "table" ∨ Text.lower tag ∉ gridTags ∧ AllCellFree children
  | _ => True

def AllCellFree : List Node → Prop
  | [] => True
  | n :: ns => n.CellFree ∧ AllCellFree ns

end

def rowTags : List String := ["tr", "td", "th"]

mutual

/-- There are no rows and no cells but in a table inside. -/
def Node.Rowless : Node → Prop
  | .root children _ => AllRowless children
  | .element tag _ children _ =>
    tag = "table" ∨ Text.lower tag ∉ rowTags ∧ AllRowless children
  | _ => True

def AllRowless : List Node → Prop
  | [] => True
  | n :: ns => n.Rowless ∧ AllRowless ns

end

def Elements (p : Element → Prop) (ns : List Node) : Prop :=
  ∀ n ∈ ns, ∃ e : Element, n = e.toNode ∧ p e

namespace Element

/-- A cell without parts of the table around it. -/
structure IsCell (e : Element) : Prop where
  named : e.tag = "td" ∨ e.tag = "th"
  shown : ¬ e.isIgnored
  content : AllCellFree e.children

structure IsRow (e : Element) : Prop where
  named : e.tag = "tr"
  shown : ¬ e.isIgnored
  cells : Elements IsCell e.children

/-- A cell without rows and cells in it, whatever else of a table. -/
structure IsPlainCell (e : Element) : Prop where
  named : e.tag = "td" ∨ e.tag = "th"
  shown : ¬ e.isIgnored
  content : AllRowless e.children

structure IsPlainRow (e : Element) : Prop where
  named : e.tag = "tr"
  shown : ¬ e.isIgnored
  cells : Elements IsPlainCell e.children

structure IsSection (e : Element) : Prop where
  named : e.tag = "thead" ∨ e.tag = "tbody" ∨ e.tag = "tfoot"
  shown : ¬ e.isIgnored
  rows : Elements IsRow e.children

/-- A caption or a group of columns; neither is converted, whatever it holds. -/
def IsAside (e : Element) : Prop := e.tag = "caption" ∨ e.tag = "colgroup"

def IsPart (e : Element) : Prop := e.IsRow ∨ e.IsSection ∨ e.IsAside

structure IsTable (e : Element) : Prop where
  named : e.tag = "table"
  shown : ¬ e.isIgnored
  parts : Elements IsPart e.children

structure IsRowTable (e : Element) : Prop where
  named : e.tag = "table"
  shown : ¬ e.isIgnored
  rows : Elements IsPlainRow e.children

def rowsOfPart (e : Element) : List Element :=
  if e.tag = "tr" then [e]
  else if e.tag = "thead" ∨ e.tag = "tbody" ∨ e.tag = "tfoot" then e.elementChildren
  else []

def rows (e : Element) : List Element := e.elementChildren.flatMap rowsOfPart

end Element

theorem allRowless_iff {ns : List Node} : AllRowless ns ↔ ∀ n ∈ ns, n.Rowless := by
  induction ns with
  | nil => simp [AllRowless]
  | cons n ns ih => rw [AllRowless, ih, List.forall_mem_cons]

mutual

theorem Node.CellFree.rowless {n : Node} (free : n.CellFree) : n.Rowless := by
  match n with
  | .root children _ => exact @AllCellFree.rowless children free
  | .element tag _ children _ =>
      rcases free with table | ⟨apart, below⟩
      · exact .inl table
      · exact .inr ⟨fun part => apart (List.mem_append_left ["thead"] part), below.rowless⟩
  | .text _ _ => trivial
  | .comment _ _ => trivial
  | .doctype _ => trivial

theorem AllCellFree.rowless {ns : List Node} (free : AllCellFree ns) : AllRowless ns := by
  match ns with
  | [] => trivial
  | n :: ns => exact ⟨free.1.rowless, free.2.rowless⟩

end

theorem asElement?_toNode (e : Element) : e.toNode.asElement? = some e := rfl

theorem Elements.mono {p q : Element → Prop} {ns : List Node} (each : Elements p ns)
    (weaker : ∀ e, p e → q e) : Elements q ns := by
  intro n member
  rcases each n member with ⟨e, same, holds⟩
  exact ⟨e, same, weaker e holds⟩

theorem Elements.eq_map {p : Element → Prop} {ns : List Node} (each : Elements p ns) :
    ns = (ns.filterMap Node.asElement?).map Element.toNode ∧
      ∀ e ∈ ns.filterMap Node.asElement?, p e := by
  induction ns with
  | nil => exact ⟨rfl, by simp⟩
  | cons n ns ih =>
      rcases List.forall_mem_cons.mp each with ⟨⟨e, rfl, holds⟩, rest⟩
      rcases ih rest with ⟨same, all⟩
      rw [List.filterMap_cons_some (asElement?_toNode e)]
      constructor
      · rw [List.map_cons, ← same]
      · exact List.forall_mem_cons.mpr ⟨holds, all⟩

namespace Element

variable {e : Element}

theorem IsCell.plain (isCell : e.IsCell) : e.IsPlainCell where
  named := isCell.named
  shown := isCell.shown
  content := isCell.content.rowless

theorem IsRow.plain (isRow : e.IsRow) : e.IsPlainRow where
  named := isRow.named
  shown := isRow.shown
  cells := isRow.cells.mono fun _ => IsCell.plain

theorem IsCell.tag_ne_table (isCell : e.IsCell) : e.tag ≠ "table" := by
  rcases isCell.named with named | named <;> rw [named] <;> decide

theorem IsPart.tag_ne_table (isPart : e.IsPart) : e.tag ≠ "table" := by
  rcases isPart with isRow | isSection | isAside
  · rw [isRow.named]
    decide
  · rcases isSection.named with named | named | named <;> rw [named] <;> decide
  · rcases isAside with named | named <;> rw [named] <;> decide

theorem IsPlainRow.rowsOfPart (isRow : e.IsPlainRow) : e.rowsOfPart = [e] := if_pos isRow.named

theorem IsRow.rowsOfPart (isRow : e.IsRow) : e.rowsOfPart = [e] := isRow.plain.rowsOfPart

theorem IsSection.rowsOfPart (isSection : e.IsSection) : e.rowsOfPart = e.elementChildren := by
  have notRow : e.tag ≠ "tr" := by
    rcases isSection.named with named | named | named <;> rw [named] <;> decide
  rw [Element.rowsOfPart, if_neg notRow, if_pos isSection.named]

theorem IsAside.rowsOfPart (isAside : e.IsAside) : e.rowsOfPart = [] := by
  have other : e.tag ≠ "tr" ∧ ¬ (e.tag = "thead" ∨ e.tag = "tbody" ∨ e.tag = "tfoot") := by
    rcases isAside with named | named <;> rw [named] <;> decide
  rw [Element.rowsOfPart, if_neg other.1, if_neg other.2]

end Element

end HtmlToMarkdown.Html
