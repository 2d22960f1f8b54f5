import HtmlToMarkdown.Proofs.Flow.Coverage
import HtmlToMarkdown.Proofs.Normal
import HtmlToMarkdown.Proofs.Walk.Invariant

namespace HtmlToMarkdown.Markdown

def Node.TableFree (n : Node) : Prop := n.Throughout (·.kind ≠ .table)

def Shape.Admits : Shape → List Node → Prop
  | list ordered start _, items => start.isSome = ordered ∧ ∀ c ∈ items, c.kind = .listItem
  | table align, rows =>
    align ≠ [] ∧
      ∀ r ∈ rows, r.kind = .tableRow ∧ r.children.length = align.length ∧ r.TableFree
  | tableRow, cells => ∀ c ∈ cells, c.kind = .tableCell
  | heading depth, _ => 1 ≤ depth ∧ depth ≤ 6
  | _, _ => True

def Node.WellFormed : Node → Prop
  | .parent shape origin children => origin.data = none ∧ shape.Admits children
  | .leaf _ origin => origin.data = none

/-- A well-formed node, and no table where there is one around. -/
def Node.Sound (inTable : Bool) (n : Node) : Prop :=
  n.WellFormed ∧ (inTable → n.kind ≠ .table)

section Sound

variable {t : Bool} {shape : Shape} {origin : Origin} {children ds : List Node}

theorem sound_parent (noData : origin.data = none) (admitted : shape.Admits ds)
    (noTable : t → shape.kind ≠ .table) (inside : ∀ d ∈ ds, d.Throughout (Node.Sound t)) :
    (Node.parent shape origin ds).Throughout (Node.Sound t) :=
  Node.throughout_parent.mpr ⟨⟨⟨noData, admitted⟩, noTable⟩, inside⟩

theorem sound_mixed (mixed : shape.isPhrasing ∨ shape.isContainer) (noData : origin.data = none)
    (inside : ∀ d ∈ ds, d.Throughout (Node.Sound t)) :
    (Node.parent shape origin ds).Throughout (Node.Sound t) := by
  apply sound_parent noData ?_ ?_ inside
  · cases shape with
    | emphasis | strong | delete | link | root | blockquote | listItem => trivial
    | _ => rcases mixed with mixed | mixed <;> cases mixed
  · intro _ table
    cases shape with
    | table align => rcases mixed with mixed | mixed <;> cases mixed
    | _ => cases table

theorem sound_row (noData : origin.data = none) (kinds : ∀ d ∈ ds, d.kind = .tableCell)
    (inside : ∀ d ∈ ds, d.Throughout (Node.Sound t)) :
    (Node.parent .tableRow origin ds).Throughout (Node.Sound t) :=
  sound_parent noData kinds (fun _ => by decide) inside

theorem sound_list {ordered : Bool} {start : Option UInt32} {spread : Bool}
    (noData : origin.data = none) (started : start.isSome = ordered)
    (kinds : ∀ d ∈ ds, d.kind = .listItem) (inside : ∀ d ∈ ds, d.Throughout (Node.Sound t)) :
    (Node.parent (.list ordered start spread) origin ds).Throughout (Node.Sound t) :=
  sound_parent noData ⟨started, kinds⟩ (fun _ => by simp [Shape.kind]) inside

theorem sound_table {align : List (Option Align)} (noData : origin.data = none)
    (columns : align ≠ []) (kinds : ∀ r ∈ ds, r.kind = .tableRow)
    (lengths : ∀ r ∈ ds, r.children.length = align.length)
    (inside : ∀ r ∈ ds, r.Throughout (Node.Sound true)) :
    (Node.parent (.table align) origin ds).Throughout (Node.Sound false) := by
  apply sound_parent noData
  · constructor
    · exact columns
    · intro r member
      have free : r.TableFree := (inside r member).mono fun _ sound => sound.2 rfl
      exact ⟨kinds r member, lengths r member, free⟩
  · simp
  · intro r member
    exact (inside r member).mono fun _ sound => ⟨sound.1, by simp⟩

end Sound

theorem Node.Sound.regular {t : Bool} {n : Node} (sound : n.Sound t) : n.Regular := by
  obtain ⟨wellFormed, -⟩ := sound
  cases n with
  | leaf content origin =>
      have noData : origin.data = none := wellFormed
      simp [Node.Regular, noData]
  | parent shape origin children =>
      obtain ⟨noData, admitted⟩ := wellFormed
      refine ⟨by simp [noData], fun c member kind asked => ?_⟩
      cases shape with
      | list ordered start spread =>
          rw [Option.mem_some.mp asked.symm]
          exact admitted.2 c member
      | table align =>
          rw [Option.mem_some.mp asked.symm]
          exact (admitted.2 c member).1
      | tableRow =>
          rw [Option.mem_some.mp asked.symm]
          exact admitted c member
      | _ => cases asked

theorem length_children_nest {shape : Shape} {origin : Origin} {n : Node}
    (kind : n.kind = .tableRow) :
    (nest shape origin n).children.length = n.children.length := by
  obtain ⟨place, cells, rfl⟩ := exists_row_of_kind kind
  rw [nest_grid shape origin rfl]
  exact List.length_map _

theorem sound_flowInvariant : FlowInvariant fun t (n : Node) => n.Throughout (Node.Sound t) where
  below holds := (Node.throughout_parent.mp holds).2
  copy splittable holds inside :=
    sound_mixed (.inl (Shape.isPhrasing_of_isSplittable splittable))
      (Node.throughout_parent.mp holds).1.1.1 inside
  refill container holds _ inside :=
    sound_mixed (.inr container) (Node.throughout_parent.mp holds).1.1.1 inside
  grid := by
    intro t shape origin kind place children isGrid holds inside
    obtain ⟨⟨⟨noData, admitted⟩, noTable⟩, all⟩ := Node.throughout_parent.mp holds
    have kinds : ∀ k, (∀ c ∈ children, c.kind = k) →
        ∀ d ∈ children.map (nest shape origin), d.kind = k := by
      intro k kinds d member
      obtain ⟨c, here, rfl⟩ := List.mem_map.mp member
      rw [kind_nest, kinds c here]
    have nested : ∀ j, (∀ c ∈ children, c.Throughout (Node.Sound j)) →
        ∀ d ∈ children.map (nest shape origin), d.Throughout (Node.Sound j) := by
      intro j all d member
      obtain ⟨c, here, rfl⟩ := List.mem_map.mp member
      exact inside j c here (all c here)
    cases kind with
    | list ordered start spread =>
        exact sound_list noData admitted.1 (kinds _ admitted.2) (nested t all)
    | tableRow => exact sound_row noData (kinds _ admitted) (nested t all)
    | table align =>
        have outside : t = false := by simpa [Shape.kind] using noTable
        subst outside
        obtain ⟨columns, rows⟩ := admitted
        apply sound_table noData columns (kinds _ fun r member => (rows r member).1)
        · intro r member
          obtain ⟨c, here, rfl⟩ := List.mem_map.mp member
          rw [length_children_nest (rows c here).1]
          exact (rows c here).2.1
        · apply nested true
          intro c member m below
          exact ⟨(all c member m below).1, fun _ => (rows c member).2.2 m below⟩
    | _ => cases isGrid
  single := by
    intro t kind place children d notGrid notContainer holds inside
    obtain ⟨⟨⟨noData, admitted⟩, noTable⟩, -⟩ := Node.throughout_parent.mp holds
    refine sound_parent noData ?_ noTable (List.forall_mem_singleton.mpr inside)
    cases kind with
    | list | table | tableRow => exact absurd rfl notGrid
    | heading depth => exact admitted
    | _ => trivial
  run := by
    intro t ds phrasing visible inside
    refine sound_parent rfl trivial (fun _ => by decide) ?_
    intro d member
    exact inside d (mem_of_mem_dropSurroundingBreaks member)

theorem headingDepth_bounds (tag : String) :
    1 ≤ Handler.headingDepth tag ∧ Handler.headingDepth tag ≤ 6 := by
  unfold Handler.headingDepth
  split
  next c _ =>
    split
    next digit =>
      have low : 1 ≤ Text.digitValue c := by
        have above : '1'.toNat ≤ c.toNat :=
          of_decide_eq_true (Bool.and_eq_true_iff.mp digit).1
        rw [Text.digitValue]
        exact Nat.le_sub_of_add_le above
      have value : (UInt8.ofNat (min (Text.digitValue c) 6)).toNat = min (Text.digitValue c) 6 := by
        rw [UInt8.toNat_ofNat']
        exact Nat.mod_eq_of_lt (by omega)
      rw [UInt8.le_iff_toNat_le, UInt8.le_iff_toNat_le, value]
      exact ⟨Nat.le_min.mpr ⟨low, by decide⟩, Nat.min_le_right _ _⟩
    next => decide
  next => decide

theorem sound_conversionInvariant :
    ConversionInvariant (fun _ => True) fun t (n : Node) => n.Throughout (Node.Sound t) where
  toFlowInvariant := sound_flowInvariant
  leaf t content _ := by
    refine Node.throughout_leaf.mpr ⟨rfl, fun _ => ?_⟩
    cases content <;> simp [Leaf.kind]
  retext holds other :=
    Node.throughout_leaf.mpr
      ⟨(Node.throughout_leaf.mp holds).1, fun _ => by simp [Leaf.kind]⟩
  phrasing isPhrasing _ inside := sound_mixed (.inl isPhrasing) rfl inside
  blocks isContainer _ inside :=
    sound_mixed (.inr isContainer) rfl (sound_flowInvariant.wrap inside)
  inlineRoot _ _ inside := sound_mixed (.inr rfl) rfl inside
  paragraph _ _ inside := by
    refine sound_parent rfl trivial (fun _ => by decide) ?_
    intro d member
    exact inside d (mem_of_mem_dropSurroundingBreaks member)
  heading tag _ inside := by
    refine sound_parent rfl (headingDepth_bounds tag) (fun _ => by simp [Shape.kind]) ?_
    intro d member
    exact inside d (mem_of_mem_dropSurroundingBreaks member)
  item _ spread inside := sound_mixed (.inr rfl) rfl inside
  stray := by
    intro t shape origin children ds kind holds inside
    obtain ⟨⟨⟨noData, -⟩, noTable⟩, -⟩ := Node.throughout_parent.mp holds
    refine sound_parent noData ?_ noTable inside
    cases shape with
    | listItem | tableCell => trivial
    | _ => simp [Shape.kind] at kind
  emptyItem t := sound_mixed (.inr rfl) rfl (by simp)
  list ordered start spread _ kinds inside :=
    sound_list rfl (by cases ordered <;> rfl) kinds inside
  cell _ inside := sound_parent rfl trivial (fun _ => by decide) inside
  row _ kinds inside := sound_row rfl kinds inside
  refillRow holds kinds inside := sound_row (Node.throughout_parent.mp holds).1.1.1 kinds inside
  table align _ columns kinds lengths inside :=
    sound_table rfl columns kinds lengths inside

theorem tableFree_normalize {n : Node} (free : n.TableFree) : n.normalize.TableFree := by
  apply throughout_normalize ?_ ?_ free
  · intro value other origin next _ _
    simp [Leaf.kind]
  · intro shape origin children holds
    rw [kind_normalize]
    exact holds.self

theorem length_children_normalize {r : Node} (wellFormed : r.WellFormed)
    (kind : r.kind = .tableRow) :
    r.normalize.children.length = r.children.length := by
  obtain ⟨origin, cells, rfl⟩ := exists_row_of_kind kind
  rw [normalize_of_kind (by decide) wellFormed.2]
  exact List.length_map _

theorem wellFormed_normalize {n : Node} (holds : n.Throughout Node.WellFormed) :
    n.normalize.Throughout Node.WellFormed := by
  apply throughout_normalize ?_ ?_ holds
  · intro value other origin next here same
    exact same.trans here
  · intro shape origin children all
    obtain ⟨⟨noData, admitted⟩, below⟩ := Node.throughout_parent.mp all
    have kinds : ∀ k, (∀ c ∈ children, c.kind = k) →
        ∀ d ∈ children.map Node.normalize, d.kind = k := by
      intro k kinds d member
      obtain ⟨c, here, rfl⟩ := List.mem_map.mp member
      rw [kind_normalize, kinds c here]
    cases shape with
    | list ordered start spread =>
        rw [normalize_of_kind (by decide) admitted.2]
        exact ⟨noData, admitted.1, kinds _ admitted.2⟩
    | tableRow =>
        rw [normalize_of_kind (by decide) admitted]
        exact ⟨noData, kinds _ admitted⟩
    | table align =>
        obtain ⟨columns, rows⟩ := admitted
        rw [normalize_of_kind (by decide) fun r member => (rows r member).1]
        refine ⟨noData, columns, fun d member => ?_⟩
        obtain ⟨r, here, rfl⟩ := List.mem_map.mp member
        obtain ⟨kind, length, free⟩ := rows r here
        refine ⟨(kind_normalize r).trans kind, ?_, tableFree_normalize free⟩
        rw [length_children_normalize (below r here).self kind, length]
    | heading depth => exact ⟨noData, admitted⟩
    | _ => exact ⟨noData, trivial⟩

end HtmlToMarkdown.Markdown

namespace HtmlToMarkdown

open Markdown (Node)

theorem Output.toTree_cases (output : Option Output) :
    Output.nodes output = [Output.toTree output] ∨
      Output.toTree output = .plain .root (Output.nodes output) := by
  rcases output with - | (node | ns)
  · exact .inr rfl
  · exact .inl rfl
  · exact .inr rfl

theorem Output.throughout_toTree {p : Node → Prop} {output : Option Output}
    (root : ∀ ns, (∀ n ∈ ns, n.Throughout p) → (Node.plain .root ns).Throughout p)
    (nodes : ∀ n ∈ Output.nodes output, n.Throughout p) : (Output.toTree output).Throughout p := by
  rcases Output.toTree_cases output with single | several
  · exact nodes _ (single ▸ List.mem_singleton_self _)
  · rw [several]
    exact root _ nodes

theorem wellFormed_walkTree [UrlReader] (options : Options) (tree : Html.Node) :
    (walkTree options Handlers.standard tree).Throughout Node.WellFormed := by
  have yields := Markdown.sound_conversionInvariant.yields_anywhere tree none
    (State.start options tree)
  have sound : (walkTree options Handlers.standard tree).Throughout (Node.Sound false) :=
    Output.throughout_toTree (fun _ => Markdown.sound_mixed (.inr rfl) rfl) yields.2
  exact sound.mono fun _ holds => holds.1

/-- Every node of a result is well formed. -/
theorem wellFormed_convert [UrlReader] (options : Options) (tree : Html.Node) :
    (convert options Handlers.standard tree).Throughout Node.WellFormed :=
  Markdown.wellFormed_normalize (wellFormed_walkTree options _)

end HtmlToMarkdown
