import HtmlToMarkdown.Proofs.Coercion
import HtmlToMarkdown.Proofs.Pushed.Room
import HtmlToMarkdown.Proofs.Unmixed

/-!
What the places of a document hold. Away from links no link has a block below it. Inside of a link
nothing that is to hold phrasing content has one, except for the links that are still to be split;
and wrapping splits these.
-/

namespace HtmlToMarkdown.Markdown

def Node.Unbroken : Node → Prop
  | .parent shape _ children => shape.isSplittable → ∀ d ∈ subtreeAll children, d.isPhrasing
  | .leaf _ _ => True

def Node.Pushed (n : Node) : Prop := n.Throughout Unbroken

section Pushed

variable {n : Node} {ns : List Node} {shape : Shape} {origin : Origin} {children : List Node}

theorem pushed_parent_iff :
    (Node.parent shape origin children).Pushed ↔
      (shape.isSplittable → ∀ c ∈ children, c.Inline) ∧ ∀ c ∈ children, c.Pushed := by
  rw [Node.Pushed, Node.throughout_parent, Node.Unbroken, forall_subtreeAll_iff]
  rfl

theorem Node.Clean.pushed (clean : n.Clean) : n.Pushed := by
  refine clean.mono fun m confined => ?_
  cases m with
  | leaf content origin => trivial
  | parent shape origin children =>
      intro splittable
      exact confined (Shape.holdsPhrasing_of_isPhrasing
        (Shape.isPhrasing_of_isSplittable splittable))

theorem Node.Pushed.split_eq (pushed : n.Pushed) : split n = [n] := by
  cases n with
  | leaf content origin => rw [split]
  | parent shape origin children =>
      rw [split, if_neg]
      intro straddles
      rcases Bool.and_eq_true_iff.mp straddles with ⟨splittable, needed⟩
      exact (not_wrapNeeded_iff children).mpr ((pushed_parent_iff.mp pushed).1 splittable) needed

end Pushed

/-- Below a link nothing that is to hold phrasing content has a block in it; elsewhere this is so
for links and deletions. -/
def Node.Settled (n : Node) : Bool → Prop
  | true => n.Clean
  | false => n.Pushed

section Settled

variable {n : Node} {ns : List Node} {covered : Bool} {shape : Shape} {origin : Origin}
  {children : List Node}

theorem Node.Inline.settled (inlined : n.Inline) (covered : Bool) : n.Settled covered := by
  cases covered with
  | true => exact inlined.clean
  | false => exact inlined.clean.pushed

theorem settled_leaf (content : Leaf) (origin : Origin) (covered : Bool) :
    (Node.leaf content origin).Settled covered := by
  cases covered <;> exact Node.throughout_leaf.mpr trivial

theorem Node.Settled.below (settled : (Node.parent shape origin children).Settled covered) :
    ∀ c ∈ children, c.Settled covered := by
  cases covered with
  | true => exact (clean_parent_iff.mp settled).2
  | false => exact (pushed_parent_iff.mp settled).2

theorem settled_parent (loose : ¬ shape.holdsPhrasing)
    (inside : ∀ c ∈ children, c.Settled covered) :
    (Node.parent shape origin children).Settled covered := by
  cases covered with
  | true => exact clean_parent_iff.mpr ⟨fun holds => absurd holds loose, inside⟩
  | false =>
      refine pushed_parent_iff.mpr ⟨fun splittable => ?_, inside⟩
      exact absurd (Shape.holdsPhrasing_of_isPhrasing
        (Shape.isPhrasing_of_isSplittable splittable)) loose

theorem settled_wrap (regular : ∀ n ∈ ns, n.Throughout Node.Regular)
    (holds : ∀ n ∈ ns, n.Settled covered ∨ n.Splittable) : ∀ m ∈ wrap ns, m.Settled covered := by
  cases covered with
  | true =>
      -- The wrapping rules of clean nodes take them all as still to be split.
      have splits : ∀ n ∈ ns, n.Splittable := fun n member =>
        (holds n member).elim .clean id
      exact clean_rules.flow_all ns regular splits
  | false =>
      have flat : ∀ m ∈ flatten ns, m.Pushed := by
        intro m member
        rw [flatten] at member
        rcases List.mem_flatMap.mp member with ⟨n, inside, here⟩
        rcases holds n inside with pushed | splits
        · rw [Node.Pushed.split_eq pushed] at here
          rw [List.mem_singleton.mp here]
          exact pushed
        · exact (clean_rules.part_all n (regular n inside) splits m here).pushed
      intro m member
      rcases mem_wrap member with ⟨here, -⟩ | ⟨nodes, found, -, rfl⟩
      · exact flat m here
      · refine pushed_parent_iff.mpr ⟨nofun, fun d hd => ?_⟩
        exact flat d (mem_of_mem_pieces found (mem_of_mem_dropSurroundingBreaks hd))

theorem settled_unlessInline (document : Bool)
    (regular : ∀ n ∈ ns, n.Throughout Node.Regular)
    (holds : ∀ n ∈ ns, n.Settled covered ∨ n.Splittable) :
    ∀ m ∈ (if document || wrapNeeded ns then wrap ns else ns), m.Settled covered := by
  split
  · exact settled_wrap regular holds
  next bare =>
    rw [Bool.or_eq_true, not_or] at bare
    exact fun m member => ((not_wrapNeeded_iff ns).mp bare.2 m member).settled covered

end Settled

/-- In a normal form there are no more blocks than before. -/
theorem pushed_normalize {n : Node} (pushed : n.Pushed) : n.normalize.Pushed := by
  induction n using Node.induction with
  | leaf content origin => exact pushed
  | parent shape origin children ih =>
      rcases pushed_parent_iff.mp pushed with ⟨compact, below⟩
      have normal : ∀ c ∈ children, c.normalize.Pushed :=
        fun c member => ih c member (below c member)
      exact pushed_parent_iff.mpr ⟨fun splittable => inline_tidied (compact splittable),
        throughout_tidied (fun _ _ _ _ _ _ => trivial) normal⟩

end HtmlToMarkdown.Markdown

namespace HtmlToMarkdown

open Html (Element)
open Handler (placed)
open Markdown (Node Shape coerce emptyCell emptyRow)

def Place.Holds (n : Node) : Place → Prop
  | .open covered => n.Settled covered ∨ n.Splittable
  | .closed covered => n.Settled covered
  | .only kinds => n.Clean ∧ (n.kind ∈ kinds ∨ n.Inline)

section Places

variable {p : Place} {n : Node} {ns : List Node} {kinds : List Markdown.Kind}

theorem Markdown.Node.Inline.held (inlined : n.Inline) (p : Place) : p.Holds n := by
  cases p with
  | «open» covered => exact .inl (inlined.settled covered)
  | closed covered => exact inlined.settled covered
  | only kinds => exact ⟨inlined.clean, .inr inlined⟩

namespace Place

theorem holds_of_allows (allows : p.allows n.kind) (settled : n.Settled p.isCovered) :
    p.Holds n := by
  cases p with
  | «open» covered => exact .inl settled
  | closed covered => exact settled
  | only kinds => exact ⟨settled, .inl (by simpa [Place.allows] using allows)⟩

theorem allows_of_isFree (free : p.isFree) (kind : Markdown.Kind) : p.allows kind := by
  cases p with
  | only kinds => cases free
  | _ => rfl

theorem Holds.retext {value : String} {origin : Markdown.Origin}
    (holds : p.Holds (.leaf (.text value) origin)) (other : String) :
    p.Holds (.leaf (.text other) origin) := by
  cases p with
  | «open» covered => exact .inl (Markdown.settled_leaf _ _ _)
  | closed covered => exact Markdown.settled_leaf _ _ _
  | only kinds =>
      refine ⟨Markdown.settled_leaf _ _ true, holds.2.imp id fun inlined => ?_⟩
      exact Markdown.Node.throughout_leaf.mpr (Markdown.Node.throughout_leaf.mp inlined)

theorem Holds.inline (holds : (only []).Holds n) : n.Inline :=
  holds.2.resolve_left List.not_mem_nil

theorem Holds.settled (holds : (p.confine kinds).Holds n) : n.Settled p.isCovered := by
  unfold confine at holds
  split at holds
  next covered => exact covered ▸ holds.1
  next bare => exact eq_false_of_ne_true bare ▸ holds

theorem Holds.stray {kind : Markdown.Kind} (holds : (p.confine (kind :: kinds)).Holds n)
    (apart : n.kind ≠ kind) : (p.confine kinds).Holds n := by
  unfold confine at holds ⊢
  split at holds
  next covered =>
    rw [if_pos covered]
    exact ⟨holds.1, holds.2.imp_left fun listed => (List.mem_cons.mp listed).resolve_left apart⟩
  next bare =>
    rw [if_neg bare]
    exact holds

theorem holds_confine_of_settled (settled : n.Settled p.isCovered)
    (fits : p.isCovered → n.kind ∈ kinds ∨ n.Inline) : (p.confine kinds).Holds n := by
  unfold confine
  split
  next covered =>
    rw [covered] at settled
    exact ⟨settled, fits covered⟩
  next bare => exact eq_false_of_ne_true bare ▸ settled

end Place

section Made

variable {shape : Shape} {children : List Node} (e : Element)

theorem inline_placed (phrasing : shape.isPhrasing) (inside : ∀ c ∈ children, c.Inline) :
    (placed e shape children).Inline :=
  Node.throughout_parent.mpr ⟨phrasing, inside⟩

theorem settled_confined {origin : Markdown.Origin} (whole : ¬ shape.isSplittable)
    (inside : ∀ c ∈ children, (p.confine []).Holds c) :
    (Node.parent shape origin children).Settled p.isCovered := by
  have settled : ∀ c ∈ children, c.Settled p.isCovered := fun c member => (inside c member).settled
  unfold Place.confine at inside
  split at inside
  next covered =>
    rw [covered] at settled ⊢
    exact Markdown.clean_parent_iff.mpr ⟨fun _ c member => (inside c member).inline, settled⟩
  next bare =>
    rw [eq_false_of_ne_true bare] at settled ⊢
    exact Markdown.pushed_parent_iff.mpr ⟨fun splittable => absurd splittable whole, settled⟩

theorem holds_mark (phrasing : shape.isPhrasing) (whole : ¬ shape.isSplittable)
    (inside : ∀ c ∈ children, (p.inside .mark).Holds c) : p.Holds (placed e shape children) := by
  have settled : (placed e shape children).Settled p.isCovered := settled_confined whole inside
  cases p with
  | only kinds =>
      have inlined : ∀ c ∈ children, c.Inline := fun c member => (inside c member).inline
      exact (inline_placed e phrasing inlined).held _
  | _ => exact Place.holds_of_allows rfl settled

theorem holds_cover (splittable : shape.isSplittable)
    (inside : ∀ c ∈ children, (p.inside .cover).Holds c) : p.Holds (placed e shape children) := by
  have compact : (∀ c ∈ children, (Place.only []).Holds c) → (placed e shape children).Inline :=
    fun all => inline_placed e (Shape.isPhrasing_of_isSplittable splittable)
      fun c member => (all c member).inline
  cases p with
  | «open» covered =>
      refine .inr (.cover splittable fun c member => ?_)
      exact (inside c member).elim .clean id
  | closed covered => exact (compact inside).held _
  | only kinds => exact (compact inside).held _

end Made

section Coerced

open Markdown (forall_children_coerce kind_of_mem_coerce)

theorem settled_of_kind {covered : Bool} (kind : n.kind = .listItem ∨ n.kind = .tableRow)
    (inside : ∀ c ∈ n.children, c.Settled covered) : n.Settled covered := by
  cases n with
  | leaf content origin => exact Markdown.settled_leaf _ _ _
  | parent shape origin children =>
      refine Markdown.settled_parent ?_ inside
      cases shape with
      | listItem | tableRow => exact Bool.false_ne_true
      | _ => rcases kind with item | row <;> contradiction

theorem settled_items {covered : Bool} (settled : ∀ n ∈ ns, n.Settled covered) :
    ∀ r ∈ coerce Handler.emptyItem ns, r.Settled covered := by
  have content : ∀ r ∈ coerce Handler.emptyItem ns, ∀ c ∈ r.children, c.Settled covered := by
    refine forall_children_coerce (S := fun c => c.Settled covered) rfl ?_ ?_
    · intro n member _ c inside
      cases n with
      | parent shape origin children => exact (settled _ member).below c inside
      | leaf content origin => cases inside
    · exact fun n member _ => settled n member
  exact fun r member => settled_of_kind (.inl (kind_of_mem_coerce r member)) (content r member)

theorem settled_cell (kind : n.kind = .tableCell)
    (inside : ∀ c ∈ n.children, (p.confine []).Holds c) : n.Settled p.isCovered := by
  cases n with
  | leaf content origin => exact Markdown.settled_leaf _ _ _
  | parent shape origin children =>
      refine settled_confined ?_ inside
      cases shape with
      | tableCell => exact Bool.false_ne_true
      | _ => cases kind

theorem settled_cells (holds : ∀ n ∈ ns, (p.confine [.tableCell]).Holds n) :
    ∀ c ∈ coerce emptyCell ns, c.Settled p.isCovered := by
  have content : ∀ c ∈ coerce emptyCell ns, ∀ d ∈ c.children, (p.confine []).Holds d := by
    refine forall_children_coerce (S := fun d => (p.confine []).Holds d) rfl ?_ ?_
    · intro n member cell d inside
      have settled := (holds n member).settled
      cases n with
      | leaf content origin => cases inside
      | parent shape origin children =>
          apply Place.holds_confine_of_settled (settled.below d inside)
          intro covered
          rw [covered] at settled
          refine .inr ((Markdown.clean_parent_iff.mp settled).1 ?_ d inside)
          cases shape with
          | tableCell => rfl
          | _ => cases cell
    · exact fun n member => (holds n member).stray
  exact fun c member => settled_cell (kind_of_mem_coerce c member) (content c member)

/-- What rows hold once strays are moved into them still has to be coerced into cells. -/
theorem holds_of_mem_row (regular : ∀ n ∈ ns, n.Throughout Node.Regular)
    (holds : ∀ n ∈ ns, (p.confine [.tableRow, .tableCell]).Holds n) :
    ∀ r ∈ coerce emptyRow ns, ∀ c ∈ r.children, (p.confine [.tableCell]).Holds c := by
  refine forall_children_coerce (S := fun c => (p.confine [.tableCell]).Holds c) rfl ?_ ?_
  · intro n member row c inside
    rcases Markdown.exists_row_of_kind row with ⟨origin, cells, rfl⟩
    have kind := (regular _ member).self.2 c inside .tableCell rfl
    exact Place.holds_confine_of_settled ((holds _ member).settled.below c inside)
      fun _ => .inl (List.mem_singleton.mpr kind)
  · exact fun n member => (holds n member).stray

theorem settled_builtTable (e : Element) (spans : List (List Html.CellSpan))
    (regular : ∀ n ∈ ns, n.Throughout Node.Regular)
    (holds : ∀ n ∈ ns, (p.confine [.tableRow, .tableCell]).Holds n) :
    (Handler.builtTable e ns spans).Settled p.isCovered := by
  have given : ∀ r ∈ Markdown.givenRows (Handler.layout e).headless (coerce emptyRow ns),
      r.kind = .tableRow ∧ ∀ c ∈ r.children, (p.confine [.tableCell]).Holds c := by
    have coerced : ∀ r ∈ coerce emptyRow ns,
        r.kind = .tableRow ∧ ∀ c ∈ r.children, (p.confine [.tableCell]).Holds c :=
      fun r member => ⟨kind_of_mem_coerce r member, holds_of_mem_row regular holds r member⟩
    unfold Markdown.givenRows
    split
    · exact List.forall_mem_cons.mpr ⟨⟨rfl, nofun⟩, coerced⟩
    · exact coerced
  refine Markdown.settled_parent Bool.false_ne_true fun row member => ?_
  rcases Markdown.exists_of_mem_rectangle _ (Handler.layout e).align _ spans member with
    ⟨r, found, nodes, rfl, -, made⟩
  rcases given r found with ⟨kind, content⟩
  apply settled_of_kind (.inr ((Markdown.kind_withChildren r nodes).trans kind))
  intro c inside
  rcases made c (Markdown.children_withChildren inside) with rfl | coerced
  · exact settled_cell rfl nofun
  · exact settled_cells content c coerced

end Coerced

end Places

end HtmlToMarkdown
