import HtmlToMarkdown.Proofs.Flow.Clean
import HtmlToMarkdown.Proofs.Normal

/-!
Links and deletions directly inside each other. One that is a block, by the element it comes from,
is split off like any other block: it changes places with what is around it. So splitting brings the
blocks among the covers of a run outside, each past all that stand around it, and leaves the order
as it is only where the blocks are equal and stand outside already.
-/

namespace HtmlToMarkdown.Markdown

namespace Cover

def isBlock (c : Cover) : Bool := !(Node.parent c.1 c.2 []).isPhrasing

/-- Around the covers that splitting has put in order already: the outermost one changes places with
a block. -/
def putAround (c : Cover) : List Cover → List Cover
  | [] => [c]
  | d :: ds => if d.isBlock then d :: c :: ds else c :: d :: ds

/-- The order in which splitting leaves covers, given from the outside to the inside. -/
def splitOrder (covers : List Cover) : List Cover := covers.foldr putAround []

/-- The covers above a block keep their places. They are phrasing content, but there may be more
blocks around those if they all are the same. -/
def Keeps (cover : Cover) (above : List Cover) : Prop :=
  ∃ k inner, above = List.replicate k cover ++ inner ∧ ∀ c ∈ inner, ¬ c.isBlock

variable {c d : Cover} {cs ds : List Cover}

theorem putAround_of_block (block : d.isBlock) : putAround c (d :: ds) = d :: c :: ds := by
  rw [putAround, if_pos block]

theorem putAround_of_inline (inlined : ∀ d ∈ cs.head?, ¬ d.isBlock) : putAround c cs = c :: cs := by
  cases cs with
  | nil => rfl
  | cons d ds => rw [putAround, if_neg (inlined d rfl)]

theorem perm_putAround (c : Cover) (cs : List Cover) : (putAround c cs).Perm (c :: cs) := by
  cases cs with
  | nil => exact .refl _
  | cons d ds =>
      rw [putAround]
      split
      · exact .swap _ _ _
      · exact .refl _

theorem splitOrder_cons (c : Cover) (cs : List Cover) :
    splitOrder (c :: cs) = putAround c (splitOrder cs) := rfl

theorem perm_splitOrder (cs : List Cover) : (splitOrder cs).Perm cs := by
  induction cs with
  | nil => exact .refl _
  | cons c cs ih => exact (perm_putAround c _).trans (ih.cons c)

theorem splitOrder_of_inline (inlined : ∀ c ∈ cs, ¬ c.isBlock) : splitOrder cs = cs := by
  induction cs with
  | nil => rfl
  | cons c cs ih =>
      have rest := ih fun d member => inlined d (List.mem_cons_of_mem _ member)
      rw [splitOrder_cons, rest]
      exact putAround_of_inline fun d first =>
        inlined d (List.mem_cons_of_mem _ (List.mem_of_mem_head? first))

theorem head_splitOrder (found : ∃ c ∈ cs, c.isBlock) :
    ∃ d ds, splitOrder cs = d :: ds ∧ d.isBlock := by
  induction cs with
  | nil =>
      obtain ⟨c, member, -⟩ := found
      cases member
  | cons c cs ih =>
      rw [splitOrder_cons]
      by_cases below : ∃ d ∈ cs, d.isBlock
      · obtain ⟨d, ds, same, block⟩ := ih below
        exact ⟨d, c :: ds, by rw [same, putAround_of_block block], block⟩
      · have inlined : ∀ d ∈ cs, ¬ d.isBlock := fun d member block => below ⟨d, member, block⟩
        obtain ⟨d, member, block⟩ := found
        rcases List.mem_cons.mp member with rfl | member
        · refine ⟨d, cs, ?_, block⟩
          rw [splitOrder_of_inline inlined]
          exact putAround_of_inline fun e first => inlined e (List.mem_of_mem_head? first)
        · exact absurd block (inlined d member)

theorem head_splitOrder_append (block : c.isBlock) (above : List Cover) :
    ∃ d ds, splitOrder (above ++ [c]) = d :: ds ∧ d.isBlock :=
  head_splitOrder ⟨c, List.mem_append_right above (List.mem_singleton_self c), block⟩

theorem splitOrder_replicate (block : c.isBlock) {inner : List Cover}
    (inlined : ∀ d ∈ inner, ¬ d.isBlock) (k : Nat) :
    splitOrder (List.replicate k c ++ inner) = List.replicate k c ++ inner := by
  induction k with
  | zero => exact splitOrder_of_inline inlined
  | succ k ih =>
      rw [List.replicate_succ, List.cons_append, splitOrder_cons, ih]
      cases k with
      | zero =>
          exact putAround_of_inline fun d first => inlined d (List.mem_of_mem_head? first)
      | succ k =>
          rw [List.replicate_succ, List.cons_append]
          exact putAround_of_block block

theorem splitOrder_of_keeps (block : c.isBlock) {k : Nat} {inner : List Cover}
    (inlined : ∀ d ∈ inner, ¬ d.isBlock) :
    splitOrder (List.replicate k c ++ inner ++ [c]) = List.replicate (k + 1) c ++ inner := by
  induction k with
  | zero =>
      rw [List.replicate_zero, List.nil_append]
      induction inner with
      | nil => rfl
      | cons d ds ih =>
          have rest := ih fun e member => inlined e (List.mem_cons_of_mem _ member)
          rw [List.cons_append, splitOrder_cons, rest]
          exact putAround_of_block block
  | succ k ih =>
      rw [List.replicate_succ, List.cons_append, List.cons_append, splitOrder_cons, ih,
        List.replicate_succ, List.cons_append, putAround_of_block block]
      rfl

/-- Covers that are in order: those outside are the same, and no block is further inside. -/
theorem exists_replicate_of_splitOrder (same : splitOrder (c :: cs) = c :: cs) :
    ∃ k inner, c :: cs = List.replicate k c ++ inner ∧ ∀ d ∈ inner, ¬ d.isBlock := by
  induction cs generalizing c with
  | nil => exact ⟨1, [], rfl, by simp⟩
  | cons e es ih =>
      by_cases below : ∃ d ∈ e :: es, d.isBlock
      · obtain ⟨d, ds, front, block⟩ := head_splitOrder below
        rw [splitOrder_cons, front, putAround_of_block block] at same
        obtain ⟨rfl, rfl, rfl⟩ : d = c ∧ c = e ∧ ds = es := by simpa using same
        obtain ⟨k, inner, parts, inlined⟩ := ih front
        exact ⟨k + 1, inner, by rw [parts]; rfl, inlined⟩
      · exact ⟨1, e :: es, rfl, fun d member block => below ⟨d, member, block⟩⟩

theorem keeps_of_splitOrder (block : c.isBlock) {above inner : List Cover} {k : Nat}
    (same : splitOrder (above ++ [c]) = List.replicate k d ++ inner)
    (inlined : ∀ e ∈ inner, ¬ e.isBlock) : c.Keeps above := by
  induction above generalizing k inner with
  | nil => exact ⟨0, [], rfl, by simp⟩
  | cons a above ih =>
      obtain ⟨b, bs, front, outside⟩ := head_splitOrder_append block above
      rw [List.cons_append, splitOrder_cons, front, putAround_of_block outside] at same
      match k with
      | 0 =>
          have all : b :: a :: bs = inner := same
          exact absurd outside (inlined b (all ▸ List.mem_cons_self))
      | 1 =>
          obtain ⟨rfl, rfl⟩ : b = d ∧ a :: bs = inner := by simpa using same
          obtain ⟨inlinedHere, inlinedBelow⟩ := List.forall_mem_cons.mp inlined
          obtain ⟨m, ps, rfl, phrasing⟩ := ih (k := 1) front inlinedBelow
          rw [splitOrder_of_keeps block phrasing] at front
          match m with
          | 0 => exact ⟨0, a :: ps, rfl, List.forall_mem_cons.mpr ⟨inlinedHere, phrasing⟩⟩
          | m + 1 =>
              obtain ⟨rfl, rfl⟩ : c = b ∧ c :: (List.replicate m c ++ ps) = bs := by
                simpa [List.replicate_succ] using front
              exact absurd block (inlinedBelow c List.mem_cons_self)
      | k + 2 =>
          obtain ⟨rfl, rfl, rfl⟩ : b = d ∧ a = d ∧ bs = List.replicate k d ++ inner := by
            simpa [List.replicate_succ] using same
          obtain ⟨m, ps, rfl, phrasing⟩ := ih (k := k + 1) front inlined
          rw [splitOrder_of_keeps block phrasing] at front
          have here : c = a := by simpa [List.replicate_succ] using (List.cons.inj front).1
          exact ⟨m + 1, ps, by rw [here]; rfl, phrasing⟩

/-- Splitting again leaves the order of the covers around a block as it is, if and only if
splitting brought the block past phrasing content alone, or past blocks that are the same. -/
theorem splitOrder_splitOrder_iff (block : c.isBlock) (above : List Cover) :
    splitOrder (splitOrder (above ++ [c])) = splitOrder (above ++ [c]) ↔ c.Keeps above := by
  constructor
  · intro same
    obtain ⟨d, ds, front, -⟩ := head_splitOrder_append block above
    rw [front] at same
    obtain ⟨k, inner, parts, inlined⟩ := exists_replicate_of_splitOrder same
    exact keeps_of_splitOrder block (front.trans parts) inlined
  · rintro ⟨k, inner, rfl, inlined⟩
    rw [splitOrder_of_keeps block inlined]
    exact splitOrder_replicate block inlined (k + 1)

end Cover

def tower : List Cover → List Node → List Node
  | [], nodes => nodes
  | c :: cs, nodes => [.parent c.1 c.2 (tower cs nodes)]

/-- Phrasing nodes, at least one, that splitting leaves as they are. -/
structure IsRun (nodes : List Node) : Prop where
  filled : nodes ≠ []
  phrasing : ∀ n ∈ nodes, n.isPhrasing
  whole : flatten nodes = nodes

section Pieces

variable {n b : Node} {ns nodes : List Node}

theorem pieces_singleton (n : Node) :
    pieces [n] = if n.isPhrasing then [.run [n]] else [.block n] := rfl

theorem pieces_of_phrasing (filled : nodes ≠ []) (phrasing : ∀ n ∈ nodes, n.isPhrasing) :
    pieces nodes = [.run nodes] := by
  induction nodes with
  | nil => exact absurd rfl filled
  | cons n ns ih =>
      obtain ⟨here, rest⟩ := List.forall_mem_cons.mp phrasing
      cases ns with
      | nil => rw [pieces_singleton, if_pos here]
      | cons m ms => rw [pieces, if_pos here, ih (List.cons_ne_nil m ms) rest]

theorem block_mem_pieces (member : b ∈ ns) (block : ¬ b.isPhrasing) : .block b ∈ pieces ns := by
  rw [← nodes_pieces ns] at member
  obtain ⟨p, found, here⟩ := List.mem_flatMap.mp member
  cases p with
  | run nodes => exact absurd ((sorted_pieces ns _ found).2 b here) block
  | block a => rwa [List.mem_singleton.mp here]

theorem exists_run_mem_pieces (member : n ∈ ns) (phrasing : n.isPhrasing) :
    ∃ nodes, .run nodes ∈ pieces ns ∧ n ∈ nodes := by
  rw [← nodes_pieces ns] at member
  obtain ⟨p, found, here⟩ := List.mem_flatMap.mp member
  cases p with
  | run nodes => exact ⟨nodes, found, here⟩
  | block a =>
      rw [List.mem_singleton.mp here] at phrasing
      exact absurd phrasing (sorted_pieces ns _ found)

theorem isRun_of_whole (found : .run nodes ∈ pieces ns)
    (whole : ∀ n ∈ nodes, split n = [n]) : IsRun nodes :=
  have ⟨filled, phrasing⟩ := sorted_pieces ns _ found
  ⟨filled, phrasing, flatten_of_whole whole⟩

end Pieces

section Towers

variable {shape : Shape} {origin : Origin} {children nodes : List Node} {c d : Cover}
  {cs ds : List Cover}

@[simp] theorem flatten_singleton (n : Node) : flatten [n] = split n := by
  rw [flatten, List.flatMap_cons, List.flatMap_nil, List.append_nil]

theorem split_cover (splittable : shape.isSplittable) (filled : children ≠ []) :
    split (.parent shape origin children) =
      (pieces (flatten children)).map (Piece.around shape origin) := by
  by_cases needed : wrapNeeded children
  · exact split_parent (Bool.and_eq_true_iff.mpr ⟨splittable, needed⟩)
  · have inlined := (not_wrapNeeded_iff children).mp needed
    have compact : ¬ (Node.parent shape origin children).Straddles := fun straddles =>
      needed (Bool.and_eq_true_iff.mp straddles).2
    rw [split_of_compact compact,
      flatten_of_whole fun n member => split_of_inline (inlined n member),
      pieces_of_phrasing filled fun n member => (inlined n member).self]
    rfl

theorem Cover.isBlock_iff (c : Cover) (ns : List Node) :
    c.isBlock ↔ ¬ (Node.parent c.1 c.2 ns).isPhrasing := by
  rw [Cover.isBlock, Bool.not_eq_true', Bool.not_eq_true]
  rfl

theorem tower_ne_nil (filled : nodes ≠ []) : tower cs nodes ≠ [] := by
  cases cs with
  | nil => exact filled
  | cons c cs => exact List.cons_ne_nil _ _

theorem tower_inj (same : tower cs nodes = tower ds nodes) (sized : cs.length = ds.length) :
    cs = ds := by
  induction cs generalizing ds with
  | nil => exact (List.length_eq_zero_iff.mp sized.symm).symm
  | cons c cs ih =>
      cases ds with
      | nil => cases sized
      | cons d ds =>
          obtain ⟨shapes, origins, below⟩ := Node.parent.inj (List.cons.inj same).1
          rw [Prod.ext shapes origins, ih below (Nat.succ.inj sized)]

theorem nest_tower (c : Cover) (splittable : d.1.isSplittable) (filled : nodes ≠ []) :
    nest c.1 c.2 (.parent d.1 d.2 (tower ds nodes)) =
      .parent d.1 d.2 [.parent c.1 c.2 (tower ds nodes)] := by
  have holds := Shape.holdsPhrasing_of_isPhrasing (Shape.isPhrasing_of_isSplittable splittable)
  obtain ⟨grid, container⟩ := Shape.holdsPhrasing_iff.mp holds
  exact nest_other c.1 c.2 grid container d.2 (tower_ne_nil filled)

/-- Splitting a tower puts its covers in their order. -/
theorem flatten_tower (splittable : ∀ c ∈ cs, c.1.isSplittable) (run : IsRun nodes) :
    flatten (tower cs nodes) = tower (Cover.splitOrder cs) nodes := by
  induction cs with
  | nil => exact run.whole
  | cons c cs ih =>
      obtain ⟨here, rest⟩ := List.forall_mem_cons.mp splittable
      rw [tower, flatten_singleton, split_cover here (tower_ne_nil run.filled), ih rest,
        Cover.splitOrder_cons]
      have inside := Cover.perm_splitOrder cs
      cases order : Cover.splitOrder cs with
      | nil =>
          rw [tower, pieces_of_phrasing run.filled run.phrasing]
          rfl
      | cons d ds =>
          have below : d.1.isSplittable := rest d (inside.mem_iff.mp (order ▸ List.mem_cons_self))
          rw [tower, pieces_singleton, Cover.putAround]
          by_cases block : d.isBlock
          · rw [if_neg ((d.isBlock_iff _).mp block), if_pos block]
            exact congrArg (fun n => [n]) (nest_tower c below run.filled)
          · have phrasing := not_not.mp (mt (d.isBlock_iff (tower ds nodes)).mpr block)
            rw [if_pos phrasing, if_neg block]
            rfl

end Towers

end HtmlToMarkdown.Markdown
