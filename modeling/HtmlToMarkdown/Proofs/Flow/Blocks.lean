import HtmlToMarkdown.Proofs.Flow.Coverage

namespace HtmlToMarkdown.Markdown

section Blocks

variable {n : Node} {ns : List Node}

theorem Node.Regular.not_isText (regular : n.Regular) (block : ¬ n.isPhrasing) : ¬ n.isText := by
  cases n with
  | parent shape origin children => exact Bool.false_ne_true
  | leaf content origin =>
      rw [regular.isPhrasing_leaf] at block
      cases content with
      | text value => exact absurd rfl block
      | _ => exact Bool.false_ne_true

theorem split_of_block (regular : n.Regular) (block : ¬ n.isPhrasing) : split n = [n] := by
  cases n with
  | leaf content origin => rw [split]
  | parent shape origin children =>
      have whole : ¬ (shape.isSplittable && wrapNeeded children) := by
        simp [regular.not_isSplittable block]
      rw [split, if_neg whole]

theorem flatten_of_whole (whole : ∀ n ∈ ns, split n = [n]) : flatten ns = ns := by
  rw [flatten]
  calc
    ns.flatMap split = ns.flatMap fun n => [n] := List.flatMap_congr whole
    _ = ns := List.flatMap_singleton' ns

theorem flatten_of_blocks (regular : ∀ n ∈ ns, n.Regular) (blocks : ∀ n ∈ ns, ¬ n.isPhrasing) :
    flatten ns = ns :=
  flatten_of_whole fun n member => split_of_block (regular n member) (blocks n member)

theorem pieces_of_blocks (blocks : ∀ n ∈ ns, ¬ n.isPhrasing) : pieces ns = ns.map .block := by
  induction ns with
  | nil => rfl
  | cons n ns ih =>
      obtain ⟨here, rest⟩ := List.forall_mem_cons.mp blocks
      rw [pieces, if_neg here, ih rest, List.map_cons]

theorem wrap_eq_flatten (blocks : ∀ n ∈ flatten ns, ¬ n.isPhrasing) : wrap ns = flatten ns := by
  rw [wrap, pieces_of_blocks blocks, List.flatMap_map]
  exact List.flatMap_singleton' (flatten ns)

/-- Where all nodes are blocks, there is nothing to wrap. -/
theorem wrap_of_blocks (regular : ∀ n ∈ ns, n.Regular) (blocks : ∀ n ∈ ns, ¬ n.isPhrasing) :
    wrap ns = ns := by
  have whole := flatten_of_blocks regular blocks
  rw [wrap_eq_flatten (whole.symm ▸ blocks), whole]

end Blocks

end HtmlToMarkdown.Markdown
