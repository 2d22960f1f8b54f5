import HtmlToMarkdown.Markdown.Flow

/-!
How deep the results of splitting are. Splitting a node never makes it deeper, and a copy of a link
or deletion inside a block makes that block deeper by one level at most. So the blocks that a link
or deletion is split at are no deeper than its content, and each of them gets its copy.
-/

namespace HtmlToMarkdown.Markdown

theorem splitDepthAll_le_iff {ns : List Node} {d : Nat} :
    splitDepthAll ns ≤ d ↔ ∀ n ∈ ns, n.splitDepth ≤ d := by
  induction ns with
  | nil => simp [splitDepthAll]
  | cons m ns ih => rw [splitDepthAll, Nat.max_le, ih, List.forall_mem_cons]

def Piece.nodes : Piece → List Node
  | run nodes => nodes
  | block node => [node]

theorem nodes_pieces (ns : List Node) : (pieces ns).flatMap Piece.nodes = ns := by
  fun_induction pieces ns with
  | case1 => rfl
  | case2 n ns _ nodes ps h ih => simpa [h, Piece.nodes] using ih
  | case3 n ns _ _ ih => simpa [Piece.nodes] using ih
  | case4 n ns _ ih => simpa [Piece.nodes] using ih

theorem mem_of_mem_pieces {ns : List Node} {p : Piece} (hp : p ∈ pieces ns) {n : Node}
    (hn : n ∈ p.nodes) : n ∈ ns := by
  rw [← nodes_pieces ns]
  exact List.mem_flatMap.mpr ⟨p, hp, hn⟩

theorem splitDepthAll_mono {ms ns : List Node} (h : ∀ n ∈ ms, n ∈ ns) :
    splitDepthAll ms ≤ splitDepthAll ns :=
  splitDepthAll_le_iff.mpr fun n member => splitDepth_le_of_mem (h n member)

theorem splitDepth_paragraph (children : List Node) : (Node.paragraph children).splitDepth = 0 :=
  rfl

theorem splitDepthAll_toFlow_le (p : Piece) : splitDepthAll p.toFlow ≤ splitDepthAll p.nodes := by
  cases p with
  | run nodes =>
    rw [Piece.toFlow]
    split
    · exact Nat.zero_le _
    · refine splitDepthAll_le_iff.mpr fun n member => ?_
      rw [List.mem_singleton.mp member, splitDepth_paragraph]
      exact Nat.zero_le _
  | block node => exact Nat.le_refl _

mutual

theorem splitDepthAll_flatten_le (nodes : List Node) :
    splitDepthAll (flatten nodes) ≤ splitDepthAll nodes := by
  rw [flatten, splitDepthAll_le_iff]
  intro n member
  obtain ⟨m, hm, hn⟩ := List.mem_flatMap.mp member
  exact Nat.le_trans (splitDepth_le_of_mem hn)
    (Nat.le_trans (splitDepthAll_split_le m) (splitDepth_le_of_mem hm))
termination_by (splitDepthAll nodes, 1)
decreasing_by exact lex_of_le (splitDepth_le_of_mem hm) (by decide)

theorem splitDepthAll_split_le (n : Node) : splitDepthAll (split n) ≤ n.splitDepth := by
  match n with
  | .leaf content origin => simp [split, splitDepthAll, Node.splitDepth]
  | .parent shape origin children =>
    rw [split]
    split
    next h =>
      have splittable : shape.isSplittable := by simp_all
      rw [splitDepthAll_le_iff]
      intro m member
      obtain ⟨p, hp, rfl⟩ := List.mem_map.mp member
      have inside := splitDepthAll_flatten_le children
      rw [@splitDepth_parent shape origin children (by simp [splittable])]
      cases p with
      | run nodes =>
        have := splitDepthAll_mono fun n hn => mem_of_mem_pieces hp hn
        exact Nat.le_trans (splitDepth_parent_le _ _ _)
          (Nat.succ_le_succ (Nat.le_trans this inside))
      | block b =>
        have := splitDepth_le_of_mem (mem_of_mem_pieces hp (n := b) (by simp [Piece.nodes]))
        have low : b.splitDepth ≤ splitDepthAll children := Nat.le_trans this inside
        simp only [low, if_true]
        exact Nat.le_trans (splitDepth_nest_le splittable origin b) (Nat.succ_le_succ low)
    next => simp [splitDepthAll]
termination_by (n.splitDepth, 0)
decreasing_by
  all_goals
    rw [@splitDepth_parent _ _ children (by simp [splittable])]
    exact .left _ _ (by omega)

theorem splitDepth_nest_le {shape : Shape} (h : shape.isSplittable) (origin : Origin) (b : Node) :
    (nest shape origin b).splitDepth ≤ b.splitDepth + 1 := by
  match b with
  | .leaf content place => simp [nest]
  | .parent kind place children =>
    rw [nest]
    split
    next => omega
    next =>
      split
      next grid =>
        rw [splitDepth_parent (by simp [grid]), splitDepth_parent (by simp [grid])]
        refine Nat.succ_le_succ (splitDepthAll_le_iff.mpr fun n member => ?_)
        obtain ⟨c, hc, rfl⟩ := List.mem_map.mp member
        exact Nat.le_trans (splitDepth_nest_le h origin c)
          (Nat.succ_le_succ (splitDepth_le_of_mem hc))
      next =>
        split
        next container =>
          rw [splitDepth_parent (by simp [container]), splitDepth_parent (by simp [container])]
          have := splitDepthAll_wrap_le [.parent shape origin children]
          have := splitDepth_parent_le shape origin children
          simp only [splitDepthAll] at *
          omega
        next grid container =>
          by_cases splittable : kind.isSplittable
          · rw [splitDepth_parent (by simp [splittable]), splitDepth_parent (by simp [splittable])]
            have := splitDepth_parent_le shape origin children
            simp only [splitDepthAll]
            omega
          · simp [Node.splitDepth, splittable, grid, container]
termination_by (b.splitDepth, 3)
decreasing_by
  · rw [@splitDepth_parent kind place children (by simp_all)]
    exact lex_of_le (by simpa [splitDepthAll] using splitDepth_parent_le shape origin children)
      (by decide)
  · rw [splitDepth_parent (by simp_all)]
    exact .left _ _ (Nat.lt_succ_of_le (splitDepth_le_of_mem hc))

theorem splitDepthAll_wrap_le (nodes : List Node) :
    splitDepthAll (wrap nodes) ≤ splitDepthAll nodes := by
  rw [wrap]
  refine Nat.le_trans (splitDepthAll_le_iff.mpr fun n member => ?_) (splitDepthAll_flatten_le nodes)
  obtain ⟨p, hp, hn⟩ := List.mem_flatMap.mp member
  exact Nat.le_trans (splitDepth_le_of_mem hn)
    (Nat.le_trans (splitDepthAll_toFlow_le p)
      (splitDepthAll_mono fun n hn => mem_of_mem_pieces hp hn))
termination_by (splitDepthAll nodes, 2)
decreasing_by exact .right _ (by decide)

end

def Piece.around (shape : Shape) (origin : Origin) : Piece → Node
  | run nodes => .parent shape origin nodes
  | block b => nest shape origin b

/-- No block inside a link or deletion is left as it is. -/
theorem split_parent {shape : Shape} {origin : Origin} {children : List Node}
    (h : shape.isSplittable && wrapNeeded children) :
    split (.parent shape origin children) =
      (pieces (flatten children)).map (Piece.around shape origin) := by
  rw [split, if_pos h]
  refine List.map_congr_left fun p hp => ?_
  cases p with
  | run nodes => rfl
  | block b =>
    have := splitDepth_le_of_mem (mem_of_mem_pieces hp (n := b) (by simp [Piece.nodes]))
    exact if_pos (Nat.le_trans this (splitDepthAll_flatten_le children))

end HtmlToMarkdown.Markdown
