import HtmlToMarkdown.Proofs.Flow.Induction

namespace HtmlToMarkdown.Markdown

theorem exists_of_dropSurroundingBreaks (ns : List Node) :
    ∃ front back, (∀ n ∈ front ++ back, n.isBreak) ∧
      ns = front ++ dropSurroundingBreaks ns ++ back := by
  let kept := (ns.reverse.dropWhile Node.isBreak).reverse
  have breaks : ∀ (l : List Node), ∀ n ∈ l.takeWhile Node.isBreak, n.isBreak :=
    fun l n member => List.all_eq_true.mp List.all_takeWhile n member
  have back : ns = kept ++ (ns.reverse.takeWhile Node.isBreak).reverse := by
    rw [← List.reverse_append, List.takeWhile_append_dropWhile, List.reverse_reverse]
  refine ⟨kept.takeWhile Node.isBreak, (ns.reverse.takeWhile Node.isBreak).reverse, ?_, ?_⟩
  · intro n member
    rcases List.mem_append.mp member with front | back
    · exact breaks kept n front
    · exact breaks ns.reverse n (List.mem_reverse.mp back)
  · rw [dropSurroundingBreaks, List.takeWhile_append_dropWhile]
    exact back

theorem mem_of_mem_dropSurroundingBreaks {n : Node} {ns : List Node}
    (member : n ∈ dropSurroundingBreaks ns) : n ∈ ns := by
  obtain ⟨front, back, -, same⟩ := exists_of_dropSurroundingBreaks ns
  rw [same]
  exact List.mem_append_left _ (List.mem_append_right _ member)

/-- What wrapping gives is a block that was there or the paragraph of a run. -/
theorem mem_wrap {m : Node} {ns : List Node} (member : m ∈ wrap ns) :
    (m ∈ flatten ns ∧ ¬ m.isPhrasing) ∨
      ∃ nodes, Piece.run nodes ∈ pieces (flatten ns) ∧ ¬ nodes.all Node.isWhitespaceText ∧
        m = .paragraph (dropSurroundingBreaks nodes) := by
  rw [wrap] at member
  rcases List.mem_flatMap.mp member with ⟨p, found, here⟩
  cases p with
  | block b =>
      rw [List.mem_singleton.mp here]
      exact .inl ⟨mem_of_mem_pieces found (List.mem_singleton_self b), sorted_pieces _ _ found⟩
  | run nodes =>
      rw [Piece.toFlow] at here
      split at here
      · cases here
      next visible => exact .inr ⟨nodes, found, visible, List.mem_singleton.mp here⟩

theorem not_isPhrasing_of_mem_wrap {m : Node} {ns : List Node} (member : m ∈ wrap ns) :
    ¬ m.isPhrasing := by
  rcases mem_wrap member with ⟨-, block⟩ | ⟨nodes, -, -, rfl⟩
  · exact block
  · exact Bool.false_ne_true

/-- What it takes for a property to pass from nodes to the flow content made of them. -/
structure FlowInvariant {ι : Type} (P : ι → Node → Prop) : Prop where
  below {i : ι} {shape : Shape} {origin : Origin} {children : List Node}
    (holds : P i (.parent shape origin children)) : ∀ c ∈ children, P i c
  copy {i j : ι} {shape : Shape} {origin : Origin} {children ds : List Node}
    (splittable : shape.isSplittable) (holds : P i (.parent shape origin children))
    (inside : ∀ d ∈ ds, P j d) : P j (.parent shape origin ds)
  refill {i : ι} {kind : Shape} {place : Origin} {children ds : List Node}
    (container : kind.isContainer) (holds : P i (.parent kind place children))
    (blocks : ∀ d ∈ ds, ¬ d.isPhrasing) (inside : ∀ d ∈ ds, P i d) : P i (.parent kind place ds)
  grid {i : ι} {shape : Shape} {origin : Origin} {kind : Shape} {place : Origin}
    {children : List Node} (isGrid : kind.isGrid) (holds : P i (.parent kind place children))
    (inside : ∀ j, ∀ c ∈ children, P j c → P j (nest shape origin c)) :
    P i (.parent kind place (children.map (nest shape origin)))
  single {i : ι} {kind : Shape} {place : Origin} {children : List Node} {d : Node}
    (notGrid : ¬ kind.isGrid) (notContainer : ¬ kind.isContainer)
    (holds : P i (.parent kind place children)) (inside : P i d) : P i (.parent kind place [d])
  run {i : ι} {ds : List Node} (phrasing : ∀ d ∈ ds, d.isPhrasing)
    (visible : ¬ ds.all Node.isWhitespaceText) (inside : ∀ d ∈ ds, P i d) :
    P i (.paragraph (dropSurroundingBreaks ds))

namespace FlowInvariant

variable {ι : Type} {P : ι → Node → Prop}

theorem rules (invariant : FlowInvariant P) :
    FlowRules (fun ns => ∀ i, (∀ n ∈ ns, P i n) → ∀ m ∈ flatten ns, P i m)
      (fun n => ∀ i, P i n → ∀ m ∈ split n, P i m)
      (fun shape origin b => (∀ j ds, (∀ d ∈ ds, P j d) → P j (.parent shape origin ds)) →
        ∀ i, P i b → P i (nest shape origin b))
      (fun ns => ∀ i, (∀ n ∈ ns, P i n) → ∀ m ∈ wrap ns, P i m) where
  flattened nodes parts := by
    intro i holds m member
    rw [flatten] at member
    obtain ⟨n, inside, here⟩ := List.mem_flatMap.mp member
    exact parts n inside i (holds n inside) m here
  whole n _ same := by
    intro i holds m member
    rw [same] at member
    exact List.mem_singleton.mp member ▸ holds
  divided shape origin children splittable inside blocks same := by
    intro i holds m member
    have flat := inside i (invariant.below holds)
    have copies : ∀ j ds, (∀ d ∈ ds, P j d) → P j (.parent shape origin ds) :=
      fun j ds => invariant.copy splittable holds
    rw [same] at member
    obtain ⟨p, found, rfl⟩ := List.mem_map.mp member
    have sorted := sorted_pieces _ p found
    cases p with
    | run nodes => exact copies i nodes fun d hd => flat d (mem_of_mem_pieces found hd)
    | block b =>
        have here : b ∈ flatten children := mem_of_mem_pieces found (List.mem_singleton_self b)
        exact blocks b here sorted copies i (flat b here)
  leaf shape origin _ content place := by
    intro _ i holds
    rw [nest_leaf]
    exact holds
  empty shape origin _ kind place := by
    intro _ i holds
    rw [nest_empty]
    exact holds
  grid shape origin _ kind place children isGrid below := by
    intro copies i holds
    rw [nest_grid shape origin isGrid]
    exact invariant.grid isGrid holds fun j c member => below c member copies j
  container shape origin _ kind place children filled isContainer inside := by
    intro copies i holds
    rw [nest_container shape origin isContainer place filled]
    refine invariant.refill isContainer holds (fun _ => not_isPhrasing_of_mem_wrap) (inside i ?_)
    exact List.forall_mem_singleton.mpr (copies i children (invariant.below holds))
  other shape origin _ kind place children filled notGrid notContainer := by
    intro copies i holds
    rw [nest_other shape origin notGrid notContainer place filled]
    exact invariant.single notGrid notContainer holds (copies i children (invariant.below holds))
  wrapped nodes inside := by
    intro i holds m member
    have flat := inside i holds
    rcases mem_wrap member with ⟨here, -⟩ | ⟨run, found, visible, rfl⟩
    · exact flat m here
    · exact invariant.run (sorted_pieces _ _ found).2 visible fun n hn =>
        flat n (mem_of_mem_pieces found hn)

theorem flatten (invariant : FlowInvariant P) {i : ι} {ns : List Node} (holds : ∀ n ∈ ns, P i n) :
    ∀ m ∈ flatten ns, P i m :=
  invariant.rules.flat_all ns i holds

theorem wrap (invariant : FlowInvariant P) {i : ι} {ns : List Node} (holds : ∀ n ∈ ns, P i n) :
    ∀ m ∈ wrap ns, P i m :=
  invariant.rules.flow_all ns i holds

end FlowInvariant

end HtmlToMarkdown.Markdown
