import HtmlToMarkdown.Proofs.Flow.Towers

/-!
Making flow content a second time. The first time leaves paragraphs and blocks, and the second time
passes all of them through but links and deletions that are blocks by the element they come from. Of
those that stood inside each other, with only links and deletions in between, the first time left
one at the top with the other inside, and the second time puts them in their order once more.
-/

namespace HtmlToMarkdown.Markdown

namespace Node

/-- Phrasing content that comes out as phrasing content, or a part of it does. -/
inductive Loose : Node → Prop
  | whole {n : Node} (phrasing : n.isPhrasing) (compact : ¬ n.Straddles) : n.Loose
  | cover {shape : Shape} {origin : Origin} {children : List Node} {c : Node}
    (phrasing : (parent shape origin children).isPhrasing) (splittable : shape.isSplittable)
    (member : c ∈ children) (loose : c.Loose) : (parent shape origin children).Loose

/-- From the node down, through links and deletions only, there are the covers `above` and then
`cover`, which is a block and has loose content. -/
inductive Stacks : Node → List Cover → Cover → Prop
  | here {shape : Shape} {origin : Origin} {children : List Node} {c : Node}
    (splittable : shape.isSplittable) (block : ¬ (parent shape origin children).isPhrasing)
    (member : c ∈ children) (loose : c.Loose) :
    (parent shape origin children).Stacks [] (shape, origin)
  | deeper {shape : Shape} {origin : Origin} {children : List Node} {c : Node}
    {above : List Cover} {cover : Cover} (splittable : shape.isSplittable) (member : c ∈ children)
    (stacked : c.Stacks above cover) :
    (parent shape origin children).Stacks ((shape, origin) :: above) cover

def IsCover : Node → Prop
  | parent shape _ children => shape.isSplittable ∧ children ≠ []
  | leaf _ _ => False

/-- Induction over the links and deletions around something; all other nodes come out whole. -/
theorem coverInduction {p : Node → Prop} (plain : ∀ n, ¬ n.IsCover → p n)
    (cover : ∀ shape origin children, shape.isSplittable → children ≠ [] →
      (∀ c ∈ children, p c) → p (parent shape origin children)) (n : Node) : p n := by
  induction n using Node.induction with
  | leaf content origin => exact plain _ id
  | parent shape origin children ih =>
      by_cases covers : (parent shape origin children).IsCover
      · exact cover shape origin children covers.1 covers.2 ih
      · exact plain _ covers

theorem not_straddles {n : Node} (plain : ¬ n.IsCover) : ¬ n.Straddles := by
  cases n with
  | leaf content origin => exact id
  | parent shape origin children =>
      intro straddles
      obtain ⟨splittable, needed⟩ := Bool.and_eq_true_iff.mp straddles
      refine plain ⟨splittable, ?_⟩
      rintro rfl
      cases needed

theorem Loose.isPhrasing {n : Node} (loose : n.Loose) : n.isPhrasing := by
  cases loose with
  | whole phrasing _ => exact phrasing
  | cover phrasing _ _ _ => exact phrasing

theorem Stacks.isBlock {n : Node} {above : List Cover} {cover : Cover}
    (stacked : n.Stacks above cover) : cover.isBlock := by
  induction stacked with
  | here _ block _ _ => exact (Cover.isBlock_iff _ _).mpr block
  | deeper _ _ _ ih => exact ih

theorem Stacks.isSplittable {n : Node} {above : List Cover} {cover : Cover}
    (stacked : n.Stacks above cover) : ∀ c ∈ above ++ [cover], c.1.isSplittable := by
  induction stacked with
  | here splittable _ _ _ => exact List.forall_mem_singleton.mpr splittable
  | deeper splittable _ _ ih => exact List.forall_mem_cons.mpr ⟨splittable, ih⟩

end Node

section Parts

variable {n m : Node} {shape : Shape} {origin : Origin} {children nodes : List Node}

theorem isCover_of_nest {b : Node} (covers : (nest shape origin b).IsCover) : b.IsCover := by
  cases b with
  | leaf content place =>
      rw [nest_leaf] at covers
      exact covers
  | parent kind place children =>
      by_cases filled : children = []
      · rw [filled, nest_empty] at covers
        exact absurd rfl covers.2
      · obtain ⟨ds, same⟩ := exists_nest_parent shape origin kind place children
        rw [same] at covers
        exact ⟨covers.1, filled⟩

theorem mem_flatten : m ∈ flatten nodes ↔ ∃ n ∈ nodes, m ∈ split n := by
  rw [flatten, List.mem_flatMap]

/-- What comes out of a link or deletion with something in it: itself around a run, or a block from
inside with a copy of it around its content. -/
theorem mem_split_cover_iff (splittable : shape.isSplittable) (filled : children ≠ []) :
    m ∈ split (.parent shape origin children) ↔
      (∃ nodes, .run nodes ∈ pieces (flatten children) ∧ m = .parent shape origin nodes) ∨
        ∃ c ∈ children, ∃ b ∈ split c, ¬ b.isPhrasing ∧ m = nest shape origin b := by
  rw [split_cover splittable filled, List.mem_map]
  constructor
  · rintro ⟨p, found, rfl⟩
    cases p with
    | run nodes => exact .inl ⟨nodes, found, rfl⟩
    | block b =>
        obtain ⟨c, member, part⟩ :=
          mem_flatten.mp (mem_of_mem_pieces found (List.mem_singleton_self b))
        exact .inr ⟨c, member, b, part, sorted_pieces _ _ found, rfl⟩
  · rintro (⟨nodes, found, rfl⟩ | ⟨c, member, b, part, block, rfl⟩)
    · exact ⟨.run nodes, found, rfl⟩
    · exact ⟨.block b, block_mem_pieces (mem_flatten.mpr ⟨c, member, part⟩) block, rfl⟩

theorem whole_of_phrasing (n : Node) :
    ∀ m ∈ split n, m.isPhrasing → split m = [m] ∧ n.Loose := by
  induction n using Node.coverInduction with
  | plain n plain =>
      intro m member phrasing
      have compact := Node.not_straddles plain
      have whole := split_of_compact compact
      rw [whole] at member
      obtain rfl := List.mem_singleton.mp member
      exact ⟨whole, .whole phrasing compact⟩
  | cover shape origin children splittable filled ih =>
      intro m member phrasing
      rcases (mem_split_cover_iff splittable filled).mp member with
        ⟨nodes, found, rfl⟩ | ⟨c, -, b, -, block, rfl⟩
      · have parts : ∀ r ∈ nodes, split r = [r] ∧ ∃ c ∈ children, c.Loose := by
          intro r here
          obtain ⟨c, inside, part⟩ := mem_flatten.mp (mem_of_mem_pieces found here)
          obtain ⟨whole, loose⟩ := ih c inside r part ((sorted_pieces _ _ found).2 r here)
          exact ⟨whole, c, inside, loose⟩
        have run := isRun_of_whole found fun r here => (parts r here).1
        obtain ⟨r, here⟩ := List.exists_mem_of_ne_nil nodes run.filled
        obtain ⟨c, inside, loose⟩ := (parts r here).2
        refine ⟨?_, .cover phrasing splittable inside loose⟩
        rw [split_cover splittable run.filled, run.whole,
          pieces_of_phrasing run.filled run.phrasing]
        rfl
      · rw [isPhrasing_nest] at phrasing
        exact absurd phrasing block

theorem isRun_of_mem_pieces {ns : List Node} (found : .run nodes ∈ pieces (flatten ns)) :
    IsRun nodes := by
  refine isRun_of_whole found fun r here => ?_
  obtain ⟨n, -, part⟩ := mem_flatten.mp (mem_of_mem_pieces found here)
  exact (whole_of_phrasing n r part ((sorted_pieces _ _ found).2 r here)).1

theorem nest_mem_split {c b : Node} (splittable : shape.isSplittable) (member : c ∈ children)
    (part : b ∈ split c) (block : ¬ b.isPhrasing) :
    nest shape origin b ∈ split (.parent shape origin children) :=
  (mem_split_cover_iff splittable (List.ne_nil_of_mem member)).mpr
    (.inr ⟨c, member, b, part, block, rfl⟩)

theorem exists_run_mem_split {c r : Node} (origin : Origin) (splittable : shape.isSplittable)
    (member : c ∈ children) (part : r ∈ split c) (phrasing : r.isPhrasing) :
    ∃ nodes, IsRun nodes ∧ .parent shape origin nodes ∈ split (.parent shape origin children) := by
  obtain ⟨nodes, found, -⟩ := exists_run_mem_pieces (mem_flatten.mpr ⟨c, member, part⟩) phrasing
  exact ⟨nodes, isRun_of_mem_pieces found,
    (mem_split_cover_iff splittable (List.ne_nil_of_mem member)).mpr (.inl ⟨nodes, found, rfl⟩)⟩

theorem exists_of_loose (loose : n.Loose) : ∃ m ∈ split n, m.isPhrasing := by
  induction loose with
  | @whole n phrasing compact =>
      rw [split_of_compact compact]
      exact ⟨n, List.mem_singleton_self n, phrasing⟩
  | @cover shape origin children c phrasing splittable member _ ih =>
      obtain ⟨r, part, inlined⟩ := ih
      obtain ⟨nodes, -, copy⟩ := exists_run_mem_split origin splittable member part inlined
      exact ⟨_, copy, phrasing⟩

theorem not_isPhrasing_of_mem_split (block : ¬ n.isPhrasing) (member : m ∈ split n) :
    ¬ m.isPhrasing :=
  fun phrasing => block (whole_of_phrasing n m member phrasing).2.isPhrasing

theorem split_ne_nil (n : Node) : split n ≠ [] := by
  induction n using Node.coverInduction with
  | plain n plain =>
      rw [split_of_compact (Node.not_straddles plain)]
      exact List.cons_ne_nil n []
  | cover shape origin children splittable filled ih =>
      obtain ⟨c, member⟩ := List.exists_mem_of_ne_nil children filled
      obtain ⟨r, part⟩ := List.exists_mem_of_ne_nil _ (ih c member)
      by_cases phrasing : r.isPhrasing
      · obtain ⟨nodes, -, copy⟩ := exists_run_mem_split origin splittable member part phrasing
        exact List.ne_nil_of_mem copy
      · exact List.ne_nil_of_mem (nest_mem_split splittable member part phrasing)

theorem nest_eq_tower {b : Node} {cs : List Cover} (c : Cover) (run : IsRun nodes)
    (splittable : ∀ d ∈ cs, d.1.isSplittable) (blocks : ∃ d ∈ cs, d.isBlock)
    (same : [b] = tower (Cover.splitOrder cs) nodes) :
    [nest c.1 c.2 b] = tower (Cover.splitOrder (c :: cs)) nodes := by
  obtain ⟨d, ds, front, block⟩ := Cover.head_splitOrder blocks
  have inside : d ∈ cs := (Cover.perm_splitOrder cs).mem_iff.mp (front ▸ List.mem_cons_self)
  rw [front] at same
  obtain rfl : b = .parent d.1 d.2 (tower ds nodes) := (List.cons.inj same).1
  rw [nest_tower c (splittable d inside) run.filled, Cover.splitOrder_cons, front,
    Cover.putAround_of_block block]
  rfl

/-- A link or deletion that is a block comes out at the top of a tower: of those that it stood
inside of, in their order, around a run of its content. -/
theorem exists_tower_of_mem_split (n : Node) :
    ∀ m ∈ split n, m.IsCover → ¬ m.isPhrasing → ∃ above cover nodes,
      n.Stacks above cover ∧ IsRun nodes ∧
        [m] = tower (Cover.splitOrder (above ++ [cover])) nodes := by
  induction n using Node.coverInduction with
  | plain n plain =>
      intro m member covers
      rw [split_of_compact (Node.not_straddles plain)] at member
      exact absurd (List.mem_singleton.mp member ▸ covers) plain
  | cover shape origin children splittable filled ih =>
      intro m member covers block
      rcases (mem_split_cover_iff splittable filled).mp member with
        ⟨nodes, found, rfl⟩ | ⟨c, inside, b, part, outside, rfl⟩
      · have run := isRun_of_mem_pieces found
        obtain ⟨r, here⟩ := List.exists_mem_of_ne_nil nodes run.filled
        obtain ⟨c, inside, part⟩ := mem_flatten.mp (mem_of_mem_pieces found here)
        have loose := (whole_of_phrasing c r part (run.phrasing r here)).2
        exact ⟨[], (shape, origin), nodes, .here splittable block inside loose, run, rfl⟩
      · obtain ⟨above, cover, nodes, stacked, run, top⟩ :=
          ih c inside b part (isCover_of_nest covers) outside
        refine ⟨(shape, origin) :: above, cover, nodes, .deeper splittable inside stacked, run, ?_⟩
        exact nest_eq_tower (shape, origin) run stacked.isSplittable
          ⟨cover, by simp, stacked.isBlock⟩ top

theorem exists_mem_split_of_stacks {above : List Cover} {cover : Cover}
    (stacked : n.Stacks above cover) : ∃ m ∈ split n, ¬ m.isPhrasing ∧ ∃ nodes, IsRun nodes ∧
      [m] = tower (Cover.splitOrder (above ++ [cover])) nodes := by
  induction stacked with
  | @here shape origin children c splittable block member loose =>
      obtain ⟨r, part, phrasing⟩ := exists_of_loose loose
      obtain ⟨nodes, run, copy⟩ := exists_run_mem_split origin splittable member part phrasing
      exact ⟨_, copy, block, nodes, run, rfl⟩
  | @deeper shape origin children c above cover splittable member stacked ih =>
      obtain ⟨b, part, block, nodes, run, top⟩ := ih
      refine ⟨_, nest_mem_split splittable member part block, ?_, nodes, run, ?_⟩
      · rwa [isPhrasing_nest]
      · exact nest_eq_tower (shape, origin) run stacked.isSplittable
          ⟨cover, by simp, stacked.isBlock⟩ top

end Parts

section Again

variable {m : Node} {nodes run : List Node} {cs : List Cover}

theorem length_le_length_flatMap {α : Type} {f : α → List α} {as : List α}
    (filled : ∀ a ∈ as, f a ≠ []) : as.length ≤ (as.flatMap f).length := by
  induction as with
  | nil => exact Nat.zero_le _
  | cons a as ih =>
      obtain ⟨here, rest⟩ := List.forall_mem_cons.mp filled
      have some := List.length_pos_iff.mpr here
      have others := ih rest
      rw [List.flatMap_cons, List.length_append, List.length_cons]
      omega

/-- Where no element vanishes, the list can only stay the same if each element does. -/
theorem eq_singleton_of_flatMap {α : Type} {f : α → List α} {as : List α}
    (filled : ∀ a ∈ as, f a ≠ []) (same : as.flatMap f = as) : ∀ a ∈ as, f a = [a] := by
  induction as with
  | nil => simp
  | cons a as ih =>
      obtain ⟨here, rest⟩ := List.forall_mem_cons.mp filled
      obtain ⟨b, bs, parts⟩ := List.exists_cons_of_ne_nil here
      rw [List.flatMap_cons, parts, List.cons_append] at same
      obtain ⟨rfl, others⟩ := List.cons.inj same
      have longer := length_le_length_flatMap rest
      have sized := congrArg List.length others
      rw [List.length_append] at sized
      obtain rfl : bs = [] := List.length_eq_zero_iff.mp (by omega)
      exact List.forall_mem_cons.mpr ⟨parts, ih rest others⟩

/-- Making flow content again changes nothing if and only if no block of it is split. -/
theorem wrap_wrap_iff_split (nodes : List Node) :
    wrap (wrap nodes) = wrap nodes ↔ ∀ m ∈ flatten nodes, ¬ m.isPhrasing → split m = [m] := by
  have blocks : ∀ m ∈ flatten (wrap nodes), ¬ m.isPhrasing := by
    intro m member
    obtain ⟨n, inside, part⟩ := mem_flatten.mp member
    exact not_isPhrasing_of_mem_split (not_isPhrasing_of_mem_wrap inside) part
  rw [wrap_eq_flatten blocks]
  constructor
  · intro same m member block
    rw [flatten] at same
    apply eq_singleton_of_flatMap (fun n _ => split_ne_nil n) same
    rw [wrap]
    exact List.mem_flatMap.mpr ⟨.block m, block_mem_pieces member block, List.mem_singleton_self m⟩
  · intro whole
    apply flatten_of_whole
    intro m member
    rcases mem_wrap member with ⟨inside, block⟩ | ⟨run, -, -, rfl⟩
    · exact whole m inside block
    · exact split_of_compact Bool.false_ne_true

theorem split_tower_iff (isRun : IsRun run) (splittable : ∀ c ∈ cs, c.1.isSplittable)
    (top : [m] = tower (Cover.splitOrder cs) run) :
    split m = [m] ↔ Cover.splitOrder (Cover.splitOrder cs) = Cover.splitOrder cs := by
  have inside := Cover.perm_splitOrder cs
  have again : split m = tower (Cover.splitOrder (Cover.splitOrder cs)) run := by
    rw [← flatten_singleton, top]
    exact flatten_tower (fun c member => splittable c (inside.mem_iff.mp member)) isRun
  rw [again, top]
  constructor
  · intro same
    exact tower_inj same (Cover.perm_splitOrder _).length_eq
  · intro same
    rw [same]

theorem wrap_tower (isRun : IsRun run) (splittable : ∀ c ∈ cs, c.1.isSplittable)
    (blocks : ∃ c ∈ cs, c.isBlock) : wrap (tower cs run) = tower (Cover.splitOrder cs) run := by
  have flat := flatten_tower splittable isRun
  obtain ⟨d, ds, front, block⟩ := Cover.head_splitOrder blocks
  rw [wrap_eq_flatten, flat]
  rw [flat, front]
  exact List.forall_mem_singleton.mpr ((d.isBlock_iff _).mp block)

theorem wrap_wrap_of_keeps
    (keeps : ∀ n ∈ nodes, ∀ above cover, n.Stacks above cover → cover.Keeps above) :
    wrap (wrap nodes) = wrap nodes := by
  refine (wrap_wrap_iff_split nodes).mpr fun m member block => ?_
  obtain ⟨n, inside, part⟩ := mem_flatten.mp member
  by_cases covers : m.IsCover
  · obtain ⟨above, cover, run, stacked, isRun, top⟩ :=
      exists_tower_of_mem_split n m part covers block
    refine (split_tower_iff isRun stacked.isSplittable top).mpr ?_
    exact (Cover.splitOrder_splitOrder_iff stacked.isBlock above).mpr
      (keeps n inside above cover stacked)
  · exact split_of_compact (Node.not_straddles covers)

theorem keeps_of_wrap_wrap (same : wrap (wrap nodes) = wrap nodes) {n : Node} (inside : n ∈ nodes)
    {above : List Cover} {cover : Cover} (stacked : n.Stacks above cover) : cover.Keeps above := by
  obtain ⟨m, part, block, run, isRun, top⟩ := exists_mem_split_of_stacks stacked
  have whole := (wrap_wrap_iff_split nodes).mp same m (mem_flatten.mpr ⟨n, inside, part⟩) block
  exact (Cover.splitOrder_splitOrder_iff stacked.isBlock above).mp
    ((split_tower_iff isRun stacked.isSplittable top).mp whole)

/-- Without names of elements links and deletions are phrasing content, and none is a block. -/
theorem Node.Stacks.not_unnamed {n : Node} {above : List Cover} {cover : Cover}
    (stacked : n.Stacks above cover) :
    ¬ n.Throughout fun m => m.data.bind (·.elementName) = none := by
  induction stacked with
  | @here shape origin children c splittable block member loose =>
      intro unnamed
      have name : origin.data.bind (·.elementName) = none := unnamed.self
      apply block
      simp [Node.isPhrasing, Node.data, Node.origin, name,
        Shape.isPhrasing_of_isSplittable splittable]
  | deeper _ member _ ih => exact fun unnamed => ih ((Node.throughout_parent.mp unnamed).2 _ member)

/-- Making flow content again changes nothing if and only if each link or deletion that is a block
keeps its place: where it has loose content, there are only phrasing ones around it, or around those
such as are blocks and the same as itself. It never changes anything where no node has the name of
an element. -/
theorem wrap_wrap (nodes : List Node) :
    (wrap (wrap nodes) = wrap nodes ↔
      ∀ n ∈ nodes, ∀ above cover, n.Stacks above cover → cover.Keeps above) ∧
    ((∀ n ∈ nodes, n.Throughout fun m => m.data.bind (·.elementName) = none) →
      wrap (wrap nodes) = wrap nodes) := by
  constructor
  · constructor
    · intro same n inside above cover stacked
      exact keeps_of_wrap_wrap same inside stacked
    · exact wrap_wrap_of_keeps
  · intro unnamed
    apply wrap_wrap_of_keeps
    intro n inside above cover stacked
    exact absurd (unnamed n inside) stacked.not_unnamed

theorem wrap_wrap_nestedCovers :
    (∀ n ∈ [nestedCovers], n.Throughout fun m => m.data.bind (·.elementName) = none) ∧
      wrap (wrap [nestedCovers]) = wrap [nestedCovers] := by
  have unnamed : ∀ n ∈ [nestedCovers],
      n.Throughout fun m => m.data.bind (·.elementName) = none := by
    simp [Node.Throughout, nestedCovers, Node.plain, Node.text, Node.paragraph, Node.subtree,
      subtreeAll, Node.data, Node.origin]
  exact ⟨unnamed, (wrap_wrap [nestedCovers]).2 unnamed⟩

def sectionLink : Cover := (.link "u" none, { data := some { elementName := some "section" } })

def divDeletion : Cover := (.delete, { data := some { elementName := some "div" } })

/-- The link and the deletion inside it change places each time. -/
theorem not_wrap_wrap :
    wrap (wrap (tower [sectionLink, divDeletion] [.text "a"])) ≠
      wrap (tower [sectionLink, divDeletion] [.text "a"]) := by
  have whole : split (.text "a") = [.text "a"] := split_of_compact id
  have run : IsRun [.text "a"] :=
    ⟨List.cons_ne_nil _ _, by decide, flatten_of_whole (List.forall_mem_singleton.mpr whole)⟩
  have once : Cover.splitOrder [sectionLink, divDeletion] = [divDeletion, sectionLink] := by decide
  have twice : Cover.splitOrder [divDeletion, sectionLink] = [sectionLink, divDeletion] := by decide
  rw [wrap_tower run (by decide) (by decide), once, wrap_tower run (by decide) (by decide), twice]
  exact fun same => absurd (tower_inj same rfl) (by decide)

end Again

end HtmlToMarkdown.Markdown
