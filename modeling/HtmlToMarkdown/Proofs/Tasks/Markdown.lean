import HtmlToMarkdown.Proofs.Coercion
import HtmlToMarkdown.Proofs.Flow.Clean
import HtmlToMarkdown.Proofs.Grid.Spread
import HtmlToMarkdown.Proofs.Normal
import HtmlToMarkdown.Proofs.Walk.Handlers
import Mathlib.Algebra.BigOperators.Group.Multiset.Basic

namespace HtmlToMarkdown.Markdown

abbrev Item := Option Position × Option Bool

abbrev Task := Option Position × Bool

def Item.task? (item : Item) : Option Task := item.2.map (item.1, ·)

namespace Node

def item? : Node → Option Item
  | .parent (.listItem _ checked) origin _ => some (origin.position, checked)
  | _ => none

def task? (n : Node) : Option Task := n.item?.bind Item.task?

def tasks (n : Node) : Multiset Task := n.subtree.filterMap task?

end Node

def itemsOf (ns : List Node) : Multiset Item := ns.filterMap Node.item?

/-- The tasks among the nodes and below them. -/
def tasksOf (ns : List Node) : Multiset Task := (subtreeAll ns).filterMap Node.task?

structure Counts {α : Type} (f : List Node → Multiset α) : Prop where
  nil : f [] = 0
  cons (n : Node) (ns : List Node) : f (n :: ns) = f [n] + f ns
  leaf (content : Leaf) (origin : Origin) : f [.leaf content origin] = 0

namespace Counts

variable {α : Type} {f : List Node → Multiset α} (counts : Counts f)

include counts

theorem append (ms ns : List Node) : f (ms ++ ns) = f ms + f ns := by
  induction ms with
  | nil => rw [List.nil_append, counts.nil, zero_add]
  | cons m ms ih => rw [List.cons_append, counts.cons, ih, counts.cons m ms, add_assoc]

theorem eq_zero {ns : List Node} (none : ∀ n ∈ ns, f [n] = 0) : f ns = 0 := by
  induction ns with
  | nil => exact counts.nil
  | cons n ns ih =>
      obtain ⟨here, rest⟩ := List.forall_mem_cons.mp none
      rw [counts.cons, here, ih rest, add_zero]

theorem map {g : Node → Node} {ns : List Node} (same : ∀ n ∈ ns, f [g n] = f [n]) :
    f (ns.map g) = f ns := by
  induction ns with
  | nil => rfl
  | cons n ns ih =>
      obtain ⟨here, rest⟩ := List.forall_mem_cons.mp same
      rw [List.map_cons, counts.cons, here, ih rest, ← counts.cons]

theorem flatMap {β : Type} {g h : β → List Node} {bs : List β}
    (same : ∀ b ∈ bs, f (g b) = f (h b)) : f (bs.flatMap g) = f (bs.flatMap h) := by
  induction bs with
  | nil => rfl
  | cons b bs ih =>
      obtain ⟨here, rest⟩ := List.forall_mem_cons.mp same
      rw [List.flatMap_cons, List.flatMap_cons, counts.append, counts.append, here, ih rest]

theorem dropSurroundingBreaks (ns : List Node) :
    f (Markdown.dropSurroundingBreaks ns) = f ns := by
  obtain ⟨front, back, breaks, same⟩ := exists_of_dropSurroundingBreaks ns
  have ends : ∀ n ∈ front ++ back, f [n] = 0 := by
    intro n member
    have isBreak := breaks n member
    cases n with
    | leaf content origin => exact counts.leaf content origin
    | parent shape origin children => cases isBreak
  have noFront := counts.eq_zero fun n member => ends n (List.mem_append_left _ member)
  have noBack := counts.eq_zero fun n member => ends n (List.mem_append_right _ member)
  calc f (Markdown.dropSurroundingBreaks ns)
    _ = f front + f (Markdown.dropSurroundingBreaks ns) + f back := by
      rw [noFront, noBack, zero_add, add_zero]
    _ = f (front ++ Markdown.dropSurroundingBreaks ns ++ back) := by
      rw [counts.append, counts.append]
    _ = f ns := by rw [← same]

theorem quoteWith (marks : String × String) (ns : List Node) :
    f (Handler.quoteWith marks ns) = f ns := by
  have text : ∀ value, f [.text value] = 0 := fun value => counts.leaf (.text value) {}
  have closed : ∀ ns, f (Handler.closeQuote marks.2 ns) = f ns := by
    intro ns
    fun_induction Handler.closeQuote marks.2 ns with
    | case1 => rw [text, counts.nil]
    | case2 value origin => rw [counts.leaf, counts.leaf]
    | case3 n => rw [counts.cons, text, add_zero]
    | case4 n ns =>
        rename_i ih
        rw [counts.cons, ih, ← counts.cons]
  have opened : ∀ ns, f (Handler.openQuote marks.1 ns) = f ns := by
    intro ns
    unfold Handler.openQuote
    split
    · rw [counts.cons, counts.leaf, ← counts.leaf, ← counts.cons]
    · rw [counts.cons, text, zero_add]
  unfold Handler.quoteWith
  split
  next none => rw [List.isEmpty_iff.mp none, counts.cons, text, text, counts.nil, add_zero]
  next => rw [opened, closed]

theorem mergeTexts (held : Option (String × Origin)) (ns : List Node) :
    f (Markdown.mergeTexts held ns) = f ns := by
  have heldNothing : f (heldText held) = 0 := by
    cases held with
    | none => exact counts.nil
    | some text => exact counts.leaf _ _
  fun_induction Markdown.mergeTexts held ns with
  | case1 held => rw [heldNothing, counts.nil]
  | case2 value origin ns =>
      rename_i ih
      rw [ih (counts.leaf _ _), counts.cons (.leaf _ _), counts.leaf, zero_add]
  | case3 value origin more next ns =>
      rename_i ih
      rw [ih (counts.leaf _ _), counts.cons (.leaf _ _), counts.leaf, zero_add]
  | case4 held n ns =>
      rename_i ih
      rw [counts.append, heldNothing, zero_add, counts.cons, ih counts.nil, ← counts.cons]

theorem tidyTexts (trims first : Bool) (ns : List Node) :
    f (Markdown.tidyTexts trims first ns) = f ns := by
  fun_induction Markdown.tidyTexts trims first ns with
  | case1 => rfl
  | case2 first value origin ns tidied empty =>
      rename_i ih
      rw [ih, counts.cons (.leaf _ _), counts.leaf, zero_add]
  | case3 first value origin ns tidied filled =>
      rename_i ih
      rw [counts.cons, counts.leaf, ih, counts.cons (.leaf _ _) ns, counts.leaf]
  | case4 first n ns =>
      rename_i ih
      rw [counts.cons, ih, ← counts.cons]

theorem toFlow (paragraph : ∀ ns, f [.paragraph ns] = f ns) (p : Piece) :
    f p.toFlow = f p.nodes := by
  cases p with
  | block node => rfl
  | run nodes =>
      rw [Piece.toFlow]
      split
      next white =>
        have texts := List.all_eq_true.mp white
        refine counts.nil.trans (counts.eq_zero fun n member => ?_).symm
        have text := texts n member
        cases n with
        | leaf content origin => exact counts.leaf content origin
        | parent shape origin children => cases text
      next => rw [paragraph, counts.dropSurroundingBreaks, Piece.nodes]

end Counts

section Sums

variable {n : Node} {ns : List Node} {shape : Shape} {origin : Origin} {children : List Node}

@[simp] theorem tasksOf_singleton (n : Node) : tasksOf [n] = n.tasks := by
  rw [tasksOf, subtreeAll, subtreeAll, List.append_nil, Node.tasks]

theorem counts_tasksOf : Counts tasksOf where
  nil := rfl
  cons n ns := by
    rw [tasksOf_singleton, tasksOf, subtreeAll, List.filterMap_append, ← Multiset.coe_add]
    rfl
  leaf _ _ := rfl

theorem counts_itemsOf : Counts itemsOf where
  nil := rfl
  cons n ns := by
    rw [itemsOf, ← List.singleton_append, List.filterMap_append, ← Multiset.coe_add]
    rfl
  leaf _ _ := rfl

theorem counts_flatItems : Counts fun ns => itemsOf (flatten ns) where
  nil := by
    rw [flatten]
    rfl
  cons n ns := by
    simp only [flatten, List.flatMap_cons, List.flatMap_nil, List.append_nil]
    exact counts_itemsOf.append _ _
  leaf content origin := by
    rw [flatten, List.flatMap_singleton, split]
    rfl

theorem tasks_parent : (Node.parent shape origin children).tasks =
    (Node.parent shape origin []).tasks + tasksOf children := by
  have mark : (Node.parent shape origin children).task? = (Node.parent shape origin []).task? := by
    cases shape <;> rfl
  rw [Node.tasks, Node.tasks, Node.subtree, Node.subtree, List.filterMap_cons,
    List.filterMap_cons, mark]
  cases (Node.parent shape origin []).task? with
  | none => exact (zero_add _).symm
  | some task => rfl

theorem tasks_refill {others : List Node} (same : tasksOf others = tasksOf children) :
    (Node.parent shape origin others).tasks = (Node.parent shape origin children).tasks := by
  rw [tasks_parent, same, ← tasks_parent]

theorem tasks_append (strays : List Node) : (Node.parent shape origin (children ++ strays)).tasks =
    (Node.parent shape origin children).tasks + tasksOf strays := by
  rw [tasks_parent, counts_tasksOf.append, ← add_assoc, ← tasks_parent]

theorem tasks_prepend (strays : List Node) : (Node.parent shape origin (strays ++ children)).tasks =
    tasksOf strays + (Node.parent shape origin children).tasks := by
  rw [tasks_parent, counts_tasksOf.append, add_left_comm, ← tasks_parent]

theorem tasks_of_not_item (plain : shape.kind ≠ .listItem) :
    (Node.parent shape origin children).tasks = tasksOf children := by
  rw [tasks_parent]
  cases shape with
  | listItem => exact absurd rfl plain
  | _ => exact zero_add _

theorem tasksOf_paragraph (ns : List Node) : tasksOf [.paragraph ns] = tasksOf ns :=
  (tasksOf_singleton _).trans (tasks_of_not_item (by decide))

theorem not_item_of_isSplittable (splittable : shape.isSplittable) : shape.kind ≠ .listItem := by
  cases shape with
  | delete | link => nofun
  | _ => cases splittable

theorem item?_withChildren (n : Node) (children : List Node) :
    (n.withChildren children).item? = n.item? := by
  cases n with
  | leaf content origin => rfl
  | parent shape origin own => cases shape <;> rfl

end Sums

section Flow

theorem tasksOf_rules :
    FlowRules (fun ns => tasksOf (flatten ns) = tasksOf ns)
      (fun n => tasksOf (split n) = n.tasks)
      (fun shape origin b => (nest shape origin b).tasks = b.tasks)
      (fun ns => tasksOf (wrap ns) = tasksOf ns) where
  flattened nodes parts := by
    rw [flatten]
    have same := counts_tasksOf.flatMap (g := split) (h := fun n => [n])
      fun n member => (parts n member).trans (tasksOf_singleton n).symm
    rwa [List.flatMap_singleton'] at same
  whole n _ same := by rw [same, tasksOf_singleton]
  divided shape origin children splittable inside blocks same := by
    have plain := not_item_of_isSplittable splittable
    have pieces : tasksOf ((pieces (flatten children)).flatMap fun p => [p.around shape origin]) =
        tasksOf ((pieces (flatten children)).flatMap Piece.nodes) := by
      refine counts_tasksOf.flatMap fun p found => ?_
      cases p with
      | run nodes => exact (tasksOf_singleton _).trans (tasks_of_not_item plain)
      | block b =>
          have inFlat := mem_of_mem_pieces found (List.mem_singleton_self b)
          have nested := blocks b inFlat (sorted_pieces _ _ found)
          exact (tasksOf_singleton _).trans (nested.trans (tasksOf_singleton b).symm)
    calc tasksOf (split (.parent shape origin children))
      _ = tasksOf ((Markdown.pieces (flatten children)).flatMap Piece.nodes) := by
        rw [same, List.map_eq_flatMap, pieces]
      _ = tasksOf children := by rw [nodes_pieces, inside]
      _ = (Node.parent shape origin children).tasks := (tasks_of_not_item plain).symm
  leaf shape origin _ content place := by rw [nest_leaf]
  empty shape origin _ kind place := by rw [nest_empty]
  grid shape origin _ kind place children isGrid below := by
    rw [nest_grid shape origin isGrid]
    refine tasks_refill (counts_tasksOf.map fun c member => ?_)
    rw [tasksOf_singleton, tasksOf_singleton, below c member]
  container shape origin splittable kind place children filled isContainer inside := by
    rw [nest_container shape origin isContainer place filled]
    refine tasks_refill (inside.trans ?_)
    rw [tasksOf_singleton, tasks_of_not_item (not_item_of_isSplittable splittable)]
  other shape origin splittable kind place children filled notGrid notContainer := by
    rw [nest_other shape origin notGrid notContainer place filled]
    refine tasks_refill ?_
    rw [tasksOf_singleton, tasks_of_not_item (not_item_of_isSplittable splittable)]
  wrapped nodes inside := by
    calc tasksOf (wrap nodes)
      _ = tasksOf ((pieces (flatten nodes)).flatMap Piece.nodes) := by
        rw [wrap]
        exact counts_tasksOf.flatMap fun p _ => counts_tasksOf.toFlow tasksOf_paragraph p
      _ = tasksOf nodes := by rw [nodes_pieces, inside]

theorem tasksOf_wrap (ns : List Node) : tasksOf (wrap ns) = tasksOf ns :=
  tasksOf_rules.flow_all ns

section Items

variable {n : Node} {ns : List Node} {shape : Shape} {origin : Origin} {children : List Node}

@[simp] theorem itemsOf_singleton (n : Node) : itemsOf [n] = n.item?.toList := by
  rw [itemsOf, List.filterMap_cons]
  cases n.item? <;> rfl

theorem itemsOf_of_not_item (plain : shape.kind ≠ .listItem) :
    itemsOf [.parent shape origin children] = 0 := by
  rw [itemsOf_singleton]
  cases shape with
  | listItem => exact absurd rfl plain
  | _ => rfl

theorem item?_nest (shape : Shape) (origin : Origin) (b : Node) :
    (nest shape origin b).item? = b.item? := by
  cases b with
  | leaf content place => rw [nest_leaf]
  | parent kind place children =>
      obtain ⟨others, same⟩ := exists_nest_parent shape origin kind place children
      rw [same]
      cases kind <;> rfl

theorem item?_of_phrasing (regular : n.Regular) (phrasing : n.isPhrasing) : n.item? = none := by
  cases n with
  | leaf content origin => rfl
  | parent shape origin children =>
      rw [regular.isPhrasing_parent] at phrasing
      cases shape with
      | listItem => cases phrasing
      | _ => rfl

theorem itemsOf_of_phrasing (regular : ∀ n ∈ ns, n.Throughout Node.Regular)
    (phrasing : ∀ n ∈ ns, n.isPhrasing) : itemsOf ns = 0 := by
  refine counts_itemsOf.eq_zero fun n member => ?_
  rw [itemsOf_singleton, item?_of_phrasing (regular n member).self (phrasing n member)]
  rfl

theorem tasksOf_inline (regular : ∀ n ∈ ns, n.Throughout Node.Regular)
    (inlined : ∀ n ∈ ns, n.Inline) : tasksOf ns = 0 := by
  refine counts_tasksOf.eq_zero fun n member => ?_
  have none : n.subtree.filterMap Node.task? = [] := by
    refine List.filterMap_eq_nil_iff.mpr fun m inside => ?_
    rw [Node.task?, item?_of_phrasing (regular n member m inside) (inlined n member m inside)]
    rfl
  rw [tasksOf_singleton, Node.tasks, none]
  rfl

theorem itemsOf_pieces {g : Piece → List Node}
    (regular : ∀ n ∈ ns, n.Throughout Node.Regular)
    (run : ∀ nodes, itemsOf (g (.run nodes)) = 0)
    (block : ∀ b, itemsOf (g (.block b)) = itemsOf [b]) :
    itemsOf ((pieces (flatten ns)).flatMap g) = itemsOf (flatten ns) := by
  have flat := regular_flowInvariant.flatten (i := ()) regular
  have same : itemsOf ((pieces (flatten ns)).flatMap g) =
      itemsOf ((pieces (flatten ns)).flatMap Piece.nodes) := by
    refine counts_itemsOf.flatMap fun p found => ?_
    cases p with
    | block b => exact block b
    | run nodes =>
        have phrasing := (sorted_pieces _ _ found).2
        have none : itemsOf nodes = 0 :=
          itemsOf_of_phrasing (fun n member => flat n (mem_of_mem_pieces found member)) phrasing
        exact (run nodes).trans none.symm
  rw [same, nodes_pieces]

theorem itemsOf_wrap (regular : ∀ n ∈ ns, n.Throughout Node.Regular) :
    itemsOf (wrap ns) = itemsOf (flatten ns) := by
  rw [wrap]
  refine itemsOf_pieces regular (fun nodes => ?_) fun b => rfl
  rw [Piece.toFlow]
  split
  · rfl
  · exact itemsOf_of_not_item (by decide)

theorem flatItems_wrap (regular : ∀ n ∈ ns, n.Throughout Node.Regular) :
    itemsOf (flatten (wrap ns)) = itemsOf (flatten ns) := by
  have wrapped := regular_flowInvariant.wrap (i := ()) regular
  rw [flatten_of_blocks (fun n member => (wrapped n member).self)
    fun n => not_isPhrasing_of_mem_wrap, itemsOf_wrap regular]

theorem itemsOf_inline (regular : ∀ n ∈ ns, n.Throughout Node.Regular)
    (inlined : ∀ n ∈ ns, n.Inline) : itemsOf ns = 0 ∧ itemsOf (flatten ns) = 0 := by
  have none := itemsOf_of_phrasing regular fun n member => (inlined n member).self
  have whole : flatten ns = ns := by
    rw [flatten, List.flatMap_congr fun n member => split_of_inline (inlined n member)]
    exact List.flatMap_singleton' ns
  exact ⟨none, whole.symm ▸ none⟩

theorem flatItems_cover (splittable : shape.isSplittable)
    (regular : ∀ c ∈ children, c.Throughout Node.Regular) :
    itemsOf (flatten [.parent shape origin children]) = itemsOf (flatten children) := by
  have plain := not_item_of_isSplittable splittable
  rw [flatten, List.flatMap_singleton]
  by_cases needed : wrapNeeded children
  · rw [split_parent (by simp [splittable, needed]), List.map_eq_flatMap]
    refine itemsOf_pieces regular (fun nodes => itemsOf_of_not_item plain) fun b => ?_
    rw [itemsOf_singleton, itemsOf_singleton, Piece.around, item?_nest]
  · have inlined := (not_wrapNeeded_iff children).mp needed
    rw [split, if_neg (by simp [needed]), (itemsOf_inline regular inlined).2]
    exact itemsOf_of_not_item plain

theorem flatItems_whole (whole : ¬ shape.isSplittable) :
    itemsOf (flatten [.parent shape origin children]) =
      itemsOf [.parent shape origin children] := by
  rw [flatten, List.flatMap_singleton, split, if_neg (by simp [whole])]

end Items

end Flow

section Coercion

variable {shape : Shape}

theorem tasksOf_collect (strays ns : List Node) :
    tasksOf (collect shape.kind strays ns).1 + tasksOf (collect shape.kind strays ns).2 =
      tasksOf strays + tasksOf ns := by
  induction ns generalizing strays with
  | nil => rw [collect, counts_tasksOf.nil, zero_add, add_zero]
  | cons n ns ih =>
      by_cases same : n.kind = shape.kind
      · rcases exists_parent_of_kind same with ⟨own, origin, children, rfl⟩
        simp only [collect, if_pos same]
        rw [counts_tasksOf.cons, tasksOf_singleton, tasks_prepend, add_assoc, add_assoc, ih,
          counts_tasksOf.nil, zero_add, ← tasksOf_singleton, ← counts_tasksOf.cons]
      · simp only [collect, if_neg same, ih]
        rw [counts_tasksOf.append, add_assoc, ← counts_tasksOf.cons]

theorem tasksOf_appendToLast {strays ns : List Node} (filled : ns ≠ [])
    (kinds : ∀ n ∈ ns, n.kind = shape.kind) :
    tasksOf (appendToLast strays ns) = tasksOf ns + tasksOf strays := by
  fun_induction appendToLast strays ns with
  | case1 => contradiction
  | case2 n =>
      rcases exists_parent_of_kind (kinds n List.mem_cons_self) with ⟨own, origin, children, rfl⟩
      rw [tasksOf_singleton, tasksOf_singleton]
      exact tasks_append strays
  | case3 n ns more =>
      rename_i ih
      have rest := ih more fun m member => kinds m (List.mem_cons_of_mem _ member)
      rw [counts_tasksOf.cons, rest, ← add_assoc, ← counts_tasksOf.cons]

theorem tasksOf_coerce (bare : (Node.plain shape []).tasks = 0) (ns : List Node) :
    tasksOf (coerce (.plain shape []) ns) = tasksOf ns := by
  have collected := @tasksOf_collect shape [] ns
  rw [counts_tasksOf.nil, zero_add] at collected
  have kind : (Node.plain shape []).kind = shape.kind := rfl
  have kinds : ∀ r ∈ (collect shape.kind [] ns).1, r.kind = shape.kind := kind_of_mem_collect
  simp only [coerce, kind]
  split
  next none =>
    rwa [List.isEmpty_iff.mp none, counts_tasksOf.nil, add_zero] at collected
  next =>
    split
    next none =>
      rw [List.isEmpty_iff.mp none, counts_tasksOf.nil, zero_add] at collected
      rw [@tasksOf_appendToLast shape _ _ (List.cons_ne_nil _ _)
        (List.forall_mem_singleton.mpr kind), tasksOf_singleton, bare, zero_add, collected]
    next some =>
      rw [tasksOf_appendToLast (by simpa using some) kinds, collected]

theorem item?_of_kind {n : Node} (apart : n.kind ≠ .listItem) : n.item? = none := by
  cases n with
  | leaf content origin => rfl
  | parent shape origin children =>
      cases shape with
      | listItem => exact absurd rfl apart
      | _ => rfl

theorem itemsOf_shell (ns : List Node) : itemsOf (ns.map Node.shell) = itemsOf ns :=
  counts_itemsOf.map fun n _ => by
    rw [itemsOf_singleton, itemsOf_singleton, Node.shell, item?_withChildren]

theorem itemsOf_filter (ns : List Node) :
    itemsOf (ns.filter (·.kind = .listItem)) = itemsOf ns := by
  have same : itemsOf (ns.flatMap fun n => [n].filter (·.kind = .listItem)) =
      itemsOf (ns.flatMap fun n => [n]) := by
    refine counts_itemsOf.flatMap fun n _ => ?_
    by_cases item : n.kind = .listItem
    · rw [List.filter_cons_of_pos (by simpa using item), List.filter_nil]
    · rw [List.filter_cons_of_neg (by simpa using item), List.filter_nil, itemsOf_singleton,
        item?_of_kind item]
      rfl
  rwa [← List.filter_flatMap, List.flatMap_singleton'] at same

theorem itemsOf_items (ns : List Node) :
    itemsOf (coerce Handler.emptyItem ns) = itemsOf ns ∨
      itemsOf ns = 0 ∧ itemsOf (coerce Handler.emptyItem ns) = {(none, none)} := by
  have found : itemsOf (collect .listItem [] ns).1 = itemsOf ns := by
    have shells : (collect .listItem [] ns).1.map Node.shell =
        (ns.filter (·.kind = .listItem)).map Node.shell :=
      @shells_collect (.listItem false none) [] ns
    rw [← itemsOf_shell, shells, itemsOf_shell, itemsOf_filter]
  have appended : ∀ strays ns, itemsOf (appendToLast strays ns) = itemsOf ns := by
    intro strays ns
    rw [← itemsOf_shell, shells_appendToLast, itemsOf_shell]
  have kind : Handler.emptyItem.kind = .listItem := rfl
  simp only [coerce, kind]
  split
  · exact .inl found
  · rw [appended]
    split
    next none =>
      rw [List.isEmpty_iff.mp none] at found
      exact .inr ⟨found.symm, rfl⟩
    next => exact .inl found

theorem card_itemsOf {ns : List Node} (kinds : ∀ n ∈ ns, n.kind = .listItem) :
    (itemsOf ns).card = ns.length := by
  induction ns with
  | nil => rfl
  | cons n ns ih =>
      obtain ⟨here, rest⟩ := List.forall_mem_cons.mp kinds
      obtain ⟨spread, checked, origin, children, rfl⟩ := exists_item_of_kind here
      rw [counts_itemsOf.cons, itemsOf_singleton, Multiset.card_add, ih rest, List.length_cons,
        Nat.add_comm]
      rfl

def loneTasks (items : Multiset Item) : Multiset Task :=
  if items.card = 1 then items.filterMap Item.task? else 0

theorem loneTasks_items (ns : List Node) :
    loneTasks (itemsOf (coerce Handler.emptyItem ns)) = loneTasks (itemsOf ns) := by
  rcases itemsOf_items ns with same | ⟨none, fresh⟩
  · rw [same]
  · rw [none, fresh]
    rfl

/-- An item that is unwrapped takes its mark with it, and no other task goes. -/
theorem tasksOf_unwrapSingle {items : List Node} (kinds : ∀ r ∈ items, r.kind = .listItem) :
    tasksOf (Handler.unwrapSingle items) + loneTasks (itemsOf items) = tasksOf items := by
  match items with
  | [] => rfl
  | [item] =>
      obtain ⟨spread, checked, origin, children, rfl⟩ :=
        exists_item_of_kind (kinds item List.mem_cons_self)
      rw [tasksOf_singleton, tasks_parent, add_comm]
      cases checked <;> rfl
  | first :: second :: items =>
      have several : (itemsOf (first :: second :: items)).card ≠ 1 := by
        rw [card_itemsOf kinds]
        simp
      rw [loneTasks, if_neg several, add_zero]
      exact (tasksOf_singleton _).trans (tasks_of_not_item nofun)

theorem tasksOf_side (ns : List Node) :
    tasksOf (Handler.unwrapSingle (coerce Handler.emptyItem ns)) + loneTasks (itemsOf ns) =
      tasksOf ns := by
  rw [← loneTasks_items, tasksOf_unwrapSingle kind_of_mem_coerce]
  exact tasksOf_coerce rfl ns

theorem tasksOf_groupItem (ns : List Node) : tasksOf (Handler.groupItem ns) = tasksOf ns := by
  cases ns with
  | nil => rfl
  | cons n ns =>
      have item := @tasks_parent (.listItem (1 < (n :: ns).length) none) {} (n :: ns)
      exact (tasksOf_singleton _).trans (item.trans (zero_add _))

end Coercion

section Grid

theorem tasksOf_replicate_emptyCell (k : Nat) : tasksOf (List.replicate k emptyCell) = 0 :=
  counts_tasksOf.eq_zero fun n member => by rw [List.eq_of_mem_replicate member]; rfl

theorem Spread.tasksOf_eq {cells : List Cell} {nodes : List Node} (spread : Spread cells nodes) :
    tasksOf nodes = tasksOf (cells.map Prod.fst) := by
  induction spread with
  | done => rfl
  | empty rest ih =>
      rw [counts_tasksOf.cons, ih]
      exact zero_add _
  | cell n span rest ih =>
      rw [List.cons_append, counts_tasksOf.cons, counts_tasksOf.append,
        tasksOf_replicate_emptyCell, zero_add, ih, List.map_cons, ← counts_tasksOf.cons]

theorem tasksOf_refilled {rows filled : List Node} (related : List.Forall₂ Refilled rows filled) :
    tasksOf filled = tasksOf rows := by
  induction related with
  | nil => rfl
  | @cons row other rows others here _ ih =>
      cases here with
      | @row origin children nodes cells own spread =>
          have same : tasksOf nodes = tasksOf children := by
            rw [spread.tasksOf_eq, own]
            exact tasksOf_coerce rfl children
          have refilled : (Node.parent .tableRow origin nodes).tasks =
              (Node.parent .tableRow origin children).tasks := tasks_refill same
          rw [counts_tasksOf.cons, tasksOf_singleton, counts_tasksOf.cons (.parent ..),
            tasksOf_singleton, ih, refilled]

theorem tasksOf_rectangle (headless : Bool) (align : List (Option Align)) {rows : List Node}
    (spans : List (List Html.CellSpan)) (kinds : ∀ r ∈ rows, r.kind = .tableRow) :
    tasksOf (rectangle headless align rows spans).2 = tasksOf rows := by
  have givenTasks : tasksOf (givenRows headless rows) = tasksOf rows := by
    cases headless with
    | false => rfl
    | true => exact (counts_tasksOf.cons _ _).trans (zero_add _)
  rw [← givenTasks]
  exact tasksOf_refilled (refilled_rectangle headless align rows spans kinds)

end Grid

section Normal

theorem tasks_normalize (n : Node) : n.normalize.tasks = n.tasks := by
  induction n using Node.induction with
  | leaf content origin => rfl
  | parent shape origin children ih =>
      rw [Node.normalize, normalizeAll_eq_map]
      refine tasks_refill ?_
      rw [counts_tasksOf.tidyTexts, counts_tasksOf.mergeTexts]
      refine counts_tasksOf.map fun c member => ?_
      rw [tasksOf_singleton, tasksOf_singleton, ih c member]

end Normal

end HtmlToMarkdown.Markdown
