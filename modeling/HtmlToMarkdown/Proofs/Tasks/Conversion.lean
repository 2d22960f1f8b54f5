import HtmlToMarkdown.Converter
import HtmlToMarkdown.Proofs.Pushed.Conversion
import HtmlToMarkdown.Proofs.Tasks.Source

namespace HtmlToMarkdown

open Handler (groupContent groupFrom groupItems placed placedLeaf taskOf unwrapDivs)
open Handlers (Registered standard)
open Html (Element openItemsIn tallyIn)
open Markdown (Item Leaf Node Shape Task counts_flatItems counts_itemsOf counts_tasksOf
  flatten itemsOf loneTasks tasksOf wrap)

/-- What nodes tell of the source nodes that they come from: they have all the tasks except for the
lost ones, and these items, as they are and after links and deletions are split. -/
structure Tells (lost all : Multiset Task) (bare flowing : Multiset Item) (ns : List Node) :
    Prop where
  tasks : tasksOf ns + lost = all
  bare : itemsOf ns = bare
  flowing : itemsOf (flatten ns) = flowing

def Html.Node.ToldBy (inTable : Bool) (n : Html.Node) (ns : List Markdown.Node) : Prop :=
  Tells (n.tally Element.unwrappedTasks false inTable)
    (n.tally (fun _ e => e.ownTasks) false inTable) (n.openItems inTable false)
    (n.openItems inTable true) ns

def AllToldBy (inTable : Bool) (sources : List Html.Node) (ns : List Node) : Prop :=
  Tells (tallyIn Element.unwrappedTasks false inTable sources)
    (tallyIn (fun _ e => e.ownTasks) false inTable sources) (openItemsIn inTable false sources)
    (openItemsIn inTable true sources) ns

/-- The nodes that an action gives tell all that there is to tell of the source. -/
def Html.Node.Told (n : Html.Node) (act : Conversion (List Markdown.Node)) : Prop :=
  ∀ s, n.ToldBy s.inTable (act.run s).1

section Tells

variable {lost all lostToo allToo : Multiset Task} {bare flowing bareToo flowingToo : Multiset Item}
  {ms ns : List Node}

theorem tells_nothing (tasks : tasksOf ns = 0) (items : itemsOf ns = 0 ∧ itemsOf (flatten ns) = 0) :
    Tells 0 0 0 0 ns :=
  ⟨by rw [tasks, add_zero], items.1, items.2⟩

theorem tells_leaf (content : Leaf) (origin : Markdown.Origin) :
    Tells 0 0 0 0 [.leaf content origin] :=
  tells_nothing (counts_tasksOf.leaf content origin)
    ⟨counts_itemsOf.leaf content origin, counts_flatItems.leaf content origin⟩

theorem tells_inline (regular : ∀ n ∈ ns, n.Throughout Node.Regular)
    (inlined : ∀ n ∈ ns, n.Inline) : Tells 0 0 0 0 ns :=
  tells_nothing (Markdown.tasksOf_inline regular inlined) (Markdown.itemsOf_inline regular inlined)

theorem Tells.append (tells : Tells lost all bare flowing ms)
    (more : Tells lostToo allToo bareToo flowingToo ns) :
    Tells (lost + lostToo) (all + allToo) (bare + bareToo) (flowing + flowingToo) (ms ++ ns) where
  tasks := by
    rw [counts_tasksOf.append, ← tells.tasks, ← more.tasks]
    exact add_add_add_comm ..
  bare := by rw [counts_itemsOf.append, tells.bare, more.bare]
  flowing := (counts_flatItems.append ms ns).trans (congr (congrArg _ tells.flowing) more.flowing)

theorem Tells.inline (tells : Tells lost all bare flowing ns)
    (regular : ∀ n ∈ ns, n.Throughout Node.Regular) (inlined : ∀ n ∈ ns, n.Inline)
    (other : Tells 0 0 0 0 ms) : Tells lost all bare flowing ms where
  tasks := by
    have none : tasksOf ms = 0 := (add_zero _).symm.trans other.tasks
    rw [none, ← tells.tasks, Markdown.tasksOf_inline regular inlined]
  bare := by rw [other.bare, ← tells.bare, (Markdown.itemsOf_inline regular inlined).1]
  flowing := by rw [other.flowing, ← tells.flowing, (Markdown.itemsOf_inline regular inlined).2]

theorem Tells.quoteWith (tells : Tells lost all bare flowing ns) (marks : String × String) :
    Tells lost all bare flowing (Handler.quoteWith marks ns) where
  tasks := by rw [counts_tasksOf.quoteWith, tells.tasks]
  bare := by rw [counts_itemsOf.quoteWith, tells.bare]
  flowing := (counts_flatItems.quoteWith marks ns).trans tells.flowing

theorem Tells.wrap (tells : Tells lost all bare flowing ns)
    (regular : ∀ n ∈ ns, n.Throughout Node.Regular) :
    Tells lost all flowing flowing (Markdown.wrap ns) where
  tasks := by rw [Markdown.tasksOf_wrap, tells.tasks]
  bare := by rw [Markdown.itemsOf_wrap regular, tells.flowing]
  flowing := by rw [Markdown.flatItems_wrap regular, tells.flowing]

variable {shape : Shape} {origin : Markdown.Origin}

theorem Tells.cover (tells : Tells lost all bare flowing ns)
    (regular : ∀ n ∈ ns, n.Throughout Node.Regular) (splittable : shape.isSplittable) :
    Tells lost all 0 flowing [.parent shape origin ns] where
  tasks := by
    rw [Markdown.tasksOf_singleton,
      Markdown.tasks_of_not_item (Markdown.not_item_of_isSplittable splittable), tells.tasks]
  bare := Markdown.itemsOf_of_not_item (Markdown.not_item_of_isSplittable splittable)
  flowing := by rw [Markdown.flatItems_cover splittable regular, tells.flowing]

theorem Tells.closed (tells : Tells lost all bare flowing ns) (whole : ¬ shape.isSplittable)
    (plain : shape.kind ≠ .listItem) (kept : tasksOf ms = tasksOf ns) :
    Tells lost all 0 0 [.parent shape origin ms] where
  tasks := by rw [Markdown.tasksOf_singleton, Markdown.tasks_of_not_item plain, kept, tells.tasks]
  bare := Markdown.itemsOf_of_not_item plain
  flowing := by rw [Markdown.flatItems_whole whole, Markdown.itemsOf_of_not_item plain]

theorem Tells.item (tells : Tells lost all bare flowing ns) (e : Element) (spread : Bool)
    (checked : Option Bool) (kept : tasksOf ms = tasksOf ns) :
    Tells lost ((Item.task? (e.position, checked)).toList + all)
      {(e.position, checked)} {(e.position, checked)}
      [placed e (.listItem spread checked) ms] where
  tasks := by
    rw [Markdown.tasksOf_singleton, placed, Markdown.tasks_parent, kept, add_assoc, tells.tasks]
    cases checked <;> rfl
  bare := rfl
  flowing := Markdown.flatItems_whole Bool.false_ne_true

theorem Tells.dropped (tells : Tells lost all bare flowing ns) (none : tasksOf ns = 0) :
    Tells lost all 0 0 [] :=
  ⟨by rw [← tells.tasks, none, counts_tasksOf.nil], rfl, counts_flatItems.nil⟩

end Tells

section Roles

variable {e : Element} {inTable : Bool} {role : Role} (same : e.role false inTable = role)
  {ns ms : List Node}

include same

theorem told_atomic (atomic : role.isAtomic) (tells : Tells 0 0 0 0 ns) :
    e.toNode.ToldBy inTable ns := by
  have other : role ∉ [Role.through, .cover, .flow] := by
    cases role with
    | atom | solid => decide
    | _ => cases atomic
  rw [Html.Node.ToldBy, tally_atomic same atomic, tally_atomic same atomic,
    openItems_other same other, openItems_other same other]
  exact tells

theorem told_plain (converted : role.isAtomic = false) (plain : role.isListOfTerms = false)
    (apart : Text.lower e.tag ∉ countingTags)
    (tells : Tells (tallyIn Element.unwrappedTasks false (role.isTable || inTable) e.children)
      (tallyIn (fun _ e => e.ownTasks) false (role.isTable || inTable) e.children)
      (e.toNode.openItems inTable false) (e.toNode.openItems inTable true) ns) :
    e.toNode.ToldBy inTable ns := by
  have unmarked : e.ownTasks = 0 := sparse_ownTasks inTable e apart
  rw [Html.Node.ToldBy, tally_converted same converted, tally_converted same converted, plain,
    sparse_unwrappedTasks _ _ apart, unmarked, zero_add, zero_add]
  exact tells

theorem apart_of_role (other : role ∉ [Role.atom, .flow, .list true]) :
    Text.lower e.tag ∉ countingTags := by
  have roles : ∀ tag ∈ countingTags, roleOf tag ∈ [Role.atom, .flow, .list true] := by
    decide +kernel
  intro member
  subst same
  apply other
  rw [Element.role, Bool.false_and, if_neg Bool.false_ne_true]
  split
  · exact List.mem_cons_self
  · exact roles _ member

end Roles

section Handlers

variable {bound : Nat} (told : ∀ n : Html.Node, n.size < bound → ∀ parent,
  n.Told (Walk.nodes standard.convert n parent))

include told

theorem told_all {ns : List Html.Node} (small : ∀ n ∈ ns, n.size < bound)
    (parent : Option Element) (s : State) :
    AllToldBy s.inTable ns ((Walk.all standard.convert parent ns).run s).1 := by
  induction ns generalizing s with
  | nil => exact tells_nothing counts_tasksOf.nil ⟨counts_itemsOf.nil, counts_flatItems.nil⟩
  | cons n ns ih =>
      obtain ⟨here, rest⟩ := List.forall_mem_cons.mp small
      let after := ((Walk.nodes standard.convert n parent).run s).2
      have same : after.inTable = s.inTable := (settles_convert n parent).sound s |>.1
      have more := ih rest after
      rw [same] at more
      exact (told n here parent s).append more

variable {e : Element} (small : e.toNode.size ≤ bound)

include small

theorem told_children (s : State) :
    AllToldBy s.inTable e.children ((Walk.children standard.convert e).run s).1 := by
  refine told_all told (fun n member => ?_) (some e) s
  have less : n.size < e.toNode.size := Html.size_lt_of_mem_children member
  exact Nat.lt_of_lt_of_le less small

variable (s : State)

theorem told_content {role : Role} (same : e.role false s.inTable = role)
    (converted : role.isAtomic = false) (table : role.isTable = false)
    (plain : role.isListOfTerms = false) (apart : Text.lower e.tag ∉ countingTags)
    {f : State → List Node → List Node}
    (made : ∀ s' lost all ns, Tells lost all (openItemsIn s.inTable false e.children)
      (openItemsIn s.inTable true e.children) ns → (∀ n ∈ ns, n.Throughout Node.Regular) →
        Tells lost all (e.toNode.openItems s.inTable false) (e.toNode.openItems s.inTable true)
          (f s' ns)) :
    e.toNode.ToldBy s.inTable (((Walk.children standard.convert e).after f).run s).1 := by
  have children := told_children told small s
  have regular := (sound_all settles_convert e.children (some e)).regular s
  refine told_plain same converted plain apart ?_
  rw [table, Bool.false_or]
  exact made _ _ _ _ children regular

theorem told_through (same : e.role false s.inTable = .through)
    {f : State → List Node → List Node}
    (made : ∀ s lost all bare flowing ns, Tells lost all bare flowing ns →
      (∀ n ∈ ns, n.Throughout Node.Regular) → Tells lost all bare flowing (f s ns)) :
    e.toNode.ToldBy s.inTable (((Walk.children standard.convert e).after f).run s).1 := by
  refine told_content told small s same rfl rfl rfl (apart_of_role same (by decide)) ?_
  intro s' lost all ns tells regular
  rw [openItems_through same, openItems_through same]
  exact made _ _ _ _ _ _ tells regular

theorem told_cover (same : e.role false s.inTable = .cover) {shape : State → Shape}
    (splittable : ∀ s, (shape s).isSplittable) :
    e.toNode.ToldBy s.inTable
      (((Walk.children standard.convert e).after fun s ns => [placed e (shape s) ns]).run s).1 := by
  refine told_content told small s same rfl rfl rfl (apart_of_role same (by decide)) ?_
  intro s' lost all ns tells regular
  rw [openItems_cover same, openItems_cover same]
  exact tells.cover regular (splittable _)

theorem told_closed {role : Role} (same : e.role false s.inTable = role)
    (closed : role ∈ [Role.mark, .line, .cell, .row, .list false])
    {f : State → List Node → List Node}
    (made : ∀ s lost all bare flowing ns, Tells lost all bare flowing ns →
      Tells lost all 0 0 (f s ns)) :
    e.toNode.ToldBy s.inTable (((Walk.children standard.convert e).after f).run s).1 := by
  have roles : ∀ role ∈ [Role.mark, .line, .cell, .row, .list false],
      role ∉ [Role.through, .cover, .flow] ∧ role ∉ [Role.atom, .flow, .list true] ∧
        role.isAtomic = false ∧ role.isTable = false ∧ role.isListOfTerms = false := by decide
  obtain ⟨other, apart, converted, table, plain⟩ := roles role closed
  refine told_content told small s same converted table plain (apart_of_role same apart) ?_
  intro s' lost all ns tells regular
  rw [openItems_other same other, openItems_other same other]
  exact made _ _ _ _ _ _ tells

theorem told_flow (same : e.role false s.inTable = .flow)
    (apart : Text.lower e.tag ∉ countingTags)
    (loose : Text.lower e.tag ≠ "blockquote") :
    e.toNode.ToldBy s.inTable
      (((Walk.children standard.convert e).after fun _ ns => wrap ns).run s).1 := by
  refine told_content told small s same rfl rfl rfl apart ?_
  intro s' lost all ns tells regular
  have plain : e.isEntry = false := by
    simp only [countingTags, List.mem_cons, not_or] at apart
    simp [Element.isEntry, apart]
  have items : ∀ flowing, e.toNode.openItems s.inTable flowing =
      openItemsIn s.inTable true e.children := by
    intro flowing
    rw [openItems_flow same, plain, if_neg Bool.false_ne_true, if_neg (by simpa using loose)]
  rw [items, items]
  exact tells.wrap regular

theorem told_blockquote (same : e.role false s.inTable = .flow)
    (named : Text.lower e.tag = "blockquote") :
    e.toNode.ToldBy s.inTable
      (((Walk.children standard.convert e).after fun _ ns =>
        [placed e .blockquote (wrap ns)]).run s).1 := by
  refine told_content told small s same rfl rfl rfl (by rw [named]; decide) ?_
  intro s' lost all ns tells regular
  have plain : e.isEntry = false := by
    rw [Element.isEntry, named]
    decide
  have items : ∀ flowing, e.toNode.openItems s.inTable flowing = 0 := by
    intro flowing
    rw [openItems_flow same, plain, if_neg Bool.false_ne_true, if_pos (by simpa using named)]
  rw [items, items]
  exact tells.closed Bool.false_ne_true (by decide) (Markdown.tasksOf_wrap ns)

theorem told_item (same : e.role false s.inTable = .flow)
    (member : Text.lower e.tag ∈ ["dd", "dt", "li"]) (spread : Bool) :
    e.toNode.ToldBy s.inTable
      (((Walk.children standard.convert { e with children := (taskOf e).2 }).after fun _ ns =>
        [placed e (.listItem spread (taskOf e).1) (wrap ns)]).run s).1 := by
  have entry : e.isEntry := by simpa [Element.isEntry] using member
  have notTerms : e.unwrappedTasks s.inTable = 0 := by
    refine if_neg fun list => ?_
    rw [eq_of_beq list] at member
    exact absurd member (by decide)
  have items : ∀ flowing, e.toNode.openItems s.inTable flowing = {e.item} := by
    intro flowing
    rw [openItems_flow same, if_pos entry]
  have less : ∀ n ∈ (taskOf e).2, n.size < bound := fun n member =>
    Nat.lt_of_lt_of_le (Handler.size_of_mem_taskOf member) small
  have content := told_all told less (some { e with children := (taskOf e).2 }) s
  rw [AllToldBy, tallyIn_taskOf sparse_unwrappedTasks, tallyIn_taskOf sparse_ownTasks] at content
  rw [Html.Node.ToldBy, tally_converted same rfl, tally_converted same rfl, notTerms, zero_add,
    Element.ownTasks, if_pos entry, items, items]
  exact content.item e spread _ (Markdown.tasksOf_wrap _)

theorem told_media (parent : Option Element) (same : e.role false s.inTable = .through) :
    e.toNode.ToldBy s.inTable
      ((Output.nodes <$> Handler.media standard.convert e parent).run s).1 := by
  rw [Handler.nodes_media]
  refine told_through told small s same fun s lost all bare flowing ns tells regular => ?_
  split
  · exact tells
  next link =>
    rw [Bool.or_eq_true, not_or] at link
    have inlined := (Markdown.not_wrapNeeded_iff ns).mp link.2
    have shown := Handler.forall_shownMedia e s (fun _ _ => inline_leaf e rfl) inlined
    have kept : ∀ n ∈ Handler.shownMedia s e ns, n.Throughout Node.Regular :=
      Handler.forall_shownMedia e s (fun _ _ => Node.throughout_leaf.mpr rfl) regular
    refine tells.inline regular inlined (tells_inline ?_ ?_)
    · exact List.forall_mem_singleton.mpr (Markdown.throughout_regular rfl rfl kept)
    · exact List.forall_mem_singleton.mpr (inline_placed e rfl shown)

theorem told_table (shown : ¬ e.isIgnored) (parent : Option Element)
    (named : Text.lower e.tag = "table") :
    e.toNode.ToldBy s.inTable
      ((Output.nodes <$> Handler.table standard.convert e parent).run s).1 := by
  have role := role_of_table shown named s.inTable
  rw [Handler.run_table]
  by_cases inside : s.inTable
  · rw [if_pos inside] at role ⊢
    exact told_atomic role rfl (tells_leaf _ _)
  · rw [if_neg inside] at role ⊢
    let within : State := { s with inTable := true, spanFrames := [] :: s.spanFrames }
    have content := told_children told small within
    refine told_plain role rfl rfl (apart_of_role role (by decide)) ?_
    rw [openItems_other role (by decide), openItems_other role (by decide)]
    let l := Handler.layout e
    have kinds := @Markdown.kind_of_mem_coerce Markdown.emptyRow
    refine content.closed Bool.false_ne_true Markdown.Kind.noConfusion ?_
    exact (Markdown.tasksOf_rectangle l.headless l.align _ kinds).trans
      (Markdown.tasksOf_coerce rfl _)

omit small

theorem told_groupContent {ns : List Html.Node} (small : ∀ n ∈ ns, n.size < bound) :
    ((groupContent standard.convert e ns).run s).2.inTable = s.inTable ∧
      tasksOf ((groupContent standard.convert e ns).run s).1 +
          (loneTasks (openItemsIn s.inTable false ns) +
            tallyIn Element.unwrappedTasks false s.inTable ns) =
        tallyIn (fun _ e => e.ownTasks) false s.inTable ns := by
  let nodes := ((Walk.all standard.convert (some e) ns).run s).1
  have run : ((groupContent standard.convert e ns).run s).1 =
      Handler.unwrapSingle (Markdown.coerce Handler.emptyItem nodes) := rfl
  have content := told_all told small (some e) s
  refine ⟨(sound_all settles_convert ns (some e) s).1, ?_⟩
  rw [← content.tasks, ← content.bare, ← add_assoc, run, Markdown.tasksOf_side]

theorem told_groupItems {groups : List Handler.Group}
    (small : ∀ g ∈ groups, ∀ n ∈ g.nodes, n.size < bound) :
    tasksOf ((groupItems standard.convert e groups).run s).1 +
        ((groups.map (·.unwrappedTasks s.inTable)).sum +
          (groups.map (·.tally Element.unwrappedTasks s.inTable)).sum) =
      (groups.map (·.tally (fun _ e => e.ownTasks) s.inTable)).sum := by
  induction groups generalizing s with
  | nil => rfl
  | cons group groups ih =>
      obtain ⟨here, rest⟩ := List.forall_mem_cons.mp small
      let between := ((groupContent standard.convert e group.terms).run s).2
      let after := ((groupContent standard.convert e group.definitions).run between).2
      obtain ⟨first, terms⟩ := told_groupContent told (e := e) s fun n member =>
        here n (List.mem_append_left _ member)
      obtain ⟨second, definitions⟩ := told_groupContent told (e := e) between fun n member =>
        here n (List.mem_append_right _ member)
      have more := ih after rest
      have back : between.inTable = s.inTable := first
      have same : after.inTable = s.inTable := second.trans first
      rw [back] at definitions
      rw [same] at more
      have nodes : tasksOf ((groupItems standard.convert e (group :: groups)).run s).1 =
          tasksOf ((groupContent standard.convert e group.terms).run s).1 +
            tasksOf ((groupContent standard.convert e group.definitions).run between).1 +
            tasksOf ((groupItems standard.convert e groups).run after).1 := by
        refine (counts_tasksOf.append _ _).trans ?_
        rw [Markdown.tasksOf_groupItem, counts_tasksOf.append]
        rfl
      simp only [List.map_cons, List.sum_cons]
      rw [nodes, Handler.Group.tally, Handler.Group.tally, Handler.Group.unwrappedTasks,
        ← terms, ← definitions, ← more]
      abel

theorem told_definitionList (small : e.toNode.size ≤ bound) (parent : Option Element)
    (same : e.role false s.inTable = .list true) (named : Text.lower e.tag = "dl") :
    e.toNode.ToldBy s.inTable
      ((Output.nodes <$> Handler.definitionList standard.convert e parent).run s).1 := by
  let groups := groupFrom {} false (unwrapDivs e.children)
  have less : ∀ g ∈ groups, ∀ n ∈ g.nodes, n.size < bound := by
    intro g found n member
    rcases Handler.mem_of_mem_groupFrom found member with absent | inside
    · exact absurd absent List.not_mem_nil
    · have smaller : n.size ≤ Html.Node.sizeAll e.children :=
        Handler.size_of_mem_unwrapDivs inside
      exact Nat.lt_of_lt_of_le (Nat.lt_succ_of_le smaller) small
  have grouped : ∀ count, Sparse count → (groups.map (·.tally count s.inTable)).sum =
      tallyIn count true s.inTable e.children := by
    intro count sparse
    rw [tallyIn_groupFrom, tallyIn_unwrapDivs sparse]
    exact zero_add _
  have unwrapped : e.unwrappedTasks s.inTable =
      (groups.map (·.unwrappedTasks s.inTable)).sum := if_pos (by simpa using named)
  have unmarked : e.ownTasks = 0 := by
    rw [Element.ownTasks, Element.isEntry, named]
    exact if_neg (by decide)
  have items := told_groupItems told (e := e) s less
  -- The groups are made of the children, so what is counted in them is counted in the list.
  rw [grouped _ sparse_unwrappedTasks, grouped _ sparse_ownTasks, ← unwrapped] at items
  rw [Html.Node.ToldBy, tally_converted same rfl, tally_converted same rfl, unmarked, zero_add,
    openItems_other same (by decide), openItems_other same (by decide),
    Handler.nodes_definitionList, Conversion.run_after]
  dsimp only
  split
  next none =>
    have nothing := List.isEmpty_iff.mp none
    rw [nothing] at items
    exact ⟨items, counts_itemsOf.nil, counts_flatItems.nil⟩
  next =>
    refine ⟨?_, rfl, Markdown.flatItems_whole Bool.false_ne_true⟩
    rw [Markdown.tasksOf_singleton, placed, Markdown.tasks_of_not_item]
    · exact items
    · exact Markdown.Kind.noConfusion

theorem told_registered (small : e.toNode.size ≤ bound) {key : String} {handler : TagHandler}
    (registered : Registered key handler) (named : Text.lower e.tag = key) (shown : ¬ e.isIgnored)
    (parent : Option Element) :
    e.toNode.Told (Output.nodes <$> handler standard.convert e parent) := by
  intro s
  have known : ∀ (role : Role) {tags : List String}, key ∈ tags → role ≠ .table →
      (∀ tag ∈ tags, roleOf tag = role) → e.role false s.inTable = role :=
    fun role tags member apart same =>
      role_of_shown shown apart (named ▸ same key member) s.inTable
  have regular : ∀ m ∈ ((Output.nodes <$> handler standard.convert e parent).run s).1,
      m.Throughout Node.Regular := by
    have sound := (@sound_rules standard.convert settles_convert).handled e parent handler shown
    exact (sound (named ▸ registered)).regular s
  have leaf : ∀ (role : Role) {tags : List String} {content : Leaf}, key ∈ tags →
      role.isAtomic → (∀ tag ∈ tags, roleOf tag = role) →
        e.toNode.ToldBy s.inTable [placedLeaf e content] := by
    intro role tags content member atomic same
    have apart : role ≠ .table := by
      rintro rfl
      cases atomic
    exact told_atomic (known role member apart same) atomic (tells_leaf _ _)
  cases registered with
  | ignore member =>
      have role := known .atom member (by decide) roleOf_ignored
      exact told_atomic role rfl (tells_nothing rfl ⟨rfl, counts_flatItems.nil⟩)
  | passThrough member =>
      have role := known .through member (by decide) roleOf_passThrough
      exact told_through told small s role (f := fun _ ns => ns) fun _ _ _ _ _ _ tells _ => tells
  | flow member =>
      have role := known .flow member (by decide) roleOf_flow
      have apart : ∀ tag ∈ Handlers.flowTags, tag ∉ countingTags ∧ tag ≠ "blockquote" := by
        decide +kernel
      rw [Handler.nodes_flow]
      exact told_flow told small s role (named ▸ (apart key member).1)
        (named ▸ (apart key member).2)
  | link =>
      have role := known .cover (List.mem_singleton_self "a") (by decide) (by decide)
      rw [Handler.nodes_link]
      exact told_cover told small s role fun _ => rfl
  | media member =>
      exact told_media told small s parent (known .through member (by decide) (by decide))
  | emphasis member =>
      have role := known .mark member (by decide) (by decide)
      rw [Handler.emphasis, Handler.nodes_marked]
      exact told_closed told small s role (by decide) fun _ _ _ _ _ _ tells =>
        tells.closed Bool.false_ne_true Markdown.Kind.noConfusion rfl
  | strong member =>
      have role := known .mark member (by decide) (by decide)
      rw [Handler.strong, Handler.nodes_marked]
      exact told_closed told small s role (by decide) fun _ _ _ _ _ _ tells =>
        tells.closed Bool.false_ne_true Markdown.Kind.noConfusion rfl
  | delete member =>
      have role := known .cover member (by decide) (by decide)
      rw [Handler.delete, Handler.nodes_marked]
      exact told_cover told small s role fun _ => rfl
  | base =>
      have role := known .atom (List.mem_singleton_self "base") (by decide) (by decide +kernel)
      exact told_atomic role rfl (tells_nothing rfl ⟨rfl, counts_flatItems.nil⟩)
  | blockquote =>
      have role := known .flow (List.mem_singleton_self "blockquote") (by decide)
        (by decide +kernel)
      rw [Handler.nodes_blockquote]
      exact told_blockquote told small s role named
  | lineBreak => exact leaf .atom (List.mem_singleton_self "br") rfl (by decide +kernel)
  | wordBreak => exact leaf .atom (List.mem_singleton_self "wbr") rfl (by decide +kernel)
  | inlineCode member => exact leaf .atom member rfl (by decide +kernel)
  | listItem member =>
      have role := known .flow member (by decide) (by decide +kernel)
      rw [Handler.nodes_listItem]
      exact told_item told small s role (named ▸ member) _
  | list member =>
      have role := known (.list false) member (by decide) (by decide)
      rw [Handler.nodes_list]
      exact told_closed told small s role (by decide) fun _ _ _ _ _ ns tells =>
        tells.closed Bool.false_ne_true Markdown.Kind.noConfusion (Markdown.tasksOf_coerce rfl ns)
  | definitionList =>
      exact told_definitionList told s small parent
        (known (.list true) (List.mem_singleton_self "dl") (by decide) (by decide)) named
  | heading member =>
      have role := known .line member (by decide) (by decide)
      rw [Handler.nodes_heading]
      exact told_closed told small s role (by decide) fun _ _ _ _ _ ns tells =>
        tells.closed Bool.false_ne_true Markdown.Kind.noConfusion
          (counts_tasksOf.dropSurroundingBreaks ns)
  | thematicBreak => exact leaf .solid (List.mem_singleton_self "hr") rfl (by decide +kernel)
  | iframe =>
      have role := known .atom (List.mem_singleton_self "iframe") (by decide) (by decide +kernel)
      refine told_atomic role rfl (tells_inline regular ?_)
      rw [Handler.nodes_iframe, Conversion.run_reads]
      dsimp only
      split
      · exact List.forall_mem_singleton.mpr (inline_textLink e _ _)
      · exact List.forall_mem_nil _
  | image member => exact leaf .atom member rfl (by decide +kernel)
  | input =>
      have role := known .atom (List.mem_singleton_self "input") (by decide) (by decide +kernel)
      exact told_atomic role rfl (tells_inline regular
        (Handler.forall_inputOutput e s (fun _ => inline_leaf e) inline_text (inline_textLink e)))
  | select =>
      have role := known .atom (List.mem_singleton_self "select") (by decide) (by decide +kernel)
      refine told_atomic role rfl (tells_inline regular ?_)
      rw [Handler.nodes_select]
      split
      · exact List.forall_mem_nil _
      · exact List.forall_mem_singleton.mpr (inline_leaf e rfl)
  | textarea => exact leaf .atom (List.mem_singleton_self "textarea") rfl (by decide +kernel)
  | code member => exact leaf .solid member rfl (by decide +kernel)
  | paragraph member =>
      have role := known .line member (by decide) (by decide)
      rw [Handler.nodes_paragraph]
      refine told_closed told small s role (by decide) fun _ _ _ _ _ ns tells => ?_
      have kept := counts_tasksOf.dropSurroundingBreaks ns
      split
      next none =>
        rw [List.isEmpty_iff.mp none] at kept
        exact tells.dropped kept.symm
      next => exact tells.closed Bool.false_ne_true Markdown.Kind.noConfusion kept
  | quote =>
      have role := known .through (List.mem_singleton_self "q") (by decide) (by decide +kernel)
      rw [Handler.nodes_quote]
      exact told_through told small { s with quoteDepth := s.quoteDepth + 1 } role
        fun s _ _ _ _ ns tells _ => tells.quoteWith (s.options.quotePair (s.quoteDepth - 1))
  | table => exact told_table told small s shown parent named
  | tableRow =>
      have role := known .row (List.mem_singleton_self "tr") (by decide) (by decide)
      rw [Handler.nodes_tableRow, Conversion.run_modify]
      -- The role is that in the state in which the row has begun: the same tables are around.
      rw [← State.inTable_startSpanRow s] at role ⊢
      exact told_closed told small s.startSpanRow role (by decide) fun _ _ _ _ _ ns tells =>
        tells.closed Bool.false_ne_true Markdown.Kind.noConfusion (Markdown.tasksOf_coerce rfl ns)
  | tableCell member =>
      have role := known .cell member (by decide) (by decide)
      rw [Handler.nodes_tableCell, Conversion.run_modify]
      rw [← s.inTable_recordSpan (Html.CellSpan.ofElement e)] at role ⊢
      exact told_closed told small _ role (by decide) fun _ _ _ _ _ ns tells =>
        tells.closed Bool.false_ne_true Markdown.Kind.noConfusion rfl

theorem told_rules :
    Handlers.StepRules standard.convert fun n act => n.size ≤ bound → n.Told act where
  ignored e marked _ s := by
    have role : e.role false s.inTable = .atom := by
      rw [Element.role, Bool.false_and, if_neg Bool.false_ne_true, marked]
      rfl
    exact told_atomic role rfl (tells_nothing rfl ⟨rfl, counts_flatItems.nil⟩)
  handled e parent handler shown registered small :=
    told_registered told small registered rfl shown parent
  unhandled e shown unknown small s := by
    have role : e.role false s.inTable = .through :=
      role_of_shown shown (by decide) (roleOf_unknown unknown) s.inTable
    exact told_through told small s role (f := fun _ ns => ns) fun _ _ _ _ _ _ tells _ => tells
  root children position parent small s := by
    have less : ∀ n ∈ children, n.size < bound := fun n member =>
      Nat.lt_of_lt_of_le (Html.size_lt_of_mem_children (n := .root children position) member) small
    have content := told_all told less none s
    rw [Handler.nodes_root, Conversion.run_after]
    refine content.closed Bool.false_ne_true Markdown.Kind.noConfusion ?_
    split
    · exact Markdown.tasksOf_wrap _
    · rfl
  text _ _ _ _ := tells_leaf _ _
  comment _ _ _ _ := tells_leaf _ _
  doctype _ _ _ := tells_nothing rfl ⟨rfl, counts_flatItems.nil⟩

end Handlers

theorem told_convert (n : Html.Node) (parent : Option Element) :
    n.Told (Walk.nodes standard.convert n parent) :=
  Handlers.convert_sizeInduction (fun _ told => told_rules told) n parent

theorem tasks_walkTree [UrlReader] (options : Options) (tree : Html.Node) :
    (walkTree options standard tree).tasks + tree.unwrappedTasks = tree.tasks := by
  have told := (told_convert tree none (.start options tree)).tasks
  have nodes : tasksOf ((Walk.nodes standard.convert tree none).run (.start options tree)).1 =
      (walkTree options standard tree).tasks := by
    rcases Output.toTree_cases ((standard.convert tree none).run (.start options tree)).1 with
      single | several
    · exact (congrArg tasksOf single).trans (Markdown.tasksOf_singleton _)
    · refine ((congrArg Node.tasks several).trans (Markdown.tasks_of_not_item ?_)).symm
      exact Markdown.Kind.noConfusion
  rwa [nodes] at told

/-- Each item with a control in front of its content comes out as one item with the same mark, and
no other item has a mark. Only the marks of items that are unwrapped, alone on their side of a
group, are lost. -/
theorem tasks_convert [UrlReader] (options : Options) (tree : Html.Node) :
    (convert options standard tree).tasks + (tree.minify options.newlines).unwrappedTasks =
      (tree.minify options.newlines).tasks := by
  rw [convert, Markdown.tasks_normalize, tasks_walkTree]

section Lone

def markedTerm : Element :=
  ⟨"dt", OrderedMap.empty, [
    .element "input" ⟨[("type", .text "checkbox"), ("checked", .flag true)], by decide⟩ [] none,
    .text "a" none], none⟩

def loneTerm : Element := ⟨"dl", OrderedMap.empty, [markedTerm.toNode], none⟩

theorem item_markedTerm : markedTerm.item = (none, some true) := by
  rw [Element.item, taskOf, markedTerm, Handler.leadingToggle, if_pos (by decide +kernel)]
  rfl

theorem tally_loneTerm (count : Bool → Element → Multiset Markdown.Task) :
    loneTerm.toNode.tally count false false = count false loneTerm + count false markedTerm := by
  have list : loneTerm.role false false = .list true := by decide +kernel
  have term : markedTerm.role true false = .flow := by decide +kernel
  have inside : tallyIn count false false markedTerm.children = 0 :=
    congrArg (· + (0 + 0))
      (tally_atomic (e := ⟨"input", _, _, _⟩) (role_of_input rfl false false) rfl)
  have below : tallyIn count true false loneTerm.children =
      markedTerm.toNode.tally count true false := add_zero _
  rw [tally_converted list rfl]
  change count false loneTerm + tallyIn count true false loneTerm.children = _
  rw [below, tally_converted term rfl]
  change count false loneTerm + (count false markedTerm +
    tallyIn count false false markedTerm.children) = _
  rw [inside, add_zero]

theorem unwrappedTasks_loneTerm : loneTerm.unwrappedTasks false = {(none, true)} := by
  have role : markedTerm.role false false = .flow := by decide +kernel
  have item : markedTerm.toNode.openItems false false = {(none, some true)} := by
    rw [openItems_flow role, if_pos (by decide +kernel), item_markedTerm]
  have groups : Handler.groupFrom {} false (Handler.unwrapDivs loneTerm.children) =
      [⟨[markedTerm.toNode], []⟩] := rfl
  have terms : openItemsIn false false [markedTerm.toNode] = {(none, some true)} :=
    (add_zero _).trans item
  rw [Element.unwrappedTasks, if_pos (by decide +kernel), groups, List.map_singleton,
    List.sum_singleton, Handler.Group.unwrappedTasks, terms]
  rfl

/-- Its mark is lost, as there is no other term beside it. -/
theorem not_marked_loneTerm :
    (loneTerm.toNode.minify false).tasks = {(none, true)} ∧
      (convert {} standard loneTerm.toNode).tasks = 0 := by
  have whole : loneTerm.toNode.minify false = loneTerm.toNode := rfl
  have marked : loneTerm.toNode.tasks = {(none, true)} := by
    have own : markedTerm.ownTasks = {(none, true)} := by
      rw [Element.ownTasks, if_pos (by decide +kernel), item_markedTerm]
      rfl
    exact (tally_loneTerm _).trans ((zero_add _).trans own)
  have unwrapped : loneTerm.toNode.unwrappedTasks = {(none, true)} := by
    rw [Html.Node.unwrappedTasks, tally_loneTerm, unwrappedTasks_loneTerm]
    rfl
  have balance := tasks_walkTree {} loneTerm.toNode
  rw [unwrapped, marked] at balance
  constructor
  · rw [whole, marked]
  · rw [convert, Markdown.tasks_normalize, show ({} : Options).newlines = false from rfl, whole]
    exact add_eq_right.mp balance

end Lone

end HtmlToMarkdown
