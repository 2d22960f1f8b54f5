import HtmlToMarkdown.Markdown.Coerce

/-!
Coercion moves nodes and changes nothing else: what holds of the containers and goes on holding as
they take in strays holds of the result, and the text stays as it is. The containers keep their
order and all but their children, and what they hold in the end is the list that was given, with
each container opened.
-/

namespace HtmlToMarkdown.Markdown

section Forall

variable {Q S : Node → Prop}

theorem forall_collect {kind : Kind} {strays ns : List Node}
    (here : ∀ n ∈ ns, n.kind = kind → Q n) (apart : ∀ n ∈ ns, n.kind ≠ kind → S n)
    (grow : ∀ n front, Q n → (∀ d ∈ front, S d) → Q (n.withChildren (front ++ n.children)))
    (held : ∀ d ∈ strays, S d) :
    (∀ r ∈ (collect kind strays ns).1, Q r) ∧ ∀ d ∈ (collect kind strays ns).2, S d := by
  induction ns generalizing strays with
  | nil => exact ⟨by simp [collect], held⟩
  | cons n ns ih =>
      have laterHere := fun m member => here m (List.mem_cons_of_mem n member)
      have laterApart := fun m member => apart m (List.mem_cons_of_mem n member)
      by_cases same : n.kind = kind
      · have holds := here n List.mem_cons_self same
        cases n with
        | parent shape origin children =>
            have rest := @ih [] laterHere laterApart (by simp)
            simp only [collect, if_pos same]
            exact ⟨List.forall_mem_cons.mpr ⟨grow _ strays holds held, rest.1⟩, rest.2⟩
        | leaf content origin =>
            have rest := ih laterHere laterApart held
            simp only [collect, if_pos same]
            exact ⟨List.forall_mem_cons.mpr ⟨holds, rest.1⟩, rest.2⟩
      · simp only [collect, if_neg same]
        apply ih laterHere laterApart
        intro d member
        rcases List.mem_append.mp member with old | new
        · exact held d old
        · rw [List.mem_singleton.mp new]
          exact apart n List.mem_cons_self same

theorem forall_appendToLast {strays ns : List Node} (holds : ∀ n ∈ ns, Q n)
    (grow : ∀ n, Q n → Q (n.withChildren (n.children ++ strays))) :
    ∀ r ∈ appendToLast strays ns, Q r := by
  fun_induction appendToLast strays ns with
  | case1 => simp
  | case2 n => exact List.forall_mem_singleton.mpr (grow n (holds n (by simp)))
  | case3 n ns =>
      rename_i ih
      rw [List.forall_mem_cons]
      constructor
      · exact holds n List.mem_cons_self
      · apply ih
        intro m member
        exact holds m (List.mem_cons_of_mem n member)

/-- What holds of the containers, and of each with strays put to its front or end, holds of all
that coercion gives. -/
theorem forall_coerce {fresh : Node} {ns : List Node} (isFresh : Q fresh)
    (here : ∀ n ∈ ns, n.kind = fresh.kind → Q n) (apart : ∀ n ∈ ns, n.kind ≠ fresh.kind → S n)
    (front : ∀ n ds, Q n → (∀ d ∈ ds, S d) → Q (n.withChildren (ds ++ n.children)))
    (back : ∀ n ds, Q n → (∀ d ∈ ds, S d) → Q (n.withChildren (n.children ++ ds))) :
    ∀ r ∈ coerce fresh ns, Q r := by
  have collected := @forall_collect Q S fresh.kind [] ns here apart front (by simp)
  simp only [coerce]
  split
  · exact collected.1
  · apply forall_appendToLast
    · split
      · exact List.forall_mem_singleton.mpr isFresh
      · exact collected.1
    · intro n holds
      exact back n _ holds collected.2

end Forall

theorem Leaf.kind_ne (content : Leaf) (shape : Shape) : content.kind ≠ shape.kind := by
  cases content <;> cases shape <;> simp [kind, Shape.kind]

theorem kind_withChildren (n : Node) (children : List Node) :
    (n.withChildren children).kind = n.kind := by
  cases n <;> rfl

theorem kind_of_mem_collect {kind : Kind} {strays ns : List Node} :
    ∀ r ∈ (collect kind strays ns).1, r.kind = kind := by
  apply (forall_collect (Q := fun n => n.kind = kind) (S := fun _ => True) _ _ _ _).1
  · intro n _ same
    exact same
  · intro _ _ _
    exact trivial
  · intro n front same _
    exact (kind_withChildren n _).trans same
  · intro _ _
    exact trivial

theorem kind_of_mem_coerce {fresh : Node} {ns : List Node} :
    ∀ r ∈ coerce fresh ns, r.kind = fresh.kind := by
  apply forall_coerce (Q := fun n => n.kind = fresh.kind) (S := fun _ => True) rfl
  · intro n _ same
    exact same
  · intro _ _ _
    exact trivial
  · intro n ds same _
    exact (kind_withChildren n _).trans same
  · intro n ds same _
    exact (kind_withChildren n _).trans same

theorem children_withChildren {n c : Node} {children : List Node}
    (member : c ∈ (n.withChildren children).children) : c ∈ children := by
  cases n with
  | parent shape origin own => exact member
  | leaf content origin => exact nomatch member

theorem forall_children_coerce {S : Node → Prop} {fresh : Node} {ns : List Node}
    (bare : fresh.children = []) (here : ∀ n ∈ ns, n.kind = fresh.kind → ∀ c ∈ n.children, S c)
    (apart : ∀ n ∈ ns, n.kind ≠ fresh.kind → S n) :
    ∀ r ∈ coerce fresh ns, ∀ c ∈ r.children, S c := by
  apply forall_coerce (Q := fun n => ∀ c ∈ n.children, S c) (S := S) _ here apart
  · intro n ds own strays c member
    exact (List.mem_append.mp (children_withChildren member)).elim (strays c) (own c)
  · intro n ds own strays c member
    exact (List.mem_append.mp (children_withChildren member)).elim (own c) (strays c)
  · simp [bare]

theorem exists_row_of_kind {n : Node} (kind : n.kind = .tableRow) :
    ∃ origin cells, n = .parent .tableRow origin cells := by
  cases n with
  | parent shape origin cells =>
      cases shape with
      | tableRow => exact ⟨origin, cells, rfl⟩
      | _ => cases kind
  | leaf content origin => cases content <;> cases kind

theorem exists_item_of_kind {n : Node} (kind : n.kind = .listItem) :
    ∃ spread checked origin children, n = .parent (.listItem spread checked) origin children := by
  cases n with
  | parent shape origin children =>
      cases shape with
      | listItem spread checked => exact ⟨spread, checked, origin, children, rfl⟩
      | _ => cases kind
  | leaf content origin => cases content <;> cases kind

theorem collect_of_kind {shape : Shape} {ns : List Node} (kinds : ∀ n ∈ ns, n.kind = shape.kind) :
    collect shape.kind [] ns = (ns, []) := by
  induction ns with
  | nil => rfl
  | cons n ns ih =>
      obtain ⟨here, rest⟩ := List.forall_mem_cons.mp kinds
      cases n with
      | leaf content origin => exact absurd here (content.kind_ne shape)
      | parent own origin children =>
          simp only [collect, if_pos here, ih rest, List.nil_append]

theorem coerce_of_kind {shape : Shape} {ns : List Node} (kinds : ∀ n ∈ ns, n.kind = shape.kind) :
    coerce (.plain shape []) ns = ns := by
  have collected : collect (Node.plain shape []).kind [] ns = (ns, []) := collect_of_kind kinds
  rw [coerce, collected]
  rfl

section Text

open Node (textContentOf)

@[simp] theorem textContentOf_append (ms ns : List Node) :
    textContentOf (ms ++ ns) = textContentOf ms ++ textContentOf ns := by
  induction ms with
  | nil => simp
  | cons m ms ih => simp [ih, String.append_assoc]

theorem textContentOf_collect {kind : Kind} (container : ∀ content : Leaf, content.kind ≠ kind)
    (strays ns : List Node) :
    textContentOf (collect kind strays ns).1 ++ textContentOf (collect kind strays ns).2 =
      textContentOf strays ++ textContentOf ns := by
  induction ns generalizing strays with
  | nil => simp [collect]
  | cons n ns ih =>
      by_cases same : n.kind = kind
      · cases n with
        | leaf content origin => exact absurd same (container content)
        | parent shape origin children =>
            have rest := ih []
            simp only [collect, if_pos same, textContentOf, Node.textContent, textContentOf_append,
              String.append_assoc, rest, String.empty_append]
      · simp only [collect, if_neg same, ih, textContentOf_append, textContentOf,
          String.append_empty, String.append_assoc]

theorem textContentOf_appendToLast {strays ns : List Node} (filled : ns ≠ [])
    (parents : ∀ n ∈ ns, ∀ content origin, n ≠ .leaf content origin) :
    textContentOf (appendToLast strays ns) = textContentOf ns ++ textContentOf strays := by
  fun_induction appendToLast strays ns with
  | case1 => contradiction
  | case2 n =>
      cases n with
      | leaf content origin => exact absurd rfl (parents _ List.mem_cons_self content origin)
      | parent shape origin children =>
          simp
  | case3 n ns more =>
      rename_i ih
      have rest := ih more fun m member => parents m (List.mem_cons_of_mem _ member)
      simp only [textContentOf, rest, String.append_assoc]

/-- Coercion moves no text past another. -/
theorem textContentOf_coerce (shape : Shape) (ns : List Node) :
    textContentOf (coerce (.plain shape []) ns) = textContentOf ns := by
  have collected := textContentOf_collect (fun content => content.kind_ne shape) [] ns
  have kinds : ∀ r ∈ (collect shape.kind [] ns).1, r.kind = shape.kind := kind_of_mem_collect
  generalize fresh : Node.plain shape [] = stand
  have kind : stand.kind = shape.kind := fresh ▸ rfl
  have empty : stand.textContent = "" := fresh ▸ rfl
  simp only [coerce, kind]
  split
  next none =>
    rw [List.isEmpty_iff.mp none] at collected
    simpa using collected
  next =>
    rw [textContentOf_appendToLast]
    · split
      next none =>
        rw [List.isEmpty_iff.mp none] at collected
        simpa [empty] using collected
      next => simpa using collected
    · split
      · exact List.cons_ne_nil _ _
      next some => simpa using some
    · intro n member content origin leaf
      subst leaf
      apply content.kind_ne shape
      split at member
      · exact (congrArg Node.kind (List.mem_singleton.mp member)).trans kind
      · exact kinds _ member

end Text

section Order

def opened (kind : Kind) (n : Node) : List Node := if n.kind = kind then n.children else [n]

theorem exists_parent_of_kind {shape : Shape} {n : Node} (kind : n.kind = shape.kind) :
    ∃ own origin children, n = .parent own origin children := by
  cases n with
  | parent own origin children => exact ⟨own, origin, children, rfl⟩
  | leaf content origin => exact absurd kind (content.kind_ne shape)

variable {shape : Shape}

theorem children_collect (strays ns : List Node) :
    (collect shape.kind strays ns).1.flatMap Node.children ++ (collect shape.kind strays ns).2 =
      strays ++ ns.flatMap (opened shape.kind) := by
  induction ns generalizing strays with
  | nil => simp [collect]
  | cons n ns ih =>
      by_cases same : n.kind = shape.kind
      · rcases exists_parent_of_kind same with ⟨own, origin, children, rfl⟩
        have here : opened shape.kind (.parent own origin children) = children := if_pos same
        calc
          _ = strays ++ children ++ ((collect shape.kind [] ns).1.flatMap Node.children ++
                (collect shape.kind [] ns).2) := by
              simp only [collect, if_pos same, List.flatMap_cons, Node.children, Node.children?,
                Option.getD_some, List.append_assoc]
          _ = strays ++ children ++ ns.flatMap (opened shape.kind) := by rw [ih, List.nil_append]
          _ = _ := by rw [List.flatMap_cons, here, List.append_assoc]
      · have here : opened shape.kind n = [n] := if_neg same
        simp only [collect, if_neg same, ih, List.flatMap_cons, here, List.append_assoc]

theorem shells_collect (strays ns : List Node) :
    (collect shape.kind strays ns).1.map Node.shell =
      (ns.filter (·.kind = shape.kind)).map Node.shell := by
  induction ns generalizing strays with
  | nil => rfl
  | cons n ns ih =>
      by_cases same : n.kind = shape.kind
      · rw [List.filter_cons_of_pos (by simpa using same)]
        rcases exists_parent_of_kind same with ⟨own, origin, children, rfl⟩
        simp only [collect, if_pos same, List.map_cons, ih]
        rfl
      · rw [List.filter_cons_of_neg (by simpa using same)]
        simp only [collect, if_neg same, ih]

theorem children_appendToLast {strays ns : List Node} (filled : ns ≠ [])
    (kinds : ∀ n ∈ ns, n.kind = shape.kind) :
    (appendToLast strays ns).flatMap Node.children = ns.flatMap Node.children ++ strays := by
  fun_induction appendToLast strays ns with
  | case1 => contradiction
  | case2 n =>
      rcases exists_parent_of_kind (kinds n List.mem_cons_self) with ⟨own, origin, children, rfl⟩
      simp
  | case3 n ns more =>
      rename_i ih
      have rest := ih more fun m member => kinds m (List.mem_cons_of_mem _ member)
      rw [List.flatMap_cons, rest, List.flatMap_cons, List.append_assoc]

theorem shells_appendToLast (strays ns : List Node) :
    (appendToLast strays ns).map Node.shell = ns.map Node.shell := by
  fun_induction appendToLast strays ns with
  | case1 => rfl
  | case2 n => cases n <;> rfl
  | case3 n ns more =>
      rename_i ih
      rw [List.map_cons, ih, List.map_cons]

theorem opened_of_apart {ns : List Node} (apart : ∀ n ∈ ns, n.kind ≠ shape.kind) :
    ns.flatMap (opened shape.kind) = ns := by
  induction ns with
  | nil => rfl
  | cons n ns ih =>
      rcases List.forall_mem_cons.mp apart with ⟨here, rest⟩
      rw [List.flatMap_cons, ih rest, opened, if_neg here, List.singleton_append]

theorem filter_kind_eq_nil {kind : Kind} {ns : List Node} :
    ns.filter (·.kind = kind) = [] ↔ ∀ n ∈ ns, n.kind ≠ kind := by
  simp [List.filter_eq_nil_iff]

theorem collect_of_apart {ns : List Node} (apart : ∀ n ∈ ns, n.kind ≠ shape.kind) :
    collect shape.kind [] ns = ([], ns) := by
  have shells := @shells_collect shape [] ns
  have children := @children_collect shape [] ns
  rw [filter_kind_eq_nil.mpr apart, List.map_nil, List.map_eq_nil_iff] at shells
  rw [shells, opened_of_apart apart] at children
  exact Prod.ext shells children

theorem exists_mem_collect {strays ns : List Node} {n : Node} (member : n ∈ ns)
    (same : n.kind = shape.kind) :
    ∃ r ∈ (collect shape.kind strays ns).1, n.children <:+ r.children := by
  induction ns generalizing strays with
  | nil => cases member
  | cons m ns ih =>
      by_cases here : m.kind = shape.kind
      · rcases exists_parent_of_kind here with ⟨own, origin, children, rfl⟩
        simp only [collect, if_pos here]
        rcases List.mem_cons.mp member with rfl | later
        · exact ⟨_, List.mem_cons_self, strays, rfl⟩
        · obtain ⟨r, found, kept⟩ := @ih [] later
          exact ⟨r, List.mem_cons_of_mem _ found, kept⟩
      · have later : n ∈ ns :=
          (List.mem_cons.mp member).resolve_left fun first => here (first ▸ same)
        simp only [collect, if_neg here]
        exact ih later

theorem exists_mem_appendToLast {strays ns : List Node} {r : Node} (member : r ∈ ns)
    (kinds : ∀ n ∈ ns, n.kind = shape.kind) :
    ∃ t ∈ appendToLast strays ns, r.children <+: t.children := by
  fun_induction appendToLast strays ns with
  | case1 => cases member
  | case2 n =>
      obtain rfl := List.mem_singleton.mp member
      rcases exists_parent_of_kind (kinds r List.mem_cons_self) with ⟨own, origin, children, rfl⟩
      exact ⟨_, List.mem_cons_self, strays, rfl⟩
  | case3 n ns more =>
      rename_i ih
      rcases List.mem_cons.mp member with rfl | later
      · exact ⟨r, List.mem_cons_self, List.prefix_rfl⟩
      · obtain ⟨t, found, kept⟩ := ih later fun m inside => kinds m (List.mem_cons_of_mem _ inside)
        exact ⟨t, List.mem_cons_of_mem _ found, kept⟩

/-- What a container holds stays together in one container. -/
theorem exists_mem_coerce {ns : List Node} {n : Node} (member : n ∈ ns)
    (same : n.kind = shape.kind) :
    ∃ r ∈ coerce (.plain shape []) ns, n.children <:+: r.children := by
  obtain ⟨r, found, suffixed⟩ := @exists_mem_collect shape [] ns n member same
  have kind : (Node.plain shape []).kind = shape.kind := rfl
  simp only [coerce, kind]
  split
  · exact ⟨r, found, suffixed.isInfix⟩
  · rw [if_neg (by simpa using List.ne_nil_of_mem found)]
    obtain ⟨t, member, prefixed⟩ := exists_mem_appendToLast found kind_of_mem_collect
    exact ⟨t, member, suffixed.isInfix.trans prefixed.isInfix⟩

/-- Coercion gives containers of one kind only. Together they hold what was given, in its order,
with the containers among it opened; and they are these containers, in their order and otherwise
unchanged, or a fresh one if only other nodes were given. -/
theorem contents_coerce (shape : Shape) (origin : Origin) (ns : List Node) :
    (∀ r ∈ coerce (.parent shape origin []) ns, r.kind = shape.kind) ∧
      (coerce (.parent shape origin []) ns).flatMap Node.children =
        ns.flatMap (opened shape.kind) ∧
      (coerce (.parent shape origin []) ns).map Node.shell =
        if ns ≠ [] ∧ ∀ n ∈ ns, n.kind ≠ shape.kind then [.parent shape origin []]
        else (ns.filter (·.kind = shape.kind)).map Node.shell := by
  refine ⟨kind_of_mem_coerce, ?_⟩
  by_cases apart : ∀ n ∈ ns, n.kind ≠ shape.kind
  · have collected : collect (Node.parent shape origin []).kind [] ns = ([], ns) :=
      collect_of_apart apart
    rw [coerce, collected, opened_of_apart apart, filter_kind_eq_nil.mpr apart]
    cases ns with
    | nil => simp
    | cons n ns =>
        constructor
        · simp [appendToLast]
        · rw [if_pos ⟨List.cons_ne_nil n ns, apart⟩]
          rfl
  · have children := @children_collect shape [] ns
    have shells := @shells_collect shape [] ns
    have filled : (collect shape.kind [] ns).1 ≠ [] := by
      intro none
      rw [none, List.map_nil, eq_comm, List.map_eq_nil_iff, filter_kind_eq_nil] at shells
      exact apart shells
    have same : (Node.parent shape origin []).kind = shape.kind := rfl
    rw [if_neg fun only => apart only.2, ← shells, ← List.nil_append (ns.flatMap _), ← children]
    simp only [coerce, same]
    split
    next none => exact ⟨by rw [List.isEmpty_iff.mp none, List.append_nil], rfl⟩
    next =>
      rw [if_neg (by simpa using filled), children_appendToLast filled kind_of_mem_collect]
      exact ⟨rfl, shells_appendToLast _ _⟩

end Order

end HtmlToMarkdown.Markdown
