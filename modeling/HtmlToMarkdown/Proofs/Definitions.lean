import HtmlToMarkdown.Converter
import HtmlToMarkdown.Proofs.Coercion
import HtmlToMarkdown.Proofs.Walk.Scope
import Mathlib.Data.List.SplitBy

namespace HtmlToMarkdown

open Handlers (standard)
open Handler (Group emptyItem groupContent groupFrom groupItem groupItems itemsSpread placed
  plainList unwrapDivs unwrapSingle)
open Html (Element)
open Markdown (Node coerce)

section Parts

variable {α : Type}

/-- What stands in a list between `before` and `after` is in one of its parts. -/
def Together (parts : List (List α)) (before inner after : List α) : Prop :=
  ∃ front left right back, parts = front ++ (left ++ inner ++ right) :: back ∧
    before = front.flatten ++ left ∧ after = right ++ back.flatten

variable {r : α → α → Bool} {parts : List (List α)} {before inner after ns : List α}

theorem together_of_isChain (filled : [] ∉ parts)
    (apart : parts.IsChain fun p q => ∃ hp hq, r (p.getLast hp) (q.head hq) = false)
    (some : inner ≠ []) (chain : inner.IsChain fun a b => r a b)
    (whole : parts.flatten = before ++ (inner ++ after)) : Together parts before inner after := by
  induction parts generalizing before with
  | nil => simp [some] at whole
  | cons p ps ih =>
      have later : ∀ early, ps.flatten = early ++ (inner ++ after) → before = p ++ early →
          Together (p :: ps) before inner after := by
        intro early rest same
        have filled : [] ∉ ps := fun member => filled (List.mem_cons_of_mem _ member)
        obtain ⟨front, left, right, back, rfl, rfl, ending⟩ := ih filled apart.tail rest
        exact ⟨p :: front, left, right, back, rfl, by simp [same], ending⟩
      rcases List.append_eq_append_iff.mp whole with ⟨early, same, rest⟩ | ⟨tail, rfl, rest⟩
      · exact later early rest same
      · rcases List.append_eq_append_iff.mp rest with ⟨right, rfl, ending⟩ | ⟨beyond, same, joint⟩
        · exact ⟨[], before, right, ps, by simp, rfl, ending⟩
        · by_cases tailNil : tail = []
          · subst tailNil
            exact later [] (by simpa [same] using joint) (by simp)
          · by_cases beyondNil : beyond = []
            · subst beyondNil
              exact ⟨[], before, [], ps, by simp [same], rfl, by simpa using joint.symm⟩
            · -- Between the two parts there is a gap, which `inner` cannot reach over.
              have reaches : r (tail.getLast tailNil) (beyond.head beyondNil) :=
                (same ▸ chain).rel_getLast_head_of_append tailNil beyondNil
              cases ps with
              | nil => simp [beyondNil] at joint
              | cons q qs =>
                  obtain ⟨pFilled, qFilled, gap⟩ := (List.isChain_cons_cons.mp apart).1
                  have begins : q.head qFilled = beyond.head beyondNil := by
                    have heads := congrArg List.head? joint
                    simpa [List.head?_append, List.head?_eq_some_head qFilled,
                      List.head?_eq_some_head beyondNil] using heads
                  rw [List.getLast_append_of_ne_nil _ tailNil, begins, reaches] at gap
                  cases gap

theorem together_splitBy_iff (some : inner ≠ []) (whole : ns = before ++ (inner ++ after)) :
    Together (ns.splitBy r) before inner after ↔ inner.IsChain fun a b => r a b := by
  constructor
  · rintro ⟨front, left, right, back, cut, -, -⟩
    have chain := List.isChain_of_mem_splitBy (r := r) (l := ns)
      (m := left ++ inner ++ right) (by simp [cut])
    exact chain.left_of_append.right_of_append
  · intro chain
    exact together_of_isChain (List.nil_notMem_splitBy r ns)
      (List.isChain_getLast_head_splitBy r ns) some chain
      ((List.flatten_splitBy r ns).trans whole)

end Parts

namespace Handler

theorem isTag_of_isTag {n : Html.Node} {tag other : String} (named : n.isTag tag)
    (apart : tag ≠ other) : n.isTag other = false := by
  cases n with
  | element own properties children position =>
      obtain rfl : own = tag := eq_of_beq named
      exact beq_false_of_ne apart
  | root | text | comment | doctype => rfl

def continues (m n : Html.Node) : Bool := !(m.isTag "dd" && n.isTag "dt")

/-- The children of a list of definitions, cut where a term follows right after a definition. -/
def definitionGroups (ns : List Html.Node) : List (List Html.Node) := ns.splitBy continues

def Group.ofNodes (ns : List Html.Node) : Group where
  terms := ns.filter (·.isTag "dt")
  definitions := ns.filter fun n => !n.isTag "dt"

theorem Group.ofNodes_append_term {ns : List Html.Node} {n : Html.Node} (term : n.isTag "dt") :
    ofNodes (ns ++ [n]) = { ofNodes ns with terms := (ofNodes ns).terms ++ [n] } := by
  simp [ofNodes, term]

theorem Group.ofNodes_append_definition {ns : List Html.Node} {n : Html.Node}
    (other : ¬ n.isTag "dt") :
    ofNodes (ns ++ [n]) = { ofNodes ns with definitions := (ofNodes ns).definitions ++ [n] } := by
  simp [ofNodes, other]

theorem isChain_append_singleton {ns : List Html.Node} {n : Html.Node}
    (chain : ns.IsChain fun m n => continues m n)
    (next : ¬ (ns.getLast?.any (·.isTag "dd") ∧ n.isTag "dt")) :
    (ns ++ [n]).IsChain fun m n => continues m n := by
  refine chain.append (List.isChain_singleton n) fun m last k first => ?_
  obtain rfl : n = k := by simpa using first
  rw [Option.mem_def.mp last] at next
  simpa [continues, or_iff_not_imp_left] using next

theorem definitionGroups_cut {seen ns : List Html.Node} {n : Html.Node}
    (chain : seen.IsChain fun m n => continues m n) (after : seen.getLast?.any (·.isTag "dd"))
    (term : n.isTag "dt") :
    definitionGroups (seen ++ n :: ns) = seen :: definitionGroups (n :: ns) := by
  have filled : seen ≠ [] := by
    rintro rfl
    cases after
  rw [definitionGroups, List.splitBy_append_cons, List.splitBy_of_isChain filled chain]
  · rfl
  · intro m last
    rw [Option.mem_def.mp last] at after
    simpa [continues, term] using after

/-- The loop over the children cuts them into their groups; `seen` are those of the group that has
been begun. -/
theorem groupFrom_eq {seen ns : List Html.Node} (chain : seen.IsChain fun m n => continues m n)
    (some : seen ++ ns ≠ []) :
    groupFrom (.ofNodes seen) (seen.getLast?.any (·.isTag "dd")) ns =
      (definitionGroups (seen ++ ns)).map Group.ofNodes := by
  induction ns generalizing seen with
  | nil =>
      rw [List.append_nil] at some ⊢
      rw [definitionGroups, List.splitBy_of_isChain some chain]
      rfl
  | cons n ns ih =>
      have onward : seen ++ n :: ns = (seen ++ [n]) ++ ns := by simp
      have last : (seen ++ [n]).getLast? = Option.some n := by simp
      have kept := @ih (seen ++ [n])
      rw [last] at kept
      rw [groupFrom]
      by_cases term : n.isTag "dt"
      · have notDefinition : (Option.some n).any (·.isTag "dd") = false :=
          isTag_of_isTag term (by decide)
        rw [if_pos term]
        by_cases after : seen.getLast?.any (·.isTag "dd")
        · have fresh := @ih [n] (List.isChain_singleton n) (List.cons_ne_nil n ns)
          have begun : Group.ofNodes [n] = { terms := [n] } := by
            simp [Group.ofNodes, term]
          rw [begun, List.getLast?_singleton, notDefinition] at fresh
          rw [if_pos after, definitionGroups_cut chain after term, List.map_cons, fresh]
          rfl
        · rw [if_neg after, ← Group.ofNodes_append_term term, onward, ← notDefinition]
          exact kept (isChain_append_singleton chain fun both => after both.1) (by simp)
      · rw [if_neg term, ← Group.ofNodes_append_definition term, onward]
        exact kept (isChain_append_singleton chain fun both => term both.2) (by simp)

end Handler

namespace Html

/-- Each definition is in one group with the nearest term before it, and two terms are in one group
unless a term follows right after a definition on the way from the one to the other. -/
structure Grouped (parts : List Node) (groups : List (List Node)) : Prop where
  whole : groups.flatten = parts
  definition : ∀ before term between definition after,
    parts = before ++ (term :: between ++ [definition] ++ after) → term.isTag "dt" →
      definition.isTag "dd" → (∀ n ∈ between, ¬ n.isTag "dt") →
        Together groups before (term :: between ++ [definition]) after
  terms : ∀ before first between second after,
    parts = before ++ (first :: between ++ [second] ++ after) → first.isTag "dt" →
      second.isTag "dt" →
        (Together groups before (first :: between ++ [second]) after ↔
          (first :: between ++ [second]).IsChain fun m n => ¬ (m.isTag "dd" ∧ n.isTag "dt"))

end Html

theorem continues_iff {m n : Html.Node} :
    Handler.continues m n ↔ ¬ (m.isTag "dd" ∧ n.isTag "dt") := by
  simp [Handler.continues, or_iff_not_imp_left]

theorem grouped_definitionGroups (parts : List Html.Node) :
    Html.Grouped parts (Handler.definitionGroups parts) where
  whole := List.flatten_splitBy _ parts
  definition := by
    intro before term between definition after whole _ named none
    refine (together_splitBy_iff (by simp) whole).mpr ?_
    -- There is no term after the first node, so no group begins there.
    have later : ∀ n ∈ between ++ [definition], ¬ n.isTag "dt" := by
      refine List.forall_mem_append.mpr ⟨none, List.forall_mem_singleton.mpr ?_⟩
      simp [Handler.isTag_of_isTag named]
    refine (List.isChain_isInfix _).imp_of_mem_tail_imp fun m n _ member _ => ?_
    exact continues_iff.mpr fun both => later n member both.2
  terms := by
    intro before first between second after whole _ _
    simp only [← continues_iff]
    exact together_splitBy_iff (by simp) whole

/-- A child of a list of definitions with the nodes that it was converted to. -/
structure Entry where
  source : Html.Node
  nodes : List Node

namespace Entry

def ConvertedIn (e : Element) (s : State) (x : Entry) : Prop :=
  ∃ t, s.Scoped t ∧ x.nodes = ((Walk.nodes standard.convert x.source (some e)).run t).1

def HasSource (x : Entry) (tags : List String) : Prop :=
  ∃ child : Element, x.source = child.toNode ∧ child.tag ∈ tags ∧ ¬ child.isIgnored

def sideOf (xs : List Entry) : List Node := unwrapSingle (coerce emptyItem (xs.flatMap Entry.nodes))

end Entry

def Houses (nodes content : List Node) : Prop :=
  content <:+: nodes ∨ ∃ list ∈ nodes, ∃ inner ∈ list.children, content <:+: inner.children

/-- The entry became an item, and what that holds has gone into the only one of the items. -/
def Entry.LandsIn (items : List Node) (x : Entry) : Prop :=
  ∃ spread checked origin content, x.nodes = [.parent (.listItem spread checked) origin content] ∧
    (content ≠ [] → ∃ item, items = [item] ∧ Houses item.children content)

structure ConvertedGroup where
  terms : List Entry
  definitions : List Entry

namespace ConvertedGroup

def group (g : ConvertedGroup) : Group := ⟨g.terms.map Entry.source, g.definitions.map Entry.source⟩

def entries (g : ConvertedGroup) : List Entry := g.terms ++ g.definitions

def item (g : ConvertedGroup) : List Node :=
  groupItem (Entry.sideOf g.terms ++ Entry.sideOf g.definitions)

end ConvertedGroup

section Walk

variable {e : Element}

theorem Entry.ConvertedIn.mono {s t : State} {x : Entry} (kept : s.Scoped t)
    (converted : x.ConvertedIn e t) : x.ConvertedIn e s := by
  obtain ⟨u, later, nodes⟩ := converted
  exact ⟨u, kept.trans later, nodes⟩

theorem entries_all (ns : List Html.Node) (s : State) :
    ∃ xs : List Entry, xs.map Entry.source = ns ∧ (∀ x ∈ xs, x.ConvertedIn e s) ∧
      ((Walk.all standard.convert (some e) ns).run s).1 = xs.flatMap Entry.nodes := by
  induction ns generalizing s with
  | nil => exact ⟨[], rfl, by simp, rfl⟩
  | cons n ns ih =>
      let here := (Walk.nodes standard.convert n (some e)).run s
      have kept : s.Scoped here.2 := scoped_nodes n (some e) s
      obtain ⟨xs, sources, converted, rest⟩ := ih here.2
      refine ⟨⟨n, here.1⟩ :: xs, by simp [sources], ?_, ?_⟩
      · exact List.forall_mem_cons.mpr
          ⟨⟨s, .refl s, rfl⟩, fun x member => (converted x member).mono kept⟩
      · rw [Walk.all_cons, Conversion.run_append, List.flatMap_cons, ← rest]

theorem groups_groupItems (groups : List Group) (s : State) :
    ∃ gs : List ConvertedGroup, gs.map ConvertedGroup.group = groups ∧
      (∀ g ∈ gs, ∀ x ∈ g.entries, x.ConvertedIn e s) ∧
      ((groupItems standard.convert e groups).run s).1 = gs.flatMap ConvertedGroup.item := by
  induction groups generalizing s with
  | nil => exact ⟨[], rfl, by simp, rfl⟩
  | cons group groups ih =>
      let between := ((groupContent standard.convert e group.terms).run s).2
      let after := ((groupContent standard.convert e group.definitions).run between).2
      have all : ∀ (ns : List Html.Node) (s : State),
          s.Scoped ((groupContent standard.convert e ns).run s).2 := fun ns s =>
        scoped_rules.all (fun n _ => scoped_nodes n (some e)) s
      obtain ⟨terms, termSources, termsIn, termNodes⟩ := entries_all (e := e) group.terms s
      obtain ⟨others, otherSources, othersIn, otherNodes⟩ :=
        entries_all (e := e) group.definitions between
      obtain ⟨gs, sources, converted, rest⟩ := ih after
      have first : s.Scoped between := all group.terms s
      have both : s.Scoped after := first.trans (all group.definitions between)
      refine ⟨⟨terms, others⟩ :: gs, ?_, ?_, ?_⟩
      · rw [List.map_cons, sources, ConvertedGroup.group, termSources, otherSources]
      · refine List.forall_mem_cons.mpr ⟨List.forall_mem_append.mpr ⟨termsIn, ?_⟩, ?_⟩
        · exact fun x member => (othersIn x member).mono first
        · exact fun g found x member => (converted g found x member).mono both
      · have sides : ((groupItems standard.convert e (group :: groups)).run s).1 =
            groupItem (((groupContent standard.convert e group.terms).run s).1 ++
                ((groupContent standard.convert e group.definitions).run between).1) ++
              ((groupItems standard.convert e groups).run after).1 := rfl
        have side : ∀ {ns : List Html.Node} {s : State} {xs : List Entry},
            ((Walk.all standard.convert (some e) ns).run s).1 = xs.flatMap Entry.nodes →
              ((groupContent standard.convert e ns).run s).1 = Entry.sideOf xs :=
          fun same => congrArg (fun ns => unwrapSingle (coerce emptyItem ns)) same
        rw [sides, side termNodes, side otherNodes, rest]
        rfl

/-- No children make one empty group, which has no item. -/
theorem groupItems_definitionGroups (walk : Walk) (e : Element) (ns : List Html.Node) :
    groupItems walk e (groupFrom {} false ns) =
      groupItems walk e ((Handler.definitionGroups ns).map Group.ofNodes) := by
  by_cases none : ns = []
  · rw [none]
    rfl
  · have groups := @Handler.groupFrom_eq [] ns .nil (by simpa using none)
    exact congrArg (groupItems walk e) groups

theorem Entry.ConvertedIn.item {s : State} {x : Entry} (converted : x.ConvertedIn e s)
    (source : x.HasSource ["dd", "dt"]) :
    ∃ spread checked origin content,
      x.nodes = [.parent (.listItem spread checked) origin content] := by
  obtain ⟨t, -, nodes⟩ := converted
  obtain ⟨child, same, member, shown⟩ := source
  have registered : Handlers.Registered child.tag Handler.listItem := by
    refine .listItem ?_
    simp only [List.mem_cons, List.not_mem_nil, or_false] at member ⊢
    exact member.imp_right .inl
  rw [same, nodes_convert shown registered, Handler.nodes_listItem] at nodes
  exact ⟨_, _, _, _, nodes⟩

end Walk

section Items

theorem houses_unwrapSingle {items : List Node} {r : Node} (member : r ∈ items) :
    Houses (unwrapSingle items) r.children := by
  match items, member with
  | [item], member =>
      rw [List.mem_singleton.mp member]
      exact .inl List.infix_rfl
  | first :: second :: items, member =>
      exact .inr ⟨_, List.mem_cons_self, r, member, List.infix_rfl⟩

theorem Houses.of_part {nodes content part : List Node} (housed : Houses nodes content)
    (inside : part <:+: content) : Houses nodes part := by
  rcases housed with here | ⟨list, found, inner, member, here⟩
  · exact .inl (inside.trans here)
  · exact .inr ⟨list, found, inner, member, inside.trans here⟩

theorem Houses.of_subset {nodes more content : List Node} (housed : Houses nodes content)
    (inside : nodes <:+: more) : Houses more content := by
  rcases housed with here | ⟨list, found, inner, member, here⟩
  · exact .inl (here.trans inside)
  · exact .inr ⟨list, inside.subset found, inner, member, here⟩

theorem Houses.ne_nil {nodes content : List Node} (housed : Houses nodes content)
    (some : content ≠ []) : nodes ≠ [] := by
  rintro rfl
  rcases housed with here | ⟨list, found, -⟩
  · exact some (List.infix_nil.mp here)
  · cases found

theorem ConvertedGroup.lands {g : ConvertedGroup} {x : Entry} (member : x ∈ g.entries)
    {spread : Bool} {checked : Option Bool} {origin : Markdown.Origin} {content : List Node}
    (nodes : x.nodes = [.parent (.listItem spread checked) origin content]) :
    x.LandsIn g.item := by
  refine ⟨spread, checked, origin, content, nodes, fun some => ?_⟩
  have side : ∀ {xs : List Entry}, x ∈ xs → Houses (Entry.sideOf xs) content := by
    intro xs inside
    have given : .parent (.listItem spread checked) origin content ∈ xs.flatMap Entry.nodes :=
      List.mem_flatMap.mpr ⟨x, inside, nodes ▸ List.mem_cons_self⟩
    obtain ⟨r, found, kept⟩ :=
      @Markdown.exists_mem_coerce (.listItem false none) _ _ given rfl
    exact (houses_unwrapSingle found).of_part kept
  have housed : Houses (Entry.sideOf g.terms ++ Entry.sideOf g.definitions) content := by
    rcases List.mem_append.mp member with term | definition
    · exact (side term).of_subset (List.prefix_append _ _).isInfix
    · exact (side definition).of_subset (List.suffix_append _ _).isInfix
  have filled := housed.ne_nil some
  revert housed filled
  rw [ConvertedGroup.item]
  cases Entry.sideOf g.terms ++ Entry.sideOf g.definitions with
  | nil => exact fun _ filled => absurd rfl filled
  | cons n ns => exact fun housed _ => ⟨_, rfl, housed⟩

end Items

/-- A list of definitions becomes a list with one item for each group of terms and definitions,
unless the group is empty, and what each term and definition holds goes into the item of its
group. -/
theorem definitions_convert {e : Element} (named : Text.lower e.tag = "dl") (shown : ¬ e.isIgnored)
    (parent : Option Element) (s : State) :
    Html.Grouped (unwrapDivs e.children) (Handler.definitionGroups (unwrapDivs e.children)) ∧
      ∃ groups : List ConvertedGroup,
        groups.map ConvertedGroup.group =
            (Handler.definitionGroups (unwrapDivs e.children)).map Handler.Group.ofNodes ∧
          (∀ g ∈ groups, ∀ x ∈ g.entries,
            x.ConvertedIn e s ∧ (x.HasSource ["dd", "dt"] → x.LandsIn g.item)) ∧
          ((Walk.nodes standard.convert e.toNode parent).run s).1 =
            let items := groups.flatMap ConvertedGroup.item
            if items.isEmpty then []
            else [placed e (.list false none (itemsSpread items)) items] := by
  have step := Handlers.step_handled standard.convert parent shown
    (Handlers.find?_of_lower (named.symm ▸ Handlers.Registered.definitionList))
  obtain ⟨groups, sources, converted, items⟩ := groups_groupItems (e := e)
    ((Handler.definitionGroups (unwrapDivs e.children)).map Handler.Group.ofNodes) s
  refine ⟨grouped_definitionGroups _, groups, sources, fun g found x member => ?_, ?_⟩
  · have here := converted g found x member
    refine ⟨here, fun source => ?_⟩
    obtain ⟨spread, checked, origin, content, nodes⟩ := here.item source
    exact ConvertedGroup.lands member nodes
  · rw [Walk.nodes, Handlers.convert_eq, step, Handlers.nodes_filtered,
      Handler.nodes_definitionList, groupItems_definitionGroups, Conversion.run_after, ← items]

section Examples

def entryNode (tag : String) (label : String) : Html.Node :=
  .element tag OrderedMap.empty [.text label none] none

def glossary : Element :=
  ⟨"dl", OrderedMap.empty, [
    .element "div" OrderedMap.empty [
      entryNode "dt" "Apple", entryNode "dt" "Pear", entryNode "dd" "Fruit"] none,
    entryNode "dt" "Oak", .comment "evergreen?" none, entryNode "dd" "Tree"], none⟩

theorem definitions_convert_glossary :
    glossary.tag = "dl" ∧ ¬ glossary.isIgnored ∧
      ∃ fruit tree : ConvertedGroup,
        fruit.group = ⟨[entryNode "dt" "Apple", entryNode "dt" "Pear"], [entryNode "dd" "Fruit"]⟩ ∧
        tree.group =
          ⟨[entryNode "dt" "Oak"], [.comment "evergreen?" none, entryNode "dd" "Tree"]⟩ ∧
        (∀ x ∈ fruit.entries, x.HasSource ["dd", "dt"] → x.LandsIn fruit.item) ∧
        (∀ x ∈ tree.entries, x.HasSource ["dd", "dt"] → x.LandsIn tree.item) ∧
        ((Walk.nodes standard.convert glossary.toNode none).run (.start {} glossary.toNode)).1 =
          let items := fruit.item ++ tree.item
          if items.isEmpty then []
          else [placed glossary (.list false none (itemsSpread items)) items] := by
  have shown : ¬ glossary.isIgnored := by decide
  obtain ⟨-, groups, sources, lands, result⟩ :=
    definitions_convert (e := glossary) (by decide +kernel) shown none (.start {} glossary.toNode)
  have cut : (Handler.definitionGroups (unwrapDivs glossary.children)).map Group.ofNodes =
      [⟨[entryNode "dt" "Apple", entryNode "dt" "Pear"], [entryNode "dd" "Fruit"]⟩,
        ⟨[entryNode "dt" "Oak"], [.comment "evergreen?" none, entryNode "dd" "Tree"]⟩] := by
    rfl
  rw [cut] at sources
  obtain ⟨fruit, rest, rfl, isFruit, others⟩ := List.map_eq_cons_iff.mp sources
  obtain ⟨tree, none, rfl, isTree, last⟩ := List.map_eq_cons_iff.mp others
  obtain rfl := List.map_eq_nil_iff.mp last
  refine ⟨rfl, shown, fruit, tree, isFruit, isTree, ?_, ?_, by simpa using result⟩
  · exact fun x member => (lands fruit (by simp) x member).2
  · exact fun x member => (lands tree (by simp) x member).2

def annotated : Element :=
  ⟨"dl", OrderedMap.empty, [
    entryNode "dt" "a", entryNode "dd" "b", .comment "c" none,
    entryNode "dt" "d", entryNode "dd" "e"], none⟩

def entryItem (label : String) : Node :=
  .plain (.listItem false none) [.paragraph [.text label]]

theorem nodes_entryNode {tag label : String} {parent : Option Element}
    (member : tag ∈ ["dd", "dt", "li"]) (inked : ¬ (Node.text label).isWhitespaceText) :
    Walk.nodes standard.convert (entryNode tag label) parent = pure [entryItem label] := by
  let e : Element := ⟨tag, OrderedMap.empty, [.text label none], none⟩
  have inside : Walk.children standard.convert e = pure [.text label] := by
    refine (Walk.all_singleton _ _ _).trans ?_
    rw [Walk.nodes, Handlers.convert_eq, Handlers.step_of_kind _ _ rfl Handlers.findKind?_text]
    rfl
  have flow : Markdown.wrap [.text label] = [.paragraph [.text label]] := by
    have flat : Markdown.flatten [.text label] = [.text label] := by
      rw [Markdown.flatten, List.flatMap_singleton, Node.text, Markdown.split]
    have run : Markdown.pieces [.text label] = [.run [.text label]] := rfl
    have kept : Markdown.dropSurroundingBreaks [.text label] = [.text label] := rfl
    rw [Markdown.wrap, flat, run, List.flatMap_singleton, Markdown.Piece.toFlow,
      if_neg (by simpa using inked), kept]
  have task : Handler.taskOf e = (none, e.children) := by
    rw [Handler.taskOf, Handler.leadingToggle]
    intro _ _ _ _ _ same
    cases same
  have together : Handler.spreadsOut false e.children = false := by
    simp [e, Handler.spreadsOut]
  change Walk.nodes standard.convert e.toNode parent = _
  rw [nodes_convert (e := e) Bool.false_ne_true (.listItem member), Handler.nodes_listItem]
  simp only [task, inside, together]
  exact congrArg (fun ns => (pure [.plain (.listItem false none) ns] : Conversion (List Node))) flow

/-- Both terms land in one item although there is a definition between them. -/
theorem not_apart_annotated :
    ∃ item, (Walk.nodes standard.convert annotated.toNode none).run (.start {} annotated.toNode) =
        ([placed annotated (.list false none false) [item]], .start {} annotated.toNode) ∧
      Houses item.children (entryItem "a").children ∧
      Houses item.children (entryItem "b").children ∧
      Houses item.children (entryItem "d").children := by
  have comment : ∀ parent, Walk.nodes standard.convert (.comment "c" none) parent =
      pure [.leaf (.html "<!--c-->") {}] := by
    intro parent
    rw [Walk.nodes, Handlers.convert_eq, Handlers.step_of_kind _ _ rfl Handlers.findKind?_comment]
    rfl
  have cut : groupFrom {} false (unwrapDivs annotated.children) =
      [⟨[entryNode "dt" "a", entryNode "dt" "d"],
        [entryNode "dd" "b", .comment "c" none, entryNode "dd" "e"]⟩] := by
    rfl
  have entries : ∀ {tag label : String} {parent : Option Element}, tag ∈ ["dd", "dt", "li"] →
      label ∈ ["a", "b", "d", "e"] →
        Walk.nodes standard.convert (entryNode tag label) parent = pure [entryItem label] := by
    intro tag label parent named member
    refine nodes_entryNode named ?_
    revert label
    decide
  rw [nodes_convert (e := annotated) Bool.false_ne_true .definitionList,
    Handler.nodes_definitionList, cut]
  have terms : Walk.all standard.convert (some annotated)
      [entryNode "dt" "a", entryNode "dt" "d"] = pure [entryItem "a", entryItem "d"] := by
    rw [Walk.all_cons, Walk.all_singleton, entries (by decide) (by decide),
      entries (by decide) (by decide)]
    rfl
  have definitions : Walk.all standard.convert (some annotated)
      [entryNode "dd" "b", .comment "c" none, entryNode "dd" "e"] =
        pure [entryItem "b", .leaf (.html "<!--c-->") {}, entryItem "e"] := by
    rw [Walk.all_cons, Walk.all_cons, Walk.all_singleton, entries (by decide) (by decide), comment,
      entries (by decide) (by decide)]
    rfl
  simp only [groupItems, groupContent, terms, definitions]
  refine ⟨_, rfl, ?_, ?_, ?_⟩
  · refine .inr ⟨_, List.mem_cons_self, entryItem "a", ?_, List.infix_rfl⟩
    exact List.mem_cons_self
  · refine .inr ⟨_, List.mem_cons_of_mem _ List.mem_cons_self, entryItem "b", ?_, List.infix_rfl⟩
    exact List.mem_cons_self
  · refine .inr ⟨_, List.mem_cons_self, entryItem "d", ?_, List.infix_rfl⟩
    exact List.mem_cons_of_mem _ List.mem_cons_self

end Examples

end HtmlToMarkdown
