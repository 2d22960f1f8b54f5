import HtmlToMarkdown.Proofs.Lines.Edges
import HtmlToMarkdown.Proofs.Lines.Outline

namespace HtmlToMarkdown

open Conversion (GivesSound)
open Handler (placed placedLeaf)
open Handlers (Registered standard)
open Html (Element)
open Markdown (Node Shape)

/-- An action outlines a node, and if the node meets a rule, the nodes that it gives have content as
the rule asks for. -/
structure Rule.Kept (r : Rule) (ok : Shape → List Node → Prop) (n : Html.Node)
    (act : Conversion (List Node)) : Prop extends Outlines n act where
  keeps (s : State) (meets : n.meets r s.around false) :
    ∀ m ∈ (act.run s).1, m.Throughout (Node.Keeps ok)

namespace Rule.Kept

variable {r : Rule} {ok : Shape → List Node → Prop} (governs : r.Governs ok) {walk : Walk}
  (kept : ∀ n parent, r.Kept ok n (walk.nodes n parent)) {e : Element} {s : State}

section All

variable {ns : List Html.Node} {parent : Option Element}

include kept

theorem outlines (n : Html.Node) (parent : Option Element) : Outlines n (walk.nodes n parent) :=
  (kept n parent).toOutlines

theorem regular_all (s : State) :
    ∀ m ∈ ((walk.all parent ns).run s).1, m.Throughout Node.Regular :=
  (givesSound_all (outlines kept) ns parent).regular s

theorem refines_all (s : State) :
    Refines (sketchOf s.around ns) (((walk.all parent ns).run s).1.map Node.stroke) :=
  (depicts_all (outlines kept) ns parent s).refines fun n member =>
    (regular_all kept s n member).self

theorem keeps_all (meets : ∀ n ∈ ns, n.meets r s.around false) :
    ∀ m ∈ ((walk.all parent ns).run s).1, m.Throughout (Node.Keeps ok) := by
  induction ns generalizing s with
  | nil => exact nofun
  | cons n ns ih =>
      obtain ⟨here, later⟩ := List.forall_mem_cons.mp meets
      have rest := ih (s := ((walk.nodes n parent).run s).2)
        ((kept n parent).around s ▸ later)
      rw [Walk.all_cons, Conversion.run_append]
      exact List.forall_mem_append.mpr ⟨(kept n parent).keeps s here, rest⟩

theorem mayStray_all (blocks : ∀ n ∈ ns, r.strays ∨ ∀ m ∈ n.sketch s.around, m = .block) :
    ∀ m ∈ ((walk.all parent ns).run s).1, r.MayStray m := by
  by_cases strays : r.strays
  · exact fun _ _ => .inl strays
  · have depicts := depicts_all (outlines kept) ns parent s
    refine fun m member => .inr (depicts.blocks (fun m inside => ?_) m member)
    obtain ⟨n, here, part⟩ := mem_sketchOf.mp inside
    exact (blocks n here).resolve_left strays m part

end All

section Groups

variable {parent : Option Element}

include governs kept

theorem keeps_wrapped {ns : List Html.Node} (flow : r.flow (sketchOf s.around ns))
    (meets : ∀ n ∈ ns, n.meets r s.around false) :
    ∀ m ∈ Markdown.wrap ((walk.all parent ns).run s).1, m.Throughout (Node.Keeps ok) :=
  governs.wrap (depicts_all (outlines kept) ns parent s) flow
    (regular_all kept s) (keeps_all kept meets)

theorem keeps_groupContent {ns : List Html.Node} (meets : ∀ n ∈ ns, n.meets r s.around false)
    (blocks : ∀ n ∈ ns, r.strays ∨ ∀ m ∈ n.sketch s.around, m = .block) :
    ∀ m ∈ ((Handler.groupContent walk e ns).run s).1,
      m.Throughout (Node.Keeps ok) ∧ r.MayStray m :=
  governs.unwrapSingle (governs.items (keeps_all kept meets) (mayStray_all kept blocks))

theorem keeps_groupItems {groups : List Handler.Group}
    (meets : ∀ g ∈ groups, ∀ n ∈ g.nodes, n.meets r s.around false)
    (blocks : ∀ g ∈ groups, ∀ n ∈ g.nodes, r.strays ∨ ∀ m ∈ n.sketch s.around, m = .block) :
    ∀ m ∈ ((Handler.groupItems walk e groups).run s).1,
      m.kind = .listItem ∧ m.Throughout (Node.Keeps ok) := by
  induction groups generalizing s with
  | nil => exact nofun
  | cons group groups ih =>
      obtain ⟨meetsHere, meetsLater⟩ := List.forall_mem_cons.mp meets
      obtain ⟨blocksHere, blocksLater⟩ := List.forall_mem_cons.mp blocks
      have around : ∀ (ns : List Html.Node) (s : State),
          ((Handler.groupContent walk e ns).run s).2.around = s.around :=
        fun ns => around_all (outlines kept) ns (some e)
      let between := ((Handler.groupContent walk e group.terms).run s).2
      let after := ((Handler.groupContent walk e group.definitions).run between).2
      have sameBetween : between.around = s.around := around group.terms s
      have sameAfter : after.around = s.around :=
        (around group.definitions between).trans sameBetween
      have terms := keeps_groupContent governs kept (e := e)
        (fun n member => meetsHere n (List.mem_append_left _ member))
        (fun n member => blocksHere n (List.mem_append_left _ member))
      have definitions := keeps_groupContent governs kept (e := e) (s := between)
        (fun n member => sameBetween ▸ meetsHere n (List.mem_append_right _ member))
        (fun n member => sameBetween ▸ blocksHere n (List.mem_append_right _ member))
      have rest := ih (s := after) (sameAfter ▸ meetsLater) (sameAfter ▸ blocksLater)
      have item := governs.groupItem (List.forall_mem_append.mpr ⟨terms, definitions⟩)
      exact List.forall_mem_append.mpr ⟨item, rest⟩

end Groups

section Registered

variable (parent : Option Element) (meets : e.toNode.meets r s.around false) {role : Role}

include kept meets

theorem keeps_children (known : e.role false s.around.inTable = role)
    (converted : role.isAtomic = false) (plain : role.isListOfTerms = false)
    (apart : Text.lower e.tag ≠ "q" ∧ Text.lower e.tag ≠ "table") :
    ∀ m ∈ ((walk.children e).run s).1, m.Throughout (Node.Keeps ok) := by
  have content := (meets_content_of_apart meets known converted apart).2
  rw [plain] at content
  exact keeps_all kept content

theorem keeps_quote (known : e.role false s.around.inTable = .through)
    (named : Text.lower e.tag = "q") :
    ∀ m ∈ ((Output.nodes <$> Handler.quote walk e parent).run s).1,
      m.Throughout (Node.Keeps ok) := by
  let within : State := { s with quoteDepth := s.quoteDepth + 1 }
  have inside : s.around.inside e = within.around := by
    simp [Around.inside, named, State.around, within]
  have content := (meets_content meets known rfl).2
  rw [inside] at content
  rw [Handler.nodes_quote]
  exact Handler.forall_quoteWith _ (fun _ => Node.throughout_leaf.mpr trivial)
    (fun _ _ _ _ => Node.throughout_leaf.mpr trivial) (keeps_all kept content)

include governs

theorem keeps_flow (known : e.role false s.around.inTable = .flow)
    (apart : Text.lower e.tag ∉ ["q", "table", "dd", "dt", "li"]) :
    ∀ m ∈ Markdown.wrap ((walk.children e).run s).1, m.Throughout (Node.Keeps ok) := by
  simp only [List.mem_cons, List.not_mem_nil, or_false, not_or] at apart
  obtain ⟨flow, content⟩ := meets_content_of_apart meets known rfl ⟨apart.1, apart.2.1⟩
  have whole : Rule.flowContent e = e.children := by simp [Rule.flowContent, apart]
  rw [Rule.meetsContent, whole] at flow
  exact keeps_wrapped governs kept flow content

theorem keeps_listItem (known : e.role false s.around.inTable = .flow)
    (named : Text.lower e.tag ∈ ["dd", "dt", "li"]) :
    ∀ m ∈ ((Output.nodes <$> Handler.listItem walk e parent).run s).1,
      m.Throughout (Node.Keeps ok) := by
  have apart : Text.lower e.tag ≠ "q" ∧ Text.lower e.tag ≠ "table" := by
    constructor <;> intro same <;> simp [same] at named
  obtain ⟨flow, content⟩ := meets_content_of_apart meets known rfl apart
  have task : Rule.flowContent e = (Handler.taskOf e).2 := by simp [Rule.flowContent, named]
  have without := meetsAll_iff.mp (meetsAll_taskOf (meetsAll_iff.mpr content))
  rw [Rule.meetsContent, task] at flow
  rw [Handler.nodes_listItem]
  exact List.forall_mem_singleton.mpr (governs.container rfl
    (fun _ => Markdown.not_isPhrasing_of_mem_wrap) (keeps_wrapped governs kept flow without))

theorem keeps_list (known : e.role false s.around.inTable = .list false)
    (apart : Text.lower e.tag ≠ "q" ∧ Text.lower e.tag ≠ "table") :
    ∀ m ∈ ((Output.nodes <$> Handler.list walk e parent).run s).1,
      m.Throughout (Node.Keeps ok) := by
  obtain ⟨direct, content⟩ := meets_content_of_apart meets known rfl apart
  have blocks : ∀ n ∈ e.children, r.strays ∨ ∀ m ∈ n.sketch s.around, m = .block :=
    Rule.blocks_of_list direct
  have nodes : ∀ m ∈ ((walk.children e).run s).1, m.Throughout (Node.Keeps ok) :=
    keeps_all kept content
  have items := governs.items nodes (mayStray_all kept blocks)
  rw [Handler.nodes_list]
  exact List.forall_mem_singleton.mpr (governs.list _ _ _ items)

theorem keeps_definitionList (known : e.role false s.around.inTable = .list true)
    (apart : Text.lower e.tag ≠ "q" ∧ Text.lower e.tag ≠ "table") :
    ∀ m ∈ ((Output.nodes <$> Handler.definitionList walk e parent).run s).1,
      m.Throughout (Node.Keeps ok) := by
  obtain ⟨direct, content⟩ := meets_content_of_apart meets known rfl apart
  have unwrapped := meets_unwrapDivs (meetsAll_iff.mpr content)
  have blocks : ∀ n ∈ Handler.unwrapDivs e.children,
      r.strays ∨ ∀ m ∈ n.sketch s.around, m = .block := Rule.blocks_of_list direct
  let groups := Handler.groupFrom {} false (Handler.unwrapDivs e.children)
  have inside : ∀ g ∈ groups, ∀ n ∈ g.nodes, n ∈ Handler.unwrapDivs e.children :=
    fun g found n member =>
      (Handler.mem_of_mem_groupFrom found member).resolve_left List.not_mem_nil
  have items := keeps_groupItems governs kept (e := e)
    (fun g found n member => unwrapped n (inside g found n member))
    (fun g found n member => blocks n (inside g found n member))
  rw [Handler.nodes_definitionList, Conversion.run_after]
  split
  · exact List.forall_mem_nil _
  · exact List.forall_mem_singleton.mpr (governs.list _ _ _ items)

theorem keeps_heading (known : e.role false s.around.inTable = .line)
    (apart : Text.lower e.tag ∉ ["q", "table", "p", "summary"]) :
    ∀ m ∈ ((Output.nodes <$> Handler.heading walk e parent).run s).1,
      m.Throughout (Node.Keeps ok) := by
  simp only [List.mem_cons, List.not_mem_nil, or_false, not_or] at apart
  obtain ⟨heading, content⟩ := meets_content_of_apart meets known rfl ⟨apart.1, apart.2.1⟩
  have whole : r.heading (sketchOf s.around e.children) := by
    simpa [Rule.meetsContent, apart] using heading
  rw [Handler.nodes_heading]
  refine List.forall_mem_singleton.mpr (Node.throughout_parent.mpr
    ⟨governs.heading (governs.refinedHeading (refines_all kept s) whole), fun m member => ?_⟩)
  exact keeps_all kept content m (Markdown.mem_of_mem_dropSurroundingBreaks member)

theorem keeps_paragraph (known : e.role false s.around.inTable = .line)
    (named : Text.lower e.tag ∈ ["p", "summary"]) :
    ∀ m ∈ ((Output.nodes <$> Handler.paragraph walk e parent).run s).1,
      m.Throughout (Node.Keeps ok) := by
  have apart : Text.lower e.tag ≠ "q" ∧ Text.lower e.tag ≠ "table" := by
    constructor <;> intro same <;> simp [same] at named
  obtain ⟨line, content⟩ := meets_content_of_apart meets known rfl apart
  have whole : r.line (sketchOf s.around e.children) := by
    apply Rule.line_of_meetsLine
    simpa [Rule.meetsContent, named] using line
  rw [Handler.nodes_paragraph, Conversion.run_after]
  split
  · exact List.forall_mem_nil _
  next filled =>
    rw [List.isEmpty_iff] at filled
    refine List.forall_mem_singleton.mpr (Node.throughout_parent.mpr
      ⟨governs.line (governs.refinedLine (refines_all kept s) whole) filled, fun m member => ?_⟩)
    exact keeps_all kept content m (Markdown.mem_of_mem_dropSurroundingBreaks member)

theorem keeps_table (shown : ¬ e.isIgnored) (named : Text.lower e.tag = "table") :
    ∀ m ∈ ((Output.nodes <$> Handler.table walk e parent).run s).1,
      m.Throughout (Node.Keeps ok) := by
  rw [Handler.run_table]
  by_cases inside : s.inTable
  · rw [if_pos inside]
    exact List.forall_mem_singleton.mpr (Node.throughout_leaf.mpr trivial)
  · let within : State := { s with inTable := true, spanFrames := [] :: s.spanFrames }
    have role : e.role false s.around.inTable = .table :=
      (role_of_table shown named s.inTable).trans (if_neg inside)
    have around : s.around.inside e = within.around := by
      simp [Around.inside, named, State.around, within]
    have content := (meets_content meets role rfl).2
    rw [around] at content
    rw [if_neg inside]
    exact List.forall_mem_singleton.mpr (governs.builtTable e _ (keeps_all kept content))

theorem keeps_registered {key : String} {handler : TagHandler}
    (registered : Registered key handler) (named : Text.lower e.tag = key)
    (shown : ¬ e.isIgnored) :
    ∀ m ∈ ((Output.nodes <$> handler walk e parent).run s).1, m.Throughout (Node.Keeps ok) := by
  have known : ∀ (role : Role) {tags : List String}, key ∈ tags → role ≠ .table →
      (∀ tag ∈ tags, roleOf tag = role) → e.role false s.around.inTable = role :=
    fun role tags member apart same => role_of_shown shown apart (named ▸ same key member) _
  have children : ∀ (role : Role) {tags : List String}, key ∈ tags →
      role ≠ .table ∧ role.isAtomic = false ∧ role.isListOfTerms = false →
      (∀ tag ∈ tags, roleOf tag = role ∧ tag ≠ "q" ∧ tag ≠ "table") →
        ∀ m ∈ ((walk.children e).run s).1, m.Throughout (Node.Keeps ok) := by
    intro role tags member plain same
    obtain ⟨here, apart⟩ := same key member
    exact keeps_children kept meets (role_of_shown shown plain.1 (named ▸ here) _) plain.2.1
      plain.2.2 (named ▸ apart)
  have leaf : ∀ content : Markdown.Leaf, ∀ m ∈ [placedLeaf e content],
      m.Throughout (Node.Keeps ok) :=
    fun content => List.forall_mem_singleton.mpr (Node.throughout_leaf.mpr trivial)
  have around : ∀ {shape : Shape} {ns : List Node}, ¬ shape.isRuled →
      (∀ n ∈ ns, n.Throughout (Node.Keeps ok)) →
        ∀ m ∈ [placed e shape ns], m.Throughout (Node.Keeps ok) :=
    fun unruled inside => List.forall_mem_singleton.mpr (governs.parent unruled inside)
  cases registered with
  | ignore | base => exact List.forall_mem_nil _
  | passThrough member =>
      refine children .through member (by decide) fun tag listed => ?_
      have apart := apart_of_passThrough tag listed
      simp only [List.mem_cons, List.not_mem_nil, or_false, not_or] at apart
      exact ⟨roleOf_passThrough tag listed, apart.1, apart.2.1⟩
  | flow member =>
      have role := known .flow member (by decide) roleOf_flow
      have apart : ∀ tag ∈ Handlers.flowTags, tag ∉ ["q", "table", "dd", "dt", "li"] := by
        decide +kernel
      exact keeps_flow governs kept meets role (named ▸ apart key member)
  | link =>
      have content := children .cover (List.mem_singleton_self "a") (by decide) (by decide)
      exact around Bool.false_ne_true content
  | media member =>
      have content := children .through member (by decide) (by decide)
      rw [Handler.nodes_media, Conversion.run_after]
      split
      · exact content
      · exact around Bool.false_ne_true (Handler.forall_shownMedia e _
          (fun _ _ => Node.throughout_leaf.mpr trivial) content)
  | emphasis member =>
      exact around Bool.false_ne_true (children .mark member (by decide) (by decide))
  | strong member =>
      exact around Bool.false_ne_true (children .mark member (by decide) (by decide))
  | delete member =>
      exact around Bool.false_ne_true (children .cover member (by decide) (by decide))
  | blockquote =>
      have role := known .flow (List.mem_singleton_self "blockquote") (by decide)
        (by decide +kernel)
      exact around Bool.false_ne_true
        (keeps_flow governs kept meets role (by rw [named]; decide))
  | lineBreak | wordBreak | inlineCode | thematicBreak | image | textarea | code => exact leaf _
  | listItem member =>
      have role := known .flow member (by decide) (by decide +kernel)
      exact keeps_listItem governs kept parent meets role (named ▸ member)
  | list member =>
      have role := known (.list false) member (by decide) (by decide)
      have apart : ∀ tag ∈ ["dir", "ol", "ul"], tag ≠ "q" ∧ tag ≠ "table" := by decide
      exact keeps_list governs kept parent meets role (named ▸ apart key member)
  | definitionList =>
      have role := known (.list true) (List.mem_singleton_self "dl") (by decide) (by decide)
      exact keeps_definitionList governs kept parent meets role (by rw [named]; decide)
  | heading member =>
      have role := known .line member (by decide) (by decide)
      have apart : ∀ tag ∈ ["h1", "h2", "h3", "h4", "h5", "h6"],
          tag ∉ ["q", "table", "p", "summary"] := by decide
      exact keeps_heading governs kept parent meets role (named ▸ apart key member)
  | iframe =>
      rw [Handler.nodes_iframe, Conversion.run_reads]
      split
      · exact around Bool.false_ne_true
          (List.forall_mem_singleton.mpr (Node.throughout_leaf.mpr trivial))
      · exact List.forall_mem_nil _
  | input =>
      exact Handler.forall_inputOutput e s (fun _ _ => Node.throughout_leaf.mpr trivial)
        (fun _ => Node.throughout_leaf.mpr trivial) fun _ _ => governs.parent Bool.false_ne_true
          (List.forall_mem_singleton.mpr (Node.throughout_leaf.mpr trivial))
  | select =>
      rw [Handler.nodes_select]
      by_cases none : (Handler.shownChoices e e).isEmpty
      · rw [if_pos none]
        exact List.forall_mem_nil _
      · rw [if_neg none]
        exact leaf _
  | paragraph member =>
      have role := known .line member (by decide) (by decide)
      exact keeps_paragraph governs kept parent meets role (named ▸ member)
  | quote =>
      have role := known .through (List.mem_singleton_self "q") (by decide) (by decide +kernel)
      exact keeps_quote kept parent meets role named
  | table => exact keeps_table governs kept parent meets shown named
  | tableRow =>
      have same := (State.Scoped.startSpanRow s).around
      rw [← same] at meets
      have role : e.role false s.startSpanRow.around.inTable = .row :=
        role_of_shown shown (by decide) (by rw [named]; decide) _
      have content := keeps_children kept meets role rfl rfl (by rw [named]; decide)
      exact around Bool.false_ne_true (governs.cells content)
  | tableCell member =>
      have same := (State.Scoped.recordSpan s (Html.CellSpan.ofElement e)).around
      rw [← same] at meets
      have cell : ∀ tag ∈ ["td", "th"], roleOf tag = .cell ∧ tag ≠ "q" ∧ tag ≠ "table" := by
        decide
      obtain ⟨here, apart⟩ := cell key member
      have role := role_of_shown shown (by decide) (named ▸ here)
        (s.recordSpan (Html.CellSpan.ofElement e)).around.inTable
      have content := keeps_children kept meets role rfl rfl (named ▸ apart)
      exact around Bool.false_ne_true content

end Registered

section Rules

include governs kept

theorem keeps_rules : Handlers.StepRules walk fun n act =>
    ∀ s, n.meets r s.around false → ∀ m ∈ (act.run s).1, m.Throughout (Node.Keeps ok) where
  ignored e _ s _ := nofun
  handled e parent handler shown registered s meets :=
    keeps_registered governs kept parent meets registered rfl shown
  unhandled e shown unknown s meets := by
    have role := role_of_shown shown (by decide) (roleOf_unknown unknown) s.around.inTable
    exact keeps_children kept meets role rfl rfl
      ⟨lower_of_unknown unknown .quote, lower_of_unknown unknown .table⟩
  root children position parent s meets := by
    obtain ⟨root, below⟩ := Bool.and_eq_true_iff.mp meets
    have content := meetsAll_iff.mp below
    let result := (walk.all none children).run s
    have depicts : Depicts (sketchOf s.around children) result.1 :=
      depicts_all (outlines kept) children none s
    have options : result.2.options = s.options :=
      congrArg Around.options (around_all (outlines kept) children none s)
    rw [Handler.nodes_root, Conversion.run_after]
    refine List.forall_mem_singleton.mpr (governs.parent Bool.false_ne_true ?_)
    split
    next wrapped =>
      apply keeps_wrapped governs kept _ content
      -- Content that meets no rule for flow content is inline, and is wrapped only on demand.
      refine (Bool.or_eq_true_iff.mp root).resolve_left fun unwrapped => ?_
      obtain ⟨fragment, inline⟩ := Bool.and_eq_true_iff.mp unwrapped
      have inlined := (Markdown.not_wrapNeeded_iff result.1).mpr (depicts.inlined inline)
      rw [options, Bool.or_eq_true] at wrapped
      exact wrapped.elim (fun document => by simp [State.around, document] at fragment) inlined
    next => exact keeps_all kept content
  text value position s _ := List.forall_mem_singleton.mpr (Node.throughout_leaf.mpr trivial)
  comment value position s _ := List.forall_mem_singleton.mpr (Node.throughout_leaf.mpr trivial)
  doctype position s _ := nofun

theorem rules : Handlers.StepRules walk (r.Kept ok) :=
  ((outlines_rules (outlines kept)).and (keeps_rules governs kept)).mono
    fun _ _ holds => ⟨holds.1, holds.2⟩

end Rules

end Rule.Kept

section Convert

variable {r : Rule} {ok : Shape → List Node → Prop}

theorem kept_drawing (n : Html.Node) : r.Kept ok n (drawing n) where
  toOutlines := outlines_drawing n
  keeps _ _ _ member := exists_of_mem_drawn member ▸ Node.throughout_leaf.mpr trivial

theorem kept_convert (governs : r.Governs ok) (n : Html.Node) (parent : Option Element) :
    r.Kept ok n (Walk.nodes standard.convert n parent) :=
  Handlers.convert_induction (fun n => ⟨drawing n, kept_drawing n⟩)
    (fun _ kept => Rule.Kept.rules governs kept) n parent

/-- In a document that meets a rule, content is as the rule asks for. -/
theorem keeps_walkTree [UrlReader] (governs : r.Governs ok) {options : Options} {tree : Html.Node}
    (meets : r.metBy options tree) :
    (walkTree options standard tree).Throughout (Node.Keeps ok) :=
  Output.throughout_toTree (fun _ => governs.parent Bool.false_ne_true)
    ((kept_convert governs tree none).keeps (State.start options tree) meets)

/-- Content in the result is as asked for if in what the walk gives it is as it must be for that,
and so it is in a document that meets the rule. -/
theorem keeps_convert [UrlReader] (governs : r.Governs ok) {asked made : Shape → List Node → Prop}
    (same : ∀ {shape : Shape} {ns ms : List Node}, (∀ n ∈ ns, n.Regular) →
      Markdown.SettlesAll shape.trimsEdges true ns ms → (asked shape ms ↔ made shape ns))
    (enough : ∀ {shape : Shape} {ns : List Node}, ok shape ns → made shape ns)
    (options : Options) (tree : Html.Node) :
    ((convert options standard tree).Throughout (Node.Keeps asked) ↔
      (walkTree options standard (tree.minify options.newlines)).Throughout (Node.Keeps made)) ∧
    (r.metBy options (tree.minify options.newlines) →
      (convert options standard tree).Throughout (Node.Keeps asked)) := by
  let walked := walkTree options standard (tree.minify options.newlines)
  have settled := (Markdown.settles_normalize walked).keeps_iff same (regular_walkTree options _)
  refine ⟨settled, fun meets => settled.mpr ?_⟩
  refine (keeps_walkTree governs meets).mono fun n keeps => ?_
  cases n with
  | parent shape origin children => exact enough keeps
  | leaf content origin => exact keeps

end Convert

end HtmlToMarkdown
