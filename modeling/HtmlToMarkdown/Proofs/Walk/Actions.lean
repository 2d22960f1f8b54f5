import HtmlToMarkdown.Proofs.Walk.Content

/-!
What a conversion does. Whatever the tree, it reads the state, counts quotations, opens and closes
tables, records rows and cells and notes a base, in some order. So a property of actions that all of
these have, and with any two actions the one after the other, is a property of every conversion.
-/

namespace HtmlToMarkdown

open Handlers (Registered StepRules)
open Html (Element ThroughoutAll throughoutAll_iff)
open Markdown (Node)

def Html.Node.Tagged (p : String → Html.Properties → Prop) : Html.Node → Prop
  | .element tag properties _ _ => p tag properties
  | _ => True

/-- What shows a property of all that a conversion does, provided that `p` holds of the elements.
Only inputs look for elements by their `id`. -/
structure ActionRules (p : String → Html.Properties → Prop)
    (Q : ∀ α : Type, Conversion α → Prop) : Prop where
  pure {α : Type} (a : α) : Q α (Pure.pure a)
  bind {α β : Type} {act : Conversion α} {next : α → Conversion β} (first : Q α act)
    (rest : ∀ a, Q β (next a)) : Q β (act >>= next)
  reads {α : Type} {f : State → α} (blind : ∀ s elements, f { s with elements := elements } = f s) :
    Q α (Conversion.reads f)
  input (e : Element) (holds : p e.tag e.properties) (named : Text.lower e.tag = "input") :
    Q _ (Conversion.reads fun s => Output.nodes (Handler.inputOutput s e))
  base (e : Element) (holds : p e.tag e.properties) (named : Text.lower e.tag = "base") :
    Q _ (modify (·.freezeBase (e.attribute? "href")))
  row : Q _ (modify State.startSpanRow)
  cell (span : Html.CellSpan) : Q _ (modify (·.recordSpan span))
  nestedQuote {α : Type} {act : Conversion α} (holds : Q α act) : Q α (Conversion.nestedQuote act)
  tableScope {α : Type} {act : Conversion α} (holds : Q α act) : Q _ (Conversion.tableScope act)

namespace ActionRules

open Conversion (reads)
open Handler (placed placedLeaf builtTable groupItems groupContent)
open Html.Node (Tagged)

variable {p : String → Html.Properties → Prop} {Q : ∀ α : Type, Conversion α → Prop}

theorem after (rules : ActionRules p Q) {α β : Type} {act : Conversion α} {f : State → α → β}
    (holds : Q α act) (blind : ∀ s elements a, f { s with elements := elements } a = f s a) :
    Q β (act.after f) :=
  rules.bind holds fun a => rules.reads fun s elements => blind s elements a

section Below

variable {walk : Walk}

theorem all (rules : ActionRules p Q) {ns : List Html.Node} {parent : Option Element}
    (each : ∀ n ∈ ns, Q _ (walk.nodes n parent)) : Q _ (walk.all parent ns) := by
  induction ns with
  | nil => exact rules.pure []
  | cons n ns ih =>
      have here := each n List.mem_cons_self
      have rest := ih fun m member => each m (List.mem_cons_of_mem _ member)
      rw [Walk.all_cons]
      exact rules.bind here fun _ => rules.bind rest fun _ => rules.pure _

theorem groupItems (rules : ActionRules p Q) {e : Element} {groups : List Handler.Group}
    (each : ∀ g ∈ groups, ∀ n ∈ g.nodes, ∀ parent, Q _ (walk.nodes n parent)) :
    Q _ (groupItems walk e groups) := by
  induction groups with
  | nil => exact rules.pure []
  | cons group groups ih =>
      have here := each group List.mem_cons_self
      have side : ∀ ns, (∀ n ∈ ns, n ∈ group.nodes) → Q _ (groupContent walk e ns) := by
        intro ns part
        exact rules.bind (rules.all fun n member => here n (part n member) _) fun _ => rules.pure _
      have terms := side group.terms fun n member => List.mem_append_left _ member
      have definitions := side group.definitions fun n member => List.mem_append_right _ member
      have rest := ih fun g member => each g (List.mem_cons_of_mem _ member)
      exact rules.bind terms fun _ => rules.bind definitions fun _ =>
        rules.bind rest fun _ => rules.pure _

theorem registered (rules : ActionRules p Q)
    (each : ∀ n : Html.Node, n.Throughout (Tagged p) → ∀ parent, Q _ (walk.nodes n parent))
    {key : String} {handler : TagHandler} (registered : Registered key handler) {e : Element}
    (named : Text.lower e.tag = key) (holds : e.toNode.Throughout (Tagged p))
    (parent : Option Element) : Q _ (Output.nodes <$> handler walk e parent) := by
  have leaf : ∀ content, Q _ (Pure.pure [placedLeaf e content]) := fun _ => rules.pure _
  have below : ∀ e : Element, ThroughoutAll (Tagged p) e.children → Q _ (walk.children e) :=
    fun e inside => rules.all fun n member => each n (throughoutAll_iff.mp inside n member) _
  have children : Q _ (walk.children e) := below e holds.2
  have marked : ∀ shape, Q _ (Output.nodes <$> Handler.marked shape walk e parent) := by
    intro shape
    rw [Handler.nodes_marked]
    exact rules.after children fun _ _ _ => rfl
  cases registered with
  | ignore => exact rules.pure []
  | passThrough => exact children
  | flow =>
      rw [Handler.nodes_flow]
      exact rules.after children fun _ _ _ => rfl
  | link =>
      rw [Handler.nodes_link]
      exact rules.after children fun _ _ _ => rfl
  | media =>
      rw [Handler.nodes_media]
      exact rules.after children fun _ _ _ => rfl
  | emphasis => exact marked .emphasis
  | strong => exact marked .strong
  | delete => exact marked .delete
  | base =>
      rw [Handler.nodes_base]
      exact rules.bind (rules.base e holds.1 named) fun _ => rules.pure []
  | blockquote =>
      rw [Handler.nodes_blockquote]
      exact rules.after children fun _ _ _ => rfl
  | lineBreak => exact leaf _
  | wordBreak => exact leaf _
  | inlineCode => exact leaf _
  | listItem =>
      rw [Handler.nodes_listItem]
      have content := below { e with children := (Handler.taskOf e).2 }
        (Handler.throughout_taskOf (fun _ here => here) holds.2)
      exact rules.after content fun _ _ _ => rfl
  | list =>
      rw [Handler.nodes_list]
      exact rules.after children fun _ _ _ => rfl
  | definitionList =>
      rw [Handler.nodes_definitionList]
      refine rules.after (rules.groupItems fun g found n member other => ?_) fun _ _ _ => rfl
      exact each n (Handler.throughout_groups holds.2 found n member) other
  | heading =>
      rw [Handler.nodes_heading]
      exact rules.after children fun _ _ _ => rfl
  | thematicBreak => exact leaf _
  | iframe =>
      rw [Handler.nodes_iframe]
      exact rules.reads fun _ _ => rfl
  | image =>
      rw [Handler.nodes_image]
      exact rules.reads fun _ _ => rfl
  | input =>
      rw [Handler.nodes_input]
      exact rules.input e holds.1 named
  | select =>
      rw [Handler.nodes_select]
      exact rules.pure _
  | textarea => exact leaf _
  | code => exact leaf _
  | paragraph =>
      rw [Handler.nodes_paragraph]
      exact rules.after children fun _ _ _ => rfl
  | quote =>
      rw [Handler.nodes_quote]
      exact rules.after (rules.nestedQuote children) fun _ _ _ => rfl
  | table =>
      rw [Handler.nodes_table]
      refine rules.bind (rules.reads fun _ _ => rfl) fun inside => ?_
      split
      · exact leaf _
      · exact rules.bind (rules.tableScope children) fun _ => rules.pure _
  | tableRow =>
      rw [Handler.nodes_tableRow]
      exact rules.bind rules.row fun _ => rules.after children fun _ _ _ => rfl
  | tableCell =>
      rw [Handler.nodes_tableCell]
      exact rules.bind (rules.cell _) fun _ => rules.after children fun _ _ _ => rfl

theorem stepRules (rules : ActionRules p Q)
    (each : ∀ n : Html.Node, n.Throughout (Tagged p) → ∀ parent, Q _ (walk.nodes n parent)) :
    StepRules walk fun n act => n.Throughout (Tagged p) → Q _ act where
  ignored _ _ _ := rules.pure []
  handled e parent handler _ registered holds :=
    rules.registered each registered rfl holds parent
  unhandled e _ _ holds :=
    rules.all fun n member => each n (throughoutAll_iff.mp holds.2 n member) _
  root children position parent holds := by
    rw [Handler.nodes_root]
    refine rules.after (rules.all fun n member => ?_) fun _ _ _ => rfl
    exact each n (throughoutAll_iff.mp holds.2 n member) _
  text _ _ _ := rules.pure _
  comment _ _ _ := rules.pure _
  doctype _ _ := rules.pure []

end Below

/-- A property of all that a conversion does is a property of every conversion. -/
theorem convert (rules : ActionRules p Q) {n : Html.Node} (holds : n.Throughout (Tagged p))
    (parent : Option Element) : Q _ (Walk.nodes Handlers.standard.convert n parent) :=
  @Handlers.convert_induction (fun n act => n.Throughout (Tagged p) → Q _ act)
    (fun _ => ⟨Pure.pure [], fun _ => rules.pure []⟩)
    (fun _ each => rules.stepRules fun n holds parent => each n parent holds) n parent holds

end ActionRules

end HtmlToMarkdown
