import HtmlToMarkdown.Proofs.Table.Source
import HtmlToMarkdown.Proofs.Walk.Handlers

/-!
The content of a cell does not see which spans were recorded. Only rows and cells write to the
open tables, and a table inside a table is text, so what is no part of a table converts in the same
way whatever was recorded before, and records nothing itself.
-/

namespace HtmlToMarkdown

open Handlers (Registered StepRules)
open Html (AllRowless CellSpan Element allRowless_iff)
open Markdown (Node)

/-- In a table, an action neither reads nor changes the open tables. -/
def Conversion.Frameless {α : Type} (act : Conversion α) : Prop :=
  ∀ s frames, s.inTable →
    act.run { s with spanFrames := frames } =
      ((act.run s).1, { (act.run s).2 with spanFrames := frames }) ∧ (act.run s).2.inTable

namespace Conversion.Frameless

variable {α β : Type}

theorem pure (a : α) : Frameless (Pure.pure a) := fun _ _ inside => ⟨rfl, inside⟩

theorem bind {act : Conversion α} {next : α → Conversion β} (frameless : Frameless act)
    (rest : ∀ a, Frameless (next a)) : Frameless (act >>= next) := by
  intro s frames inside
  rcases frameless s frames inside with ⟨first, still⟩
  rcases rest (act.run s).1 (act.run s).2 frames still with ⟨second, after⟩
  constructor
  · change (next (act.run { s with spanFrames := frames }).1).run
      (act.run { s with spanFrames := frames }).2 = _
    rw [first]
    exact second
  · exact after

theorem after {act : Conversion α} {f : State → α → β} (frameless : Frameless act)
    (blind : ∀ s frames a, f { s with spanFrames := frames } a = f s a) :
    Frameless (act.after f) := by
  intro s frames inside
  rcases frameless s frames inside with ⟨first, still⟩
  constructor
  · rw [run_after, run_after, first, blind]
  · exact still

theorem reads {f : State → β} (blind : ∀ s frames, f { s with spanFrames := frames } = f s) :
    Frameless (Conversion.reads f) := by
  intro s frames inside
  rw [run_reads, run_reads, blind]
  exact ⟨rfl, inside⟩

theorem append {act more : Conversion (List Node)} (frameless : Frameless act)
    (rest : Frameless more) : Frameless (do return (← act) ++ (← more)) :=
  frameless.bind fun _ => rest.bind fun _ => pure _

theorem all {walk : Walk} {parent : Option Element} {ns : List Html.Node}
    (each : ∀ n ∈ ns, Frameless (walk.nodes n parent)) : Frameless (walk.all parent ns) := by
  induction ns with
  | nil => exact pure []
  | cons n ns ih =>
      rw [Walk.all_cons]
      exact (each n List.mem_cons_self).append
        (ih fun m member => each m (List.mem_cons_of_mem _ member))

theorem nestedQuote {act : Conversion α} (frameless : Frameless act) :
    Frameless (Conversion.nestedQuote act) := by
  intro s frames inside
  rcases frameless { s with quoteDepth := s.quoteDepth + 1 } frames inside with ⟨run, still⟩
  constructor
  · rw [run_nestedQuote, run_nestedQuote]
    dsimp only
    rw [run]
  · exact still

end Conversion.Frameless

namespace Handler

open Html.Node (Rowless)

theorem allRowless_leadingToggle {ns content : List Html.Node} {toggle : Element}
    (found : leadingToggle ns = some (toggle, content)) (free : AllRowless ns) :
    AllRowless content := by
  fun_induction leadingToggle ns generalizing toggle content with
  | case1 tag properties children position rest head =>
      rcases Prod.mk.inj (Option.some.inj found) with ⟨rfl, rfl⟩
      exact free.2
  | case2 tag properties children position rest head notToggle paragraph =>
      rename_i ih
      rcases Option.map_eq_some_iff.mp found with ⟨⟨inner, shorter⟩, foundInside, same⟩
      rcases Prod.mk.inj same with ⟨rfl, rfl⟩
      rcases free with ⟨here, later⟩
      have notTable : tag ≠ "table" := by
        rw [eq_of_beq paragraph]
        decide
      rcases here.resolve_left notTable with ⟨apart, below⟩
      exact ⟨.inr ⟨apart, ih foundInside below⟩, later⟩
  | case3 => cases found
  | case4 => cases found

theorem allRowless_taskOf {e : Element} (free : AllRowless e.children) :
    AllRowless (taskOf e).2 := by
  unfold taskOf
  split
  next found => exact allRowless_leadingToggle found free
  next => exact free

theorem allRowless_unwrapDivs {ns : List Html.Node} (free : AllRowless ns) :
    AllRowless (unwrapDivs ns) := by
  rw [allRowless_iff] at free ⊢
  intro n member
  rcases List.mem_flatMap.mp member with ⟨m, inside, here⟩
  have whole := free m inside
  split at here
  next div =>
    cases m with
    | element tag properties children position =>
        have named : tag = "div" := eq_of_beq div
        have notTable : tag ≠ "table" := by
          rw [named]
          decide
        exact allRowless_iff.mp (whole.resolve_left notTable).2 n here
    | _ => exact absurd div Bool.false_ne_true
  next =>
    rw [List.mem_singleton.mp here]
    exact whole

open Conversion (Frameless)

theorem frameless_groupItems {walk : Walk} {e : Element} {groups : List Group}
    (each : ∀ g ∈ groups, ∀ n ∈ g.nodes, ∀ parent, Frameless (walk.nodes n parent)) :
    Frameless (groupItems walk e groups) := by
  induction groups with
  | nil => exact Frameless.pure []
  | cons group groups ih =>
      have here := each group List.mem_cons_self
      have side : ∀ ns, (∀ n ∈ ns, n ∈ group.nodes) → Frameless (groupContent walk e ns) := by
        intro ns part
        exact (Frameless.all fun n member => here n (part n member) _).bind fun _ => .pure _
      have terms := side group.terms fun n member => List.mem_append_left _ member
      have definitions := side group.definitions fun n member => List.mem_append_right _ member
      have rest := ih fun g member => each g (List.mem_cons_of_mem _ member)
      exact terms.bind fun _ => definitions.bind fun _ => rest.bind fun _ => .pure _

theorem freezeBase_frames (s : State) (href : Option String)
    (frames : List (List (List CellSpan))) :
    ({ s with spanFrames := frames }).freezeBase href =
      { s.freezeBase href with spanFrames := frames } := by
  unfold State.freezeBase
  split <;> rfl

end Handler

open Conversion (Frameless)
open Handler (placedLeaf)

/-- The handlers of rows and cells aside, content that sees no open tables keeps them from its
parents. -/
theorem Handlers.Registered.frameless {walk : Walk} {e : Element} {parent : Option Element}
    (each : ∀ n : Html.Node, n.Rowless → ∀ parent, Frameless (walk.nodes n parent)) {key : String}
    {handler : TagHandler} (registered : Registered key handler)
    (apart : key = "table" ∨ key ∉ Html.rowTags ∧ AllRowless e.children) :
    Frameless (Output.nodes <$> handler walk e parent) := by
  have leaf : ∀ content, Frameless (pure [placedLeaf e content]) := fun _ => .pure _
  by_cases isTable : key = "table"
  · have only : handler = Handler.table := (isTable ▸ registered).unique .table
    subst only
    intro s frames inside
    rw [Handler.run_table, Handler.run_table, if_pos inside, if_pos inside]
    exact ⟨rfl, inside⟩
  · rcases apart.resolve_left isTable with ⟨notRow, free⟩
    have below : ∀ e : Element, AllRowless e.children → Frameless (walk.children e) :=
      fun e free => .all fun n member => each n (allRowless_iff.mp free n member) _
    have children : Frameless (walk.children e) := below e free
    have marked : ∀ shape, Frameless (Output.nodes <$> Handler.marked shape walk e parent) := by
      intro shape
      rw [Handler.nodes_marked]
      exact children.after fun _ _ _ => rfl
    cases registered with
    | ignore => exact .pure []
    | passThrough => exact children
    | flow =>
        rw [Handler.nodes_flow]
        exact children.after fun _ _ _ => rfl
    | link =>
        rw [Handler.nodes_link]
        exact children.after fun _ _ _ => rfl
    | media =>
        rw [Handler.nodes_media]
        exact children.after fun _ _ _ => rfl
    | emphasis => exact marked .emphasis
    | strong => exact marked .strong
    | delete => exact marked .delete
    | base =>
        intro s frames inside
        rw [Handler.nodes_base, Conversion.run_modify, Conversion.run_modify,
          Handler.freezeBase_frames]
        exact ⟨rfl, (s.inTable_freezeBase _).trans inside⟩
    | blockquote =>
        rw [Handler.nodes_blockquote]
        exact children.after fun _ _ _ => rfl
    | lineBreak => exact leaf _
    | wordBreak => exact leaf _
    | inlineCode => exact leaf _
    | listItem =>
        rw [Handler.nodes_listItem]
        have content := below { e with children := (Handler.taskOf e).2 }
          (Handler.allRowless_taskOf free)
        exact content.after fun _ _ _ => rfl
    | list =>
        rw [Handler.nodes_list]
        exact children.after fun _ _ _ => rfl
    | definitionList =>
        rw [Handler.nodes_definitionList]
        have unwrapped := allRowless_iff.mp (Handler.allRowless_unwrapDivs free)
        have items : Frameless (Handler.groupItems walk e
            (Handler.groupFrom {} false (Handler.unwrapDivs e.children))) := by
          apply Handler.frameless_groupItems
          intro g found n member other
          rcases Handler.mem_of_mem_groupFrom found member with none | inside
          · cases none
          · exact each n (unwrapped n inside) other
        exact items.after fun _ _ _ => rfl
    | heading =>
        rw [Handler.nodes_heading]
        exact children.after fun _ _ _ => rfl
    | thematicBreak => exact leaf _
    | iframe =>
        rw [Handler.nodes_iframe]
        exact .reads fun _ _ => rfl
    | image =>
        rw [Handler.nodes_image]
        exact .reads fun _ _ => rfl
    | input =>
        rw [Handler.nodes_input]
        exact .reads fun _ _ => rfl
    | select =>
        rw [Handler.nodes_select]
        exact .pure _
    | textarea => exact leaf _
    | code => exact leaf _
    | paragraph =>
        rw [Handler.nodes_paragraph]
        exact children.after fun _ _ _ => rfl
    | quote =>
        rw [Handler.nodes_quote]
        exact children.nestedQuote.after fun _ _ _ => rfl
    | table => exact absurd rfl isTable
    | tableRow => exact absurd (by decide) notRow
    | tableCell member =>
        have part : ∀ key ∈ ["td", "th"], key ∈ Html.rowTags := by decide
        exact absurd (part key member) notRow

theorem frameless_rules {walk : Walk}
    (each : ∀ (n : Html.Node) (_ : n.Rowless) parent, Frameless (walk.nodes n parent)) :
    StepRules walk fun n act => n.Rowless → Frameless act where
  ignored _ _ _ := .pure []
  handled e parent handler _ registered free := by
    apply registered.frameless each
    apply free.imp_left
    intro named
    rw [named]
    decide
  unhandled e _ unknown free := by
    have notTable : e.tag ≠ "table" := by
      intro named
      rw [named, Handlers.find?_of_registered .table] at unknown
      cases unknown
    have inside := allRowless_iff.mp (free.resolve_left notTable).2
    exact .all fun n member => each n (inside n member) _
  root children position parent free := by
    have content : Frameless (walk.all none children) :=
      .all fun n member => each n (allRowless_iff.mp free n member) _
    rw [Handler.nodes_root]
    exact content.after fun _ _ _ => rfl
  text _ _ _ := .pure _
  comment _ _ _ := .pure _
  doctype _ _ := .pure []

/-- In a table, the content of a cell converts in the same way whatever was recorded before. -/
theorem frameless_convert {n : Html.Node} (free : n.Rowless) (parent : Option Element) :
    Frameless (Walk.nodes Handlers.standard.convert n parent) :=
  @Handlers.convert_induction (fun n act => n.Rowless → Frameless act)
    (fun _ => ⟨pure [], fun _ => .pure []⟩)
    (fun _ each => frameless_rules fun n free parent => each n parent free) n parent free

end HtmlToMarkdown
