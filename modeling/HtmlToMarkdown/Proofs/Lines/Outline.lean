import HtmlToMarkdown.Proofs.Lines.Source
import HtmlToMarkdown.Proofs.Pushed.Conversion

namespace HtmlToMarkdown

open Conversion (GivesSound)
open Handler (placed placedLeaf)
open Handlers (Registered standard)
open Html (Element)
open Markdown (Node Shape)

section Around

theorem State.Scoped.around {s t : State} (same : s.Scoped t) : t.around = s.around := by
  rw [State.around, State.around, same.options, same.elements, same.quoteDepth, same.inTable]

theorem around_rules :
    ActionRules (fun _ _ => True) fun _ act => ∀ s : State, (act.run s).2.around = s.around where
  pure _ _ := rfl
  bind first rest s := (rest _ _).trans (first s)
  reads _ _ := rfl
  input _ _ _ _ := rfl
  base e _ _ s := (State.Scoped.freezeBase s (e.attribute? "href")).around
  row s := (State.Scoped.startSpanRow s).around
  cell span s := (State.Scoped.recordSpan s span).around
  nestedQuote holds s := by
    have same := holds { s with quoteDepth := s.quoteDepth + 1 }
    simp only [State.around, Around.mk.injEq] at same
    rw [Conversion.run_nestedQuote]
    simp [State.around, same]
  tableScope holds s := by
    have same := holds { s with inTable := true, spanFrames := [] :: s.spanFrames }
    simp only [State.around, Around.mk.injEq] at same
    rw [Conversion.run_tableScope]
    simp [State.around, same]

theorem tagged (n : Html.Node) : n.Throughout (Html.Node.Tagged fun _ _ => True) :=
  Html.Node.Throughout.of_forall (fun n => by cases n <;> trivial) n

end Around

structure Outlines (n : Html.Node) (act : Conversion (List Node)) : Prop where
  sound : act.GivesSound
  around (s : State) : (act.run s).2.around = s.around
  depicts (s : State) : Depicts (n.sketch s.around) (act.run s).1

section Leaves

variable {e : Element} {n : Node} {ns : List Node}

theorem depicts_inline (inlined : ∀ n ∈ ns, n.Inline) : Depicts (ns.map Node.stroke) ns := by
  induction ns with
  | nil => exact .nil
  | cons n ns ih =>
      obtain ⟨here, rest⟩ := List.forall_mem_cons.mp inlined
      refine Sketches.append (.one ?_) (ih rest)
      unfold Node.stroke
      split
      next blank => exact ⟨blank, here⟩
      next filled =>
        split
        next isBreak => exact ⟨isBreak, here⟩
        next whole =>
          rw [if_pos here.self]
          exact ⟨filled, whole, here⟩

theorem depicts_blocks (blocks : ∀ n ∈ ns, ¬ n.isPhrasing) : Depicts [.block] ns :=
  .single blocks nofun

theorem depicts_block (block : ¬ n.isPhrasing) : Depicts [.block] [n] := .one block

theorem depicts_text (value : String) (position : Option Position) :
    Depicts [textStroke value] [.leaf (.text value) { position }] := by
  have inlined : (Node.leaf (.text value) { position }).Inline := Node.throughout_leaf.mpr rfl
  refine .one ?_
  unfold textStroke
  split
  next blank => exact ⟨blank, inlined⟩
  next filled => exact ⟨filled, Bool.false_ne_true, inlined⟩

theorem depicts_placed {content : List Stroke} (depicts : Depicts content ns) {shape : Shape}
    (phrasing : shape.isPhrasing) :
    Depicts [if content.all Stroke.isInline then .ink else .other] [placed e shape ns] := by
  refine .one ?_
  split
  next inline =>
    exact ⟨Bool.false_ne_true, Bool.false_ne_true,
      inline_placed e phrasing (depicts.inlined inline)⟩
  next => exact ⟨Bool.false_ne_true, Bool.false_ne_true⟩

open Handler (choiceLinks inputOutput)

theorem strokes_choiceLinks (s t : State) (choices : List Handler.Choice) :
    (choiceLinks s e choices).map Node.stroke = (choiceLinks t e choices).map Node.stroke := by
  induction choices with
  | nil => rfl
  | cons choice choices ih =>
      cases choices with
      | nil => rfl
      | cons next choices =>
          simp only [choiceLinks, List.intercalate, List.map_cons, List.intersperse_cons_cons,
            List.flatten_cons, List.singleton_append] at ih ⊢
          rw [ih]
          rfl

/-- The base makes no difference to the strokes of an input. -/
theorem strokes_inputOutput (s : State) (e : Element) :
    (Output.nodes (inputOutput s.around.state e)).map Node.stroke =
      (Output.nodes (inputOutput s e)).map Node.stroke := by
  simp only [inputOutput]
  split
  · rfl
  · split
    · rfl
    · split
      · unfold Handler.imageInput
        cases (e.attribute? "alt").or (Handler.inputValue e) <;> rfl
      · have same : Handler.inputChoices s.around.state e = Handler.inputChoices s e := rfl
        unfold Handler.textInput
        rw [same]
        split
        · rfl
        · split
          · exact strokes_choiceLinks _ _ _
          · rfl

end Leaves

section Outlined

variable {walk : Walk} (outlines : ∀ n parent, Outlines n (walk.nodes n parent)) {e : Element}

include outlines

theorem around_all (ns : List Html.Node) (parent : Option Element) (s : State) :
    ((walk.all parent ns).run s).2.around = s.around :=
  around_rules.all (fun n _ => (outlines n parent).around) s

theorem givesSound_all (ns : List Html.Node) (parent : Option Element) :
    (walk.all parent ns).GivesSound :=
  Conversion.Yields.all fun n _ => (outlines n parent).sound

theorem depicts_all (ns : List Html.Node) (parent : Option Element) (s : State) :
    Depicts (sketchOf s.around ns) ((walk.all parent ns).run s).1 := by
  induction ns generalizing s with
  | nil => exact .nil
  | cons n ns ih =>
      have rest := ih ((walk.nodes n parent).run s).2
      rw [(outlines n parent).around] at rest
      rw [Walk.all_cons, Conversion.run_append]
      exact ((outlines n parent).depicts s).append rest

theorem depicts_children (apart : Text.lower e.tag ≠ "q" ∧ Text.lower e.tag ≠ "table")
    (s : State) :
    Depicts (sketchOf (s.around.inside e) e.children) ((walk.children e).run s).1 := by
  rw [inside_of_apart apart]
  exact depicts_all outlines e.children (some e) s

section Registered

variable {s : State} (parent : Option Element)

theorem depicts_through (role : e.role false s.around.inTable = .through)
    (apart : Text.lower e.tag ∉ ["q", "table", "audio", "video"]) :
    Depicts (e.toNode.sketch s.around) ((walk.children e).run s).1 := by
  simp only [List.mem_cons, List.not_mem_nil, or_false, not_or] at apart
  rw [sketch_of_through role (by simp [apart])]
  exact depicts_children outlines ⟨apart.1, apart.2.1⟩ s

theorem depicts_media (role : e.role false s.around.inTable = .through)
    (named : Text.lower e.tag ∈ ["audio", "video"]) :
    Depicts (e.toNode.sketch s.around)
      ((Output.nodes <$> Handler.media walk e parent).run s).1 := by
  have apart : Text.lower e.tag ≠ "q" ∧ Text.lower e.tag ≠ "table" := by
    constructor <;> intro same <;> simp [same] at named
  have content := depicts_children outlines (e := e) apart s
  rw [sketch_of_media role named, Handler.nodes_media, Conversion.run_after]
  split
  · exact .skip Stroke.noConfusion (content.loosen fun n fits => fits)
  next bare =>
    rw [Bool.or_eq_true, not_or] at bare
    have inlined := (Markdown.not_wrapNeeded_iff _).mp bare.2
    have shown := fun s => Handler.forall_shownMedia e s (fun _ _ => inline_leaf e rfl) inlined
    exact Sketches.append (.one ⟨Bool.false_ne_true, Bool.false_ne_true,
      inline_placed e rfl (shown _)⟩) (Sketches.loosened _)

theorem depicts_quote (role : e.role false s.around.inTable = .through)
    (named : Text.lower e.tag = "q") :
    Depicts (e.toNode.sketch s.around)
      ((Output.nodes <$> Handler.quote walk e parent).run s).1 := by
  let within : State := { s with quoteDepth := s.quoteDepth + 1 }
  have inside : s.around.inside e = within.around := by
    simp [Around.inside, named, State.around, within]
  have content := depicts_all outlines e.children (some e) within
  have kept := around_all outlines e.children (some e) within
  simp only [State.around, Around.mk.injEq] at kept
  rw [sketch_of_quote role named, inside, Handler.nodes_quote, Conversion.run_after,
    Conversion.run_nestedQuote]
  simp only [Walk.children, within, kept]
  exact content.quoteWith _

omit outlines in
theorem depicts_table (shown : ¬ e.isIgnored) (named : Text.lower e.tag = "table") :
    Depicts (e.toNode.sketch s.around)
      ((Output.nodes <$> Handler.table walk e parent).run s).1 := by
  rw [Handler.run_table]
  by_cases inside : s.inTable
  · have role : e.role false s.around.inTable = .atom :=
      (role_of_table shown named s.inTable).trans (if_pos inside)
    rw [if_pos inside, sketch_of_atom role shown, named]
    exact depicts_text _ _
  · have role : e.role false s.around.inTable = .table :=
      (role_of_table shown named s.inTable).trans (if_neg inside)
    rw [if_neg inside, sketch_of_block (by simp [role])]
    exact depicts_block Bool.false_ne_true

theorem depicts_registered {key : String} {handler : TagHandler}
    (registered : Registered key handler) (named : Text.lower e.tag = key)
    (shown : ¬ e.isIgnored) :
    Depicts (e.toNode.sketch s.around) ((Output.nodes <$> handler walk e parent).run s).1 := by
  have known : ∀ (role : Role) {tags : List String}, key ∈ tags → role ≠ .table →
      (∀ tag ∈ tags, roleOf tag = role) → e.role false s.around.inTable = role :=
    fun role tags member apart same => role_of_shown shown apart (named ▸ same key member) _
  have content : ∀ {tags : List String}, key ∈ tags → (∀ tag ∈ tags, tag ≠ "q" ∧ tag ≠ "table") →
      Depicts (sketchOf (s.around.inside e) e.children) ((walk.children e).run s).1 :=
    fun member apart => depicts_children outlines (named ▸ apart key member) s
  have atom : ∀ ms, e.role false s.around.inTable = .atom → e.strokesOf s.around key = ms →
      e.toNode.sketch s.around = ms :=
    fun ms role same => (sketch_of_atom role shown).trans (named ▸ same)
  cases registered with
  | ignore member =>
      have role := known .atom member (by decide) roleOf_ignored
      have none : e.strokesOf s.around key = [] := by simp [Element.strokesOf, member]
      rw [atom [] role none]
      exact .nil
  | passThrough member =>
      have role := known .through member (by decide) roleOf_passThrough
      exact depicts_through outlines role (named ▸ apart_of_passThrough key member)
  | flow member =>
      have role := known .flow member (by decide) roleOf_flow
      rw [sketch_of_block (by simp [role]), Handler.nodes_flow]
      exact depicts_blocks fun _ => Markdown.not_isPhrasing_of_mem_wrap
  | link =>
      have role := known .cover (List.mem_singleton_self "a") (by decide) (by decide)
      rw [sketch_of_cover (by simp [role]), Handler.nodes_link]
      exact depicts_placed (content (List.mem_singleton_self "a") (by decide)) rfl
  | media member =>
      have role := known .through member (by decide) (by decide)
      exact depicts_media outlines parent role (named ▸ member)
  | emphasis member =>
      have role := known .mark member (by decide) (by decide)
      rw [sketch_of_cover (by simp [role]), Handler.emphasis, Handler.nodes_marked]
      exact depicts_placed (content member (by decide)) rfl
  | strong member =>
      have role := known .mark member (by decide) (by decide)
      rw [sketch_of_cover (by simp [role]), Handler.strong, Handler.nodes_marked]
      exact depicts_placed (content member (by decide)) rfl
  | delete member =>
      have role := known .cover member (by decide) (by decide)
      rw [sketch_of_cover (by simp [role]), Handler.delete, Handler.nodes_marked]
      exact depicts_placed (content member (by decide)) rfl
  | base =>
      have role := known .atom (List.mem_singleton_self "base") (by decide) (by decide +kernel)
      rw [atom [] role rfl]
      exact .nil
  | blockquote =>
      have role := known .flow (List.mem_singleton_self "blockquote") (by decide)
        (by decide +kernel)
      rw [sketch_of_block (by simp [role]), Handler.nodes_blockquote]
      exact depicts_block Bool.false_ne_true
  | lineBreak =>
      have role := known .atom (List.mem_singleton_self "br") (by decide) (by decide +kernel)
      rw [atom [.feed] role rfl]
      exact .one ⟨rfl, inline_leaf e rfl⟩
  | wordBreak =>
      have role := known .atom (List.mem_singleton_self "wbr") (by decide) (by decide +kernel)
      rw [atom [.ink] role rfl]
      exact .one ⟨ne_of_beq_false rfl, Bool.false_ne_true, inline_leaf e rfl⟩
  | inlineCode member =>
      have role := known .atom member (by decide) (by decide +kernel)
      have plain : ∀ tag ∈ ["code", "kbd", "samp", "tt", "var"],
          e.strokesOf s.around tag = [.ink] := by
        simp only [List.forall_mem_cons]
        exact ⟨rfl, rfl, rfl, rfl, rfl, List.forall_mem_nil _⟩
      rw [atom [.ink] role (plain key member)]
      exact .one ⟨Bool.false_ne_true, Bool.false_ne_true, inline_leaf e rfl⟩
  | listItem member =>
      have role := known .flow member (by decide) (by decide +kernel)
      rw [sketch_of_block (by simp [role]), Handler.nodes_listItem]
      exact depicts_block Bool.false_ne_true
  | list member =>
      have role := known (.list false) member (by decide) (by decide)
      rw [sketch_of_block (by simp [role]), Handler.nodes_list]
      exact depicts_block Bool.false_ne_true
  | definitionList =>
      have role := known (.list true) (List.mem_singleton_self "dl") (by decide) (by decide)
      rw [sketch_of_block (by simp [role]), Handler.nodes_definitionList, Conversion.run_after]
      apply depicts_blocks
      split
      · exact List.forall_mem_nil _
      · exact List.forall_mem_singleton.mpr Bool.false_ne_true
  | heading member =>
      have role := known .line member (by decide) (by decide)
      rw [sketch_of_block (by simp [role]), Handler.nodes_heading]
      exact depicts_block Bool.false_ne_true
  | thematicBreak =>
      have role := known .solid (List.mem_singleton_self "hr") (by decide) (by decide +kernel)
      rw [sketch_of_block (by simp [role])]
      exact depicts_block Bool.false_ne_true
  | iframe =>
      have role := known .atom (List.mem_singleton_self "iframe") (by decide) (by decide +kernel)
      rw [atom _ role rfl, Handler.nodes_iframe, Conversion.run_reads]
      change Depicts (if (e.attribute? "src").isSome && (e.attribute? "title").isSome then [.ink]
        else []) _
      cases e.attribute? "src" <;> cases e.attribute? "title"
      case some.some => exact .one ⟨Bool.false_ne_true, Bool.false_ne_true, inline_textLink e _ _⟩
      all_goals exact .nil
  | image member =>
      have role := known .atom member (by decide) (by decide +kernel)
      have plain : ∀ tag ∈ ["image", "img"], e.strokesOf s.around tag = [.ink] := by
        simp only [List.forall_mem_cons]
        exact ⟨rfl, rfl, List.forall_mem_nil _⟩
      rw [atom [.ink] role (plain key member)]
      exact .one ⟨Bool.false_ne_true, Bool.false_ne_true, inline_leaf e rfl⟩
  | input =>
      have role := known .atom (List.mem_singleton_self "input") (by decide) (by decide +kernel)
      have inlined := Handler.forall_inputOutput e s (fun _ => inline_leaf e) inline_text
        (inline_textLink e)
      rw [atom _ role (strokes_inputOutput s e), Handler.nodes_input]
      exact depicts_inline inlined
  | select =>
      have role := known .atom (List.mem_singleton_self "select") (by decide) (by decide +kernel)
      rw [atom _ role rfl, Handler.nodes_select]
      change Depicts (if (Handler.shownChoices e e).isEmpty then [] else _) _
      by_cases none : (Handler.shownChoices e e).isEmpty
      · rw [if_pos none, if_pos none]
        exact .nil
      · rw [if_neg none, if_neg none]
        exact depicts_text _ _
  | textarea =>
      have role := known .atom (List.mem_singleton_self "textarea") (by decide)
        (by decide +kernel)
      rw [atom [textStroke e.toText] role rfl]
      exact depicts_text _ _
  | code member =>
      have role := known .solid member (by decide) (by decide +kernel)
      rw [sketch_of_block (by simp [role])]
      exact depicts_block Bool.false_ne_true
  | paragraph member =>
      have role := known .line member (by decide) (by decide)
      rw [sketch_of_block (by simp [role]), Handler.nodes_paragraph, Conversion.run_after]
      apply depicts_blocks
      split
      · exact List.forall_mem_nil _
      · exact List.forall_mem_singleton.mpr Bool.false_ne_true
  | quote =>
      have role := known .through (List.mem_singleton_self "q") (by decide) (by decide +kernel)
      exact depicts_quote outlines parent role named
  | table => exact depicts_table parent shown named
  | tableRow =>
      have role := known .row (List.mem_singleton_self "tr") (by decide) (by decide)
      rw [sketch_of_block (by simp [role]), Handler.nodes_tableRow]
      exact depicts_block Bool.false_ne_true
  | tableCell member =>
      have role := known .cell member (by decide) (by decide)
      rw [sketch_of_block (by simp [role]), Handler.nodes_tableCell]
      exact depicts_block Bool.false_ne_true

end Registered

omit outlines in
/-- An element without a handler is none that has one. -/
theorem lower_of_unknown {key : String} {handler : TagHandler}
    (unknown : standard.find? e.tag = none) (registered : Registered key handler) :
    Text.lower e.tag ≠ key := by
  intro same
  have found := Handlers.find?_of_lower (same ▸ registered)
  exact absurd (found.symm.trans unknown) (Option.some_ne_none handler)

theorem depicts_rules :
    Handlers.StepRules walk fun n act => ∀ s, Depicts (n.sketch s.around) (act.run s).1 where
  ignored e marked s := by
    rw [sketch_of_ignored marked]
    exact .nil
  handled e parent handler shown registered s :=
    depicts_registered outlines parent registered rfl shown
  unhandled e shown unknown s := by
    have role := role_of_shown shown (by decide) (roleOf_unknown unknown) s.around.inTable
    refine depicts_through outlines role ?_
    simp only [List.mem_cons, List.not_mem_nil, or_false, not_or]
    exact ⟨lower_of_unknown unknown .quote, lower_of_unknown unknown .table,
      lower_of_unknown unknown (.media (by decide)), lower_of_unknown unknown (.media (by decide))⟩
  root children position parent s := depicts_block Bool.false_ne_true
  text value position s := depicts_text value position
  comment value position s :=
    .one ⟨Bool.false_ne_true, Bool.false_ne_true, Node.throughout_leaf.mpr rfl⟩
  doctype position s := .nil

theorem outlines_rules : Handlers.StepRules walk Outlines :=
  let around := around_rules.stepRules fun n _ parent => (outlines n parent).around
  let sound := Markdown.sound_conversionInvariant.stepRules_anywhere fun n parent =>
    (outlines n parent).sound
  ((sound.and around).and (depicts_rules outlines)).mono fun n _ holds =>
    ⟨holds.1.1, holds.1.2 (tagged n), holds.2⟩

end Outlined

section Drawn

/-- Something that can be seen for each stroke that asks for it, and nothing for the others. -/
def Stroke.drawn : Stroke → List Node
  | ink => [.leaf (.inlineCode "") {}]
  | _ => []

theorem depicts_drawn (ms : List Stroke) : Depicts ms (ms.flatMap Stroke.drawn) := by
  induction ms with
  | nil => exact .nil
  | cons m ms ih =>
      cases m with
      | ink =>
          exact .append (.one ⟨Bool.false_ne_true, Bool.false_ne_true,
            Node.throughout_leaf.mpr rfl⟩) ih
      | _ => exact .skip nofun ih

def drawing (n : Html.Node) : Conversion (List Node) :=
  Conversion.reads fun s => (n.sketch s.around).flatMap Stroke.drawn

theorem exists_of_mem_drawn {ms : List Stroke} {n : Node} (member : n ∈ ms.flatMap Stroke.drawn) :
    n = .leaf (.inlineCode "") {} := by
  obtain ⟨m, -, here⟩ := List.mem_flatMap.mp member
  cases m with
  | ink => exact List.mem_singleton.mp here
  | _ => cases here

theorem outlines_drawing (n : Html.Node) : Outlines n (drawing n) where
  sound := Conversion.Yields.reads fun _ t _ member =>
    exists_of_mem_drawn member ▸
      Markdown.sound_conversionInvariant.leaf t _ ConversionInvariant.unplaced
  around _ := rfl
  depicts _ := depicts_drawn _

end Drawn

end HtmlToMarkdown
