import HtmlToMarkdown.Converter
import HtmlToMarkdown.Proofs.Pushed.Content

namespace HtmlToMarkdown

open Conversion (Yields)
open Handler (placed placedLeaf)
open Handlers (Registered standard)
open Html (Element)
open Markdown (Leaf Node Shape dropSurroundingBreaks wrap wrapNeeded)

/-- Where there is a table around, if there is one around the place, an action gives only what the
place holds. -/
def Conversion.Fills (inTable : Bool) (p : Place) (act : Conversion (List Node)) : Prop :=
  ∀ s, (inTable → s.inTable) → ∀ m ∈ (act.run s).1, p.Holds m

def Conversion.GivesSound (act : Conversion (List Node)) : Prop :=
  Yields (fun t m => m.Throughout (Node.Sound t)) act

structure Settles (n : Html.Node) (act : Conversion (List Node)) : Prop where
  sound : act.GivesSound
  fills {inTable : Bool} {p : Place} (fits : n.fits false inTable p) : act.Fills inTable p

namespace Conversion

variable {inTable : Bool} {p q : Place} {act : Conversion (List Node)}

theorem GivesSound.regular (sound : act.GivesSound) (s : State) :
    ∀ m ∈ (act.run s).1, m.Throughout Node.Regular :=
  fun m member => ((sound s).2 m member).mono fun _ => Node.Sound.regular

namespace Fills

theorem none : Fills inTable p (pure []) := fun _ _ => nofun

theorem inline {f : State → List Node} (inlined : ∀ s, ∀ m ∈ f s, m.Inline) :
    Fills inTable p (reads f) :=
  fun s _ m member => (inlined s m member).held p

theorem after {f : State → List Node → List Node} (sound : act.GivesSound)
    (fills : act.Fills inTable q)
    (made : ∀ s ns, (∀ n ∈ ns, n.Throughout Node.Regular) → (∀ n ∈ ns, q.Holds n) →
      ∀ m ∈ f s ns, p.Holds m) : Fills inTable p (act.after f) :=
  fun s around => made _ _ (sound.regular s) (fills s around)

theorem modify (fills : act.Fills inTable p) (f : State → State)
    (same : ∀ s, (f s).inTable = s.inTable) : Fills inTable p (do modify f; act) :=
  fun s around => fills (f s) (same s ▸ around)

theorem append {more : Conversion (List Node)} (fills : act.Fills inTable p)
    (same : ∀ s, (act.run s).2.inTable = s.inTable) (rest : more.Fills inTable p) :
    Fills inTable p (do return (← act) ++ (← more)) := by
  intro s around
  have still : inTable → (act.run s).2.inTable := fun inside => same s ▸ around inside
  exact List.forall_mem_append.mpr ⟨fills s around, rest _ still⟩

theorem all {walk : Walk} {parent : Option Element} {ns : List Html.Node}
    (settles : ∀ n parent, Settles n (walk.nodes n parent))
    (fits : ∀ n ∈ ns, n.fits false inTable p) : Fills inTable p (walk.all parent ns) := by
  induction ns with
  | nil => exact none
  | cons n ns ih =>
      rcases List.forall_mem_cons.mp fits with ⟨here, rest⟩
      rw [Walk.all_cons]
      exact ((settles n parent).fills here).append (fun s => ((settles n parent).sound s).1)
        (ih rest)

end Fills

end Conversion

section Handlers

open Conversion (Fills GivesSound)
open Markdown (sound_conversionInvariant)

variable {walk : Walk} (settles : ∀ n parent, Settles n (walk.nodes n parent)) {inTable : Bool}
  {p : Place} {e : Element}

theorem inline_leaf (e : Element) {content : Leaf} (phrasing : content.isPhrasing) :
    (placedLeaf e content).Inline :=
  Node.throughout_leaf.mpr phrasing

theorem inline_text (value : String) : (Node.text value).Inline := Node.throughout_leaf.mpr rfl

theorem inline_textLink (e : Element) (url value : String) :
    (placed e (.link url none) [.text value]).Inline :=
  inline_placed e rfl (List.forall_mem_singleton.mpr (inline_text value))

include settles

theorem sound_all (ns : List Html.Node) (parent : Option Element) :
    (walk.all parent ns).GivesSound :=
  Yields.all fun n _ => (settles n parent).sound

theorem fills_groupContent {covered : Bool} {ns : List Html.Node}
    (fits : ∀ n ∈ ns, n.fits false inTable (.closed covered)) :
    (Handler.groupContent walk e ns).Fills inTable (.closed covered) := by
  apply Fills.after (sound_all settles ns (some e)) (Fills.all settles fits)
  intro s ns _ settled
  have items := settled_items settled
  exact Handler.forall_unwrapSingle (fun _ _ _ whole => whole.below)
    (Markdown.settled_parent Bool.false_ne_true items) items

theorem fills_groupItems {covered : Bool} {groups : List Handler.Group}
    (fits : ∀ g ∈ groups, ∀ n ∈ g.nodes, n.fits false inTable (.closed covered)) :
    (Handler.groupItems walk e groups).Fills inTable (.closed covered) := by
  induction groups with
  | nil => exact Fills.none
  | cons group groups ih =>
      rcases List.forall_mem_cons.mp fits with ⟨here, rest⟩
      have sound : ∀ ns, (Handler.groupContent walk e ns).GivesSound := fun ns =>
        sound_conversionInvariant.groupContent fun n _ => (settles n (some e)).sound
      have both := (sound group.terms).append (sound group.definitions)
      have terms := fills_groupContent settles (e := e) fun n member =>
        here n (List.mem_append_left _ member)
      have definitions := fills_groupContent settles (e := e) fun n member =>
        here n (List.mem_append_right _ member)
      have item : Fills inTable (.closed covered) (Conversion.after (do
          return (← Handler.groupContent walk e group.terms) ++
            (← Handler.groupContent walk e group.definitions))
          fun _ ns => Handler.groupItem ns) := by
        apply Fills.after both (terms.append (fun s => (sound _ s).1) definitions)
        intro s ns _ settled
        cases ns with
        | nil => exact List.forall_mem_nil _
        | cons n ns =>
            exact List.forall_mem_singleton.mpr
              (Markdown.settled_parent Bool.false_ne_true settled)
      exact item.append (fun s => (both s).1) (ih rest)

section Roles

variable (fits : e.toNode.fits false inTable p) {role : Role}
  (same : e.role false inTable = role)

include fits same

theorem fills_content (converted : role.isAtomic = false) (apart : role.isTable = false)
    (plain : role.isListOfTerms = false) {f : State → List Node → List Node}
    (made : ∀ s ns, (∀ n ∈ ns, n.Throughout Node.Regular) → (∀ n ∈ ns, (p.inside role).Holds n) →
      ∀ m ∈ f s ns, p.Holds m) : ((walk.children e).after f).Fills inTable p := by
  have children := fits_children fits same converted
  rw [plain, apart] at children
  exact Fills.after (sound_all settles e.children (some e)) (Fills.all settles children) made

omit settles in
/-- A block that a role has room for only where there is room for all blocks. -/
theorem holds_of_role (roomy : p.admits role → p.isFree) {n : Node}
    (settled : n.Settled p.isCovered) : p.Holds n :=
  Place.holds_of_allows (Place.allows_of_isFree (roomy (admits_of_fits fits same)) _) settled

end Roles

section Shown

variable (shown : ¬ e.isIgnored) (parent : Option Element) (fits : e.toNode.fits false inTable p)

include fits

omit settles in
theorem holds_line (same : e.role false inTable = .line) (shape : Markdown.Shape)
    (whole : ¬ shape.isSplittable) {ns : List Node} (holds : ∀ n ∈ ns, (p.inside .line).Holds n) :
    ∀ m ∈ [placed e shape (dropSurroundingBreaks ns)], p.Holds m := by
  have settled : (placed e shape (dropSurroundingBreaks ns)).Settled p.isCovered :=
    settled_confined whole fun c member =>
      holds c (Markdown.mem_of_mem_dropSurroundingBreaks member)
  exact List.forall_mem_singleton.mpr (holds_of_role fits same id settled)

theorem fills_definitionList (same : e.role false inTable = .list true) :
    (Output.nodes <$> Handler.definitionList walk e parent).Fills inTable p := by
  have unwrapped := Handler.fits_unwrapDivs (fitsAll_iff.mpr (fits_children fits same rfl))
  let groups := Handler.groupFrom {} false (Handler.unwrapDivs e.children)
  have fitting : ∀ g ∈ groups, ∀ n ∈ g.nodes, n.fits false inTable (.closed p.isCovered) := by
    intro g found n member
    rcases Handler.mem_of_mem_groupFrom found member with absent | inside
    · exact absurd absent List.not_mem_nil
    · exact unwrapped n inside
  have items : Yields _ (Handler.groupItems walk e groups) :=
    sound_conversionInvariant.groupItems fun _ _ n _ => (settles n (some e)).sound
  rw [Handler.nodes_definitionList]
  apply Fills.after (fun s => ⟨(items s).1, fun m member => ((items s).2 m member).1⟩)
    (fills_groupItems settles fitting)
  intro s ns _ settled
  split
  · exact List.forall_mem_nil _
  · exact List.forall_mem_singleton.mpr (holds_of_role fits same id
      (Markdown.settled_parent Bool.false_ne_true settled))

theorem fills_listItem (same : e.role false inTable = .flow) :
    (Output.nodes <$> Handler.listItem walk e parent).Fills inTable p := by
  have task := Handler.fitsAll_taskOf (fitsAll_iff.mpr (fits_children fits same rfl))
  rw [Handler.nodes_listItem]
  apply Fills.after (sound_all settles (Handler.taskOf e).2 _)
    (Fills.all settles (fitsAll_iff.mp task))
  intro s ns regular holds
  have wrapped := Markdown.settled_wrap regular holds
  exact List.forall_mem_singleton.mpr
    (holds_of_role fits same id (Markdown.settled_parent Bool.false_ne_true wrapped))

include shown

theorem fills_table (named : Text.lower e.tag = "table") :
    (Output.nodes <$> Handler.table walk e parent).Fills inTable p := by
  intro s around
  rw [Handler.run_table]
  by_cases inside : s.inTable
  · rw [if_pos inside]
    exact List.forall_mem_singleton.mpr ((inline_leaf e rfl).held p)
  · have outside : inTable = false := eq_false_of_ne_true fun holds => inside (around holds)
    subst outside
    have same : e.role false false = .table := role_of_table shown named false
    let within : State := { s with inTable := true, spanFrames := [] :: s.spanFrames }
    -- Around the content there is a table now, whatever was around this one.
    have cells : (walk.children e).Fills true (p.inside .table) :=
      Fills.all settles (fits_children fits same rfl)
    have regular := (sound_all settles e.children (some e)).regular within
    have settled := fun spans => settled_builtTable e spans regular (cells within fun _ => rfl)
    rw [if_neg inside]
    exact List.forall_mem_singleton.mpr (holds_of_role fits same id (settled _))

end Shown

theorem fills_registered {key : String} {handler : TagHandler} (registered : Registered key handler)
    (named : Text.lower e.tag = key) (shown : ¬ e.isIgnored) (parent : Option Element)
    (fits : e.toNode.fits false inTable p) :
    (Output.nodes <$> handler walk e parent).Fills inTable p := by
  have known : ∀ (role : Role) {tags : List String}, key ∈ tags → role ≠ .table →
      (∀ tag ∈ tags, roleOf tag = role) → e.role false inTable = role :=
    fun role tags member apart same =>
      role_of_shown shown apart (named ▸ same key member) inTable
  have leaf : ∀ content : Leaf, content.isPhrasing →
      Fills inTable p (pure [placedLeaf e content]) := fun content phrasing s _ =>
    List.forall_mem_singleton.mpr ((inline_leaf e phrasing).held p)
  cases registered with
  | ignore => exact Fills.none
  | passThrough member =>
      have role := known .through member (by decide) roleOf_passThrough
      exact fills_content settles fits role rfl rfl rfl fun _ _ _ holds => holds
  | flow member =>
      have role := known .flow member (by decide) roleOf_flow
      rw [Handler.nodes_flow]
      exact fills_content settles fits role rfl rfl rfl fun _ _ regular holds m inside =>
        holds_of_role fits role id (Markdown.settled_wrap regular holds m inside)
  | link =>
      have role := known .cover (List.mem_singleton_self "a") (by decide) (by decide)
      rw [Handler.nodes_link]
      exact fills_content settles fits role rfl rfl rfl fun _ _ _ holds =>
        List.forall_mem_singleton.mpr (holds_cover e rfl holds)
  | media member =>
      have role := known .through member (by decide) (by decide)
      rw [Handler.nodes_media]
      refine fills_content settles fits role rfl rfl rfl fun s ns _ holds => ?_
      split
      · exact holds
      next bare =>
        -- A link is made only where there is no block, so nothing has to be pushed down into it.
        rw [Bool.or_eq_true, not_or] at bare
        have inlined := (Markdown.not_wrapNeeded_iff ns).mp bare.2
        have shown := Handler.forall_shownMedia e s (fun _ _ => inline_leaf e rfl) inlined
        exact List.forall_mem_singleton.mpr ((inline_placed e rfl shown).held p)
  | emphasis member =>
      have role := known .mark member (by decide) (by decide)
      rw [Handler.emphasis, Handler.nodes_marked]
      exact fills_content settles fits role rfl rfl rfl fun _ _ _ holds =>
        List.forall_mem_singleton.mpr (holds_mark e rfl Bool.false_ne_true holds)
  | strong member =>
      have role := known .mark member (by decide) (by decide)
      rw [Handler.strong, Handler.nodes_marked]
      exact fills_content settles fits role rfl rfl rfl fun _ _ _ holds =>
        List.forall_mem_singleton.mpr (holds_mark e rfl Bool.false_ne_true holds)
  | delete member =>
      have role := known .cover member (by decide) (by decide)
      rw [Handler.delete, Handler.nodes_marked]
      exact fills_content settles fits role rfl rfl rfl fun _ _ _ holds =>
        List.forall_mem_singleton.mpr (holds_cover e rfl holds)
  | base => exact Fills.none.modify _ fun s => s.inTable_freezeBase _
  | blockquote =>
      have role := known .flow (List.mem_singleton_self "blockquote") (by decide)
        (by decide +kernel)
      rw [Handler.nodes_blockquote]
      refine fills_content settles fits role rfl rfl rfl fun _ ns regular holds => ?_
      have wrapped := Markdown.settled_wrap regular holds
      exact List.forall_mem_singleton.mpr
        (holds_of_role fits role id (Markdown.settled_parent Bool.false_ne_true wrapped))
  | lineBreak => exact leaf .lineBreak rfl
  | wordBreak => exact leaf _ rfl
  | inlineCode => exact leaf _ rfl
  | listItem member =>
      exact fills_listItem settles parent fits
        (known .flow member (by decide) (by decide +kernel))
  | list member =>
      have role := known (.list false) member (by decide) (by decide)
      rw [Handler.nodes_list]
      exact fills_content settles fits role rfl rfl rfl fun _ _ _ settled =>
        List.forall_mem_singleton.mpr (holds_of_role fits role id
          (Markdown.settled_parent Bool.false_ne_true (settled_items settled)))
  | definitionList =>
      exact fills_definitionList settles parent fits
        (known (.list true) (List.mem_singleton_self "dl") (by decide) (by decide))
  | heading member =>
      have role := known .line member (by decide) (by decide)
      rw [Handler.nodes_heading]
      exact fills_content settles fits role rfl rfl rfl fun _ _ _ holds =>
        holds_line fits role (.heading _) Bool.false_ne_true holds
  | thematicBreak =>
      have role := known .solid (List.mem_singleton_self "hr") (by decide) (by decide +kernel)
      exact fun s _ => List.forall_mem_singleton.mpr
        (holds_of_role fits role id (Markdown.settled_leaf _ _ _))
  | iframe =>
      rw [Handler.nodes_iframe]
      apply Fills.inline
      intro s
      split
      · exact List.forall_mem_singleton.mpr (inline_textLink e _ _)
      · exact List.forall_mem_nil _
  | image =>
      rw [Handler.nodes_image]
      exact Fills.inline fun s => List.forall_mem_singleton.mpr (inline_leaf e rfl)
  | input =>
      rw [Handler.nodes_input]
      exact Fills.inline fun s => Handler.forall_inputOutput e s (fun _ => inline_leaf e)
        inline_text (inline_textLink e)
  | select =>
      rw [Handler.nodes_select]
      split
      · exact Fills.none
      · exact leaf _ rfl
  | textarea => exact leaf _ rfl
  | code member =>
      have role := known .solid member (by decide) (by decide +kernel)
      exact fun s _ => List.forall_mem_singleton.mpr
        (holds_of_role fits role id (Markdown.settled_leaf _ _ _))
  | paragraph member =>
      have role := known .line member (by decide) (by decide)
      rw [Handler.nodes_paragraph]
      refine fills_content settles fits role rfl rfl rfl fun _ ns _ holds => ?_
      split
      · exact List.forall_mem_nil _
      · exact holds_line fits role .paragraph Bool.false_ne_true holds
  | quote =>
      have role := known .through (List.mem_singleton_self "q") (by decide) (by decide +kernel)
      have sound : (Conversion.nestedQuote (walk.children e)).GivesSound := fun s =>
        sound_all settles e.children (some e) { s with quoteDepth := s.quoteDepth + 1 }
      have inside : (walk.children e).Fills inTable p :=
        Fills.all settles (fits_children fits role rfl)
      have quoted : (Conversion.nestedQuote (walk.children e)).Fills inTable p :=
        fun s around => inside { s with quoteDepth := s.quoteDepth + 1 } around
      rw [Handler.nodes_quote]
      apply Fills.after sound quoted
      intro s ns _ holds
      exact Handler.forall_quoteWith _ (fun value => (inline_text value).held p)
        (fun _ other _ here => here.retext other) holds
  | table => exact fills_table settles shown parent fits named
  | tableRow =>
      have role := known .row (List.mem_singleton_self "tr") (by decide) (by decide)
      rw [Handler.nodes_tableRow]
      apply Fills.modify _ _ State.inTable_startSpanRow
      exact fills_content settles fits role rfl rfl rfl fun _ _ _ holds =>
        List.forall_mem_singleton.mpr (Place.holds_of_allows (admits_of_fits fits role)
          (Markdown.settled_parent Bool.false_ne_true (settled_cells holds)))
  | tableCell member =>
      have role := known .cell member (by decide) (by decide)
      rw [Handler.nodes_tableCell]
      apply Fills.modify _ _ fun s => s.inTable_recordSpan _
      exact fills_content settles fits role rfl rfl rfl fun _ _ _ holds =>
        List.forall_mem_singleton.mpr (Place.holds_of_allows (admits_of_fits fits role)
          (settled_confined Bool.false_ne_true holds))

theorem sound_rules : Handlers.StepRules walk fun _ act => act.GivesSound :=
  sound_conversionInvariant.stepRules_anywhere fun n parent => (settles n parent).sound

theorem settles_rules : Handlers.StepRules walk Settles where
  ignored e _ := ⟨Yields.none, fun _ => Fills.none⟩
  handled e parent handler shown registered :=
    ⟨(sound_rules settles).handled e parent handler shown registered,
      fills_registered settles registered rfl shown parent⟩
  unhandled e shown unknown := by
    refine ⟨sound_all settles e.children (some e), fun {inTable p} fits => ?_⟩
    have role : e.role false inTable = .through :=
      role_of_shown shown (by decide) (roleOf_unknown unknown) inTable
    exact Fills.all settles (fits_children fits role rfl)
  root children position parent := by
    refine ⟨(sound_rules settles).root children position parent, fun {inTable p} fits => ?_⟩
    rcases Bool.and_eq_true_iff.mp fits with ⟨free, inside⟩
    rw [Handler.nodes_root]
    apply Fills.after (sound_all settles children none)
      (Fills.all settles (fitsAll_iff.mp inside))
    intro s ns regular holds
    have settled := Markdown.settled_unlessInline s.options.document regular holds
    exact List.forall_mem_singleton.mpr (Place.holds_of_allows (Place.allows_of_isFree free _)
      (Markdown.settled_parent Bool.false_ne_true settled))
  text value position :=
    ⟨(sound_rules settles).text value position, fun _ s _ =>
      List.forall_mem_singleton.mpr (Node.Inline.held (Node.throughout_leaf.mpr rfl) _)⟩
  comment value position :=
    ⟨(sound_rules settles).comment value position, fun _ s _ =>
      List.forall_mem_singleton.mpr (Node.Inline.held (Node.throughout_leaf.mpr rfl) _)⟩
  doctype _ := ⟨Yields.none, fun _ => Fills.none⟩

end Handlers

theorem settles_convert (n : Html.Node) (parent : Option Element) :
    Settles n (Walk.nodes standard.convert n parent) :=
  Handlers.convert_induction (fun _ => ⟨pure [], Yields.none, fun _ => Conversion.Fills.none⟩)
    (fun _ settles => settles_rules settles) n parent

section Root

variable (options : Options) {children : List Html.Node} {position : Option Position}

theorem pushed_walkTree [UrlReader] (room : (Html.Node.root children position).hasRoom) :
    (walkTree options standard (.root children position)).Pushed := by
  rw [Html.Node.hasRoom, Html.Node.fits, Bool.and_eq_true] at room
  have fits := fitsAll_iff.mp room.2
  have regular := (sound_all settles_convert children none).regular
    (State.start options (.root children position))
  have fills : (Walk.all standard.convert none children).Fills false (.open false) :=
    Conversion.Fills.all settles_convert fits
  have holds := fills (State.start options (.root children position)) nofun
  rw [walkTree_root]
  exact Markdown.pushed_parent_iff.mpr
    ⟨nofun, Markdown.settled_unlessInline _ regular holds⟩

/-- In a document that has room for all its blocks, every link and deletion is pushed down into the
blocks in it. -/
theorem pushed_convert [UrlReader] (room : (Html.Node.root children position).hasRoom) :
    (convert options standard (.root children position)).Pushed := by
  have thinned := Html.thinned_minify options.newlines (.root children position)
  have small : ∃ small, (Html.Node.root children position).minify options.newlines =
      .root small position := ⟨_, rfl⟩
  rcases small with ⟨small, minified⟩
  rw [minified] at thinned
  rw [convert, minified]
  exact Markdown.pushed_normalize (pushed_walkTree options (thinned.fits room))

def linkingPage : Html.Node :=
  let element (tag : String) (children : List Html.Node) : Html.Node :=
    .element tag OrderedMap.empty children none
  .root [
    element "div" [element "a" [.text "a" none, element "p" [.text "b" none],
      element "ul" [element "li" [element "blockquote" [.text "c" none]]],
      element "table" [element "tr" [element "td" [element "em" [.text "d" none]]]]]],
    element "p" [element "em" [element "a" [.text "e" none]]],
    element "table" [element "tr" [element "td" [element "div" [
      element "del" [element "h1" [.text "f" none]]]]]]] none

theorem pushed_convert_linkingPage :
    linkingPage.hasRoom ∧ (convert {} standard linkingPage).Pushed :=
  ⟨by decide, pushed_convert {} (by decide)⟩

end Root

section Kept

def paragraphElement : Element := ⟨"p", OrderedMap.empty, [.text "x" none], none⟩

def linkElement : Element := ⟨"a", OrderedMap.empty, [paragraphElement.toNode], none⟩

def emphasisElement : Element := ⟨"em", OrderedMap.empty, [linkElement.toNode], none⟩

def emphasizedLink (url : String) : Node :=
  .plain .emphasis [.plain (.link url none) [.paragraph [.text "x"]]]

theorem nodes_emphasisElement :
    Walk.nodes standard.convert emphasisElement.toNode none =
      Conversion.reads fun s => [emphasizedLink (s.resolve none)] := by
  have text : ∀ parent, Walk.nodes standard.convert (.text "x" none) parent =
      pure [.text "x"] := by
    intro parent
    rw [Walk.nodes, Handlers.convert_eq,
      Handlers.step_of_kind _ parent rfl Handlers.findKind?_text]
    rfl
  have paragraph : ∀ parent, Walk.nodes standard.convert paragraphElement.toNode parent =
      pure [.paragraph [.text "x"]] := by
    intro parent
    have inside : Walk.children standard.convert paragraphElement = pure [.text "x"] :=
      (Walk.all_singleton _ _ _).trans (text _)
    rw [nodes_convert (e := paragraphElement) Bool.false_ne_true (.paragraph (by decide)),
      Handler.nodes_paragraph, inside]
    rfl
  have link : ∀ parent, Walk.nodes standard.convert linkElement.toNode parent =
      Conversion.reads fun s =>
        [.plain (.link (s.resolve none) none) [.paragraph [.text "x"]]] := by
    intro parent
    have inside : Walk.children standard.convert linkElement = pure [.paragraph [.text "x"]] :=
      (Walk.all_singleton _ _ _).trans (paragraph _)
    rw [nodes_convert (e := linkElement) Bool.false_ne_true .link, Handler.nodes_link, inside]
    rfl
  have inside : Walk.children standard.convert emphasisElement = Conversion.reads fun s =>
      [.plain (.link (s.resolve none) none) [.paragraph [.text "x"]]] :=
    (Walk.all_singleton _ _ _).trans (link _)
  rw [nodes_convert (e := emphasisElement) Bool.false_ne_true (.emphasis (by decide)),
    Handler.emphasis, Handler.nodes_marked, inside]
  rfl

theorem wrap_emphasizedLink (url : String) :
    wrap [emphasizedLink url] = [.paragraph [emphasizedLink url]] := by
  have whole : Markdown.split (emphasizedLink url) = [emphasizedLink url] := by
    rw [emphasizedLink, Node.plain, Markdown.split]
    exact if_neg Bool.false_ne_true
  have flat : Markdown.flatten [emphasizedLink url] = [emphasizedLink url] := by
    rw [Markdown.flatten, List.flatMap_singleton, whole]
  rw [wrap, flat]
  rfl

/-- A link in emphasized text is not split, so the paragraph in it stays. -/
theorem not_pushed_emphasisElement :
    ¬ (convert {} standard (.root [emphasisElement.toNode] none)).Pushed := by
  have result : convert {} standard (.root [emphasisElement.toNode] none) =
      .plain .root [.paragraph [emphasizedLink ""]] := by
    have walked : walkTree {} standard (.root [emphasisElement.toNode] none) =
        .plain .root (wrap [emphasizedLink ""]) := by
      rw [walkTree_root, Walk.all_singleton, nodes_emphasisElement]
      rfl
    rw [wrap_emphasizedLink] at walked
    exact congrArg Node.normalize walked
  rw [result]
  intro pushed
  have link : (Node.plain (.link "" none) [.paragraph [.text "x"]]).Unbroken := by
    apply pushed
    simp [emphasizedLink, Node.plain, Node.paragraph, Node.subtree, Markdown.subtreeAll]
  exact Bool.false_ne_true (link rfl (.paragraph [.text "x"]) List.mem_cons_self)

end Kept

end HtmlToMarkdown
