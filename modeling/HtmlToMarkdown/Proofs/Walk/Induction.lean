import HtmlToMarkdown.Conversion.Walk
import HtmlToMarkdown.Proofs.Walk.Registry

/-!
Induction over a conversion. The handlers of a converter ask the walk only for nodes smaller than
their own, so the bound that makes the walk end is never felt: a conversion is one step whose walk
is the conversion itself. What a step makes hold of a node, given that it holds of whatever the
walk gives, therefore holds of every conversion.
-/

namespace HtmlToMarkdown

open Html (Element)

namespace Html

theorem size_le_of_mem {n : Node} {ns : List Node} (member : n ∈ ns) :
    n.size ≤ Node.sizeAll ns := by
  induction ns with
  | nil => cases member
  | cons m ns ih =>
      rw [Node.sizeAll]
      rcases List.mem_cons.mp member with rfl | member
      · omega
      · have bound := ih member
        omega

theorem size_lt_of_mem_children {n m : Node} (member : m ∈ n.children) : m.size < n.size := by
  cases n with
  | root children position =>
      exact Nat.lt_succ_of_le (size_le_of_mem member)
  | element tag properties children position =>
      exact Nat.lt_succ_of_le (size_le_of_mem member)
  | text value position => cases member
  | comment value position => cases member
  | doctype position => cases member

end Html

namespace Walk

variable {walk other : Walk}

def AgreeBelow (bound : Nat) (walk other : Walk) : Prop :=
  ∀ n parent, n.size < bound → walk n parent = other n parent

theorem all_congr {ns : List Html.Node} (agree : ∀ n ∈ ns, ∀ parent, walk n parent = other n parent)
    (parent : Option Element) : walk.all parent ns = other.all parent ns := by
  induction ns with
  | nil => rfl
  | cons n ns ih =>
      have rest := ih fun m member => agree m (List.mem_cons_of_mem _ member)
      rw [all, all, rest, agree n List.mem_cons_self parent]

theorem AgreeBelow.all {bound : Nat} (agree : AgreeBelow bound walk other) {ns : List Html.Node}
    (small : ∀ n ∈ ns, n.size < bound) (parent : Option Element) :
    walk.all parent ns = other.all parent ns :=
  all_congr (fun n member parent => agree n parent (small n member)) parent

theorem AgreeBelow.children {e : Element} (agree : AgreeBelow e.toNode.size walk other) :
    walk.children e = other.children e :=
  agree.all (fun _ member => Html.size_lt_of_mem_children (n := e.toNode) member) _

theorem AgreeBelow.below {n : Html.Node} (agree : AgreeBelow n.size walk other) :
    walk.below n = other.below n :=
  agree.all (fun _ member => Html.size_lt_of_mem_children member) _

end Walk

namespace Handler

open Html (Node)

theorem sizeAll_leadingToggle {ns content : List Node} {toggle : Element}
    (found : leadingToggle ns = some (toggle, content)) :
    Node.sizeAll content ≤ Node.sizeAll ns := by
  fun_induction leadingToggle ns generalizing toggle content with
  | case1 tag properties children position rest head =>
      obtain ⟨rfl, rfl⟩ := Prod.mk.inj (Option.some.inj found)
      rw [Node.sizeAll]
      omega
  | case2 tag properties children position rest head notToggle paragraph =>
      rename_i ih
      obtain ⟨⟨inner, shorter⟩, foundInside, same⟩ := Option.map_eq_some_iff.mp found
      obtain ⟨rfl, rfl⟩ := Prod.mk.inj same
      have smaller := ih foundInside
      simp only [Node.sizeAll, Node.size]
      omega
  | case3 => cases found
  | case4 => cases found

theorem size_of_mem_unwrapDivs {ns : List Node} {n : Node} (member : n ∈ unwrapDivs ns) :
    n.size ≤ Node.sizeAll ns := by
  obtain ⟨m, inside, here⟩ := List.mem_flatMap.mp member
  have bound := Html.size_le_of_mem inside
  split at here
  · have smaller := Html.size_lt_of_mem_children here
    omega
  · rw [List.mem_singleton.mp here]
    exact bound

def Group.nodes (group : Group) : List Node := group.terms ++ group.definitions

theorem mem_of_mem_groupFrom {ns : List Node} {group : Group} {afterDefinition : Bool} {g : Group}
    (found : g ∈ groupFrom group afterDefinition ns) {n : Node} (member : n ∈ g.nodes) :
    n ∈ group.nodes ∨ n ∈ ns := by
  induction ns generalizing group afterDefinition with
  | nil =>
      rw [groupFrom] at found
      exact .inl (List.mem_singleton.mp found ▸ member)
  | cons m ns ih =>
      rw [groupFrom] at found
      split at found
      · split at found
        · rcases List.mem_cons.mp found with rfl | found
          · exact .inl member
          · rcases ih found with here | later
            · have same : n = m := by simpa [Group.nodes] using here
              exact .inr (same ▸ List.mem_cons_self)
            · exact .inr (List.mem_cons_of_mem _ later)
        · rcases ih found with here | later
          · simp only [Group.nodes, List.mem_append, List.mem_singleton] at here ⊢
            grind
          · exact .inr (List.mem_cons_of_mem _ later)
      · rcases ih found with here | later
        · simp only [Group.nodes, List.mem_append, List.mem_singleton] at here ⊢
          grind
        · exact .inr (List.mem_cons_of_mem _ later)

end Handler

/-- A handler that asks the walk only for nodes smaller than its own. -/
def TagHandler.Local (handler : TagHandler) : Prop :=
  ∀ {walk other : Walk} {e : Element} {parent : Option Element},
    Walk.AgreeBelow e.toNode.size walk other → handler walk e parent = handler other e parent

namespace Handler

open Html (Node)

theorem groupItems_congr {walk other : Walk} {e : Element} {groups : List Group}
    (agree : ∀ g ∈ groups, ∀ n ∈ g.nodes, ∀ parent, walk n parent = other n parent) :
    groupItems walk e groups = groupItems other e groups := by
  induction groups with
  | nil => rfl
  | cons group groups ih =>
      have here := agree group List.mem_cons_self
      have terms : walk.all (some e) group.terms = other.all (some e) group.terms :=
        Walk.all_congr (fun n member => here n (List.mem_append_left _ member)) _
      have definitions : walk.all (some e) group.definitions =
          other.all (some e) group.definitions :=
        Walk.all_congr (fun n member => here n (List.mem_append_right _ member)) _
      have rest := ih fun g member => agree g (List.mem_cons_of_mem _ member)
      simp only [groupItems, groupContent, terms, definitions, rest]

theorem definitionList_local : TagHandler.Local definitionList := by
  intro walk other e parent agree
  have same : groupItems walk e (groupFrom {} false (unwrapDivs e.children)) =
      groupItems other e (groupFrom {} false (unwrapDivs e.children)) := by
    apply groupItems_congr
    intro g found n member parent
    rcases mem_of_mem_groupFrom found member with none | inside
    · cases none
    · exact agree n parent (Nat.lt_succ_of_le (size_of_mem_unwrapDivs inside))
  simp only [definitionList, same]

theorem listItem_local : TagHandler.Local listItem := by
  intro walk other e parent agree
  cases found : leadingToggle e.children with
  | none =>
      have same : walk.children { e with children := e.children } =
          other.children { e with children := e.children } := agree.children
      simp only [listItem, found, same]
  | some split =>
      obtain ⟨toggle, content⟩ := split
      have same : walk.children { e with children := content } =
          other.children { e with children := content } := by
        apply agree.all
        intro n member
        have small : n.size ≤ Node.sizeAll content := Html.size_le_of_mem member
        have shorter := sizeAll_leadingToggle found
        apply Nat.lt_succ_of_le
        omega
      simp only [listItem, found, same]

theorem marked_local (shape : Markdown.Shape) : TagHandler.Local (marked shape) := by
  intro walk other e parent agree
  simp only [marked, agree.children]

end Handler

theorem Handlers.Registered.local {key : String} {handler : TagHandler}
    (registered : Handlers.Registered key handler) : handler.Local := by
  intro walk other e parent agree
  cases registered with
  | ignore | base | lineBreak | wordBreak | inlineCode | thematicBreak | iframe | image | input
  | select | textarea | code => rfl
  | passThrough => simp only [Handler.passThrough, agree.children]
  | flow => simp only [Handler.flow, agree.children]
  | link => simp only [Handler.link, agree.children]
  | media => simp only [Handler.media, agree.children]
  | emphasis => exact Handler.marked_local _ agree
  | strong => exact Handler.marked_local _ agree
  | delete => exact Handler.marked_local _ agree
  | blockquote => simp only [Handler.blockquote, agree.children]
  | listItem => exact Handler.listItem_local agree
  | list => simp only [Handler.list, agree.children]
  | definitionList => exact Handler.definitionList_local agree
  | heading => simp only [Handler.heading, agree.children]
  | paragraph => simp only [Handler.paragraph, agree.children]
  | quote => simp only [Handler.quote, agree.children]
  | table => simp only [Handler.table, agree.children]
  | tableRow => simp only [Handler.tableRow, agree.children]
  | tableCell => simp only [Handler.tableCell, agree.children]

namespace Handlers

theorem kinds_foldl_insert (added : List (String × TagHandler)) (h : Handlers) :
    (added.foldl (fun h entry => h.insert entry.1 entry.2) h).kinds = h.kinds := by
  induction added generalizing h with
  | nil => rfl
  | cons entry added ih => exact ih _

theorem kinds_foldl_insertKind (added : List (String × KindHandler)) (h : Handlers) :
    (added.foldl (fun h entry => h.insertKind entry.1 entry.2) h).kinds =
      added.foldl (fun m entry => m.insert entry.1 entry.2) h.kinds := by
  induction added generalizing h with
  | nil => rfl
  | cons entry added ih => exact ih _

theorem entries_kinds_standard : standard.kinds.entries = standardKinds := by
  rw [standard, kinds_foldl_insertKind, kinds_foldl_insert, insertAll_eq, insertAll_eq,
    insertAll_eq, kinds_foldl_insert, kinds_foldl_insert, kinds_foldl_insert,
    OrderedMap.entries_foldl_insert]
  · rfl
  · decide

theorem findKind?_standard (kind : String) :
    standard.findKind? kind = (standardKinds.find? (·.1 == kind)).map (·.2) := by
  rw [findKind?, OrderedMap.find?, entries_kinds_standard]

theorem findKind?_root : standard.findKind? "root" = some Handler.root := by
  simp [findKind?_standard, standardKinds]

theorem findKind?_element : standard.findKind? "element" = none := by
  simp [findKind?_standard, standardKinds]

theorem findKind?_text : standard.findKind? "text" = some Handler.text := by
  simp [findKind?_standard, standardKinds]

theorem findKind?_comment : standard.findKind? "comment" = some Handler.comment := by
  simp [findKind?_standard, standardKinds]

theorem findKind?_doctype : standard.findKind? "doctype" = some Handler.ignoreKind := by
  simp [findKind?_standard, standardKinds]

/-- What a converter does with a node, case by case; `spec` is of the nodes that it gives. -/
structure StepRules (walk : Walk)
    (spec : Html.Node → Conversion (List Markdown.Node) → Prop) : Prop where
  ignored (e : Element) (marked : e.isIgnored) : spec e.toNode (pure [])
  handled (e : Element) (parent : Option Element) (handler : TagHandler) (shown : ¬ e.isIgnored)
    (registered : Registered (Text.lower e.tag) handler) :
    spec e.toNode (Output.nodes <$> handler walk e parent)
  unhandled (e : Element) (shown : ¬ e.isIgnored) (unknown : standard.find? e.tag = none) :
    spec e.toNode (walk.children e)
  root (children : List Html.Node) (position : Option Position) (parent : Option Element) :
    spec (.root children position)
      (Output.nodes <$> Handler.root walk (.root children position) parent)
  text (value : String) (position : Option Position) :
    spec (.text value position) (pure [.leaf (.text value) { position }])
  comment (value : String) (position : Option Position) :
    spec (.comment value position)
      (pure [.leaf (.html ("<!--" ++ value ++ "-->")) { position }])
  doctype (position : Option Position) : spec (.doctype position) (pure [])

end Handlers

theorem Handlers.StepRules.mono {walk : Walk}
    {spec weaker : Html.Node → Conversion (List Markdown.Node) → Prop}
    (rules : StepRules walk spec) (implies : ∀ n act, spec n act → weaker n act) :
    StepRules walk weaker where
  ignored e marked := implies _ _ (rules.ignored e marked)
  handled e parent handler shown registered :=
    implies _ _ (rules.handled e parent handler shown registered)
  unhandled e shown unknown := implies _ _ (rules.unhandled e shown unknown)
  root children position parent := implies _ _ (rules.root children position parent)
  text value position := implies _ _ (rules.text value position)
  comment value position := implies _ _ (rules.comment value position)
  doctype position := implies _ _ (rules.doctype position)

theorem Handlers.StepRules.and {walk : Walk}
    {spec other : Html.Node → Conversion (List Markdown.Node) → Prop}
    (rules : StepRules walk spec) (otherRules : StepRules walk other) :
    StepRules walk fun n act => spec n act ∧ other n act where
  ignored e marked := ⟨rules.ignored e marked, otherRules.ignored e marked⟩
  handled e parent handler shown registered :=
    ⟨rules.handled e parent handler shown registered,
      otherRules.handled e parent handler shown registered⟩
  unhandled e shown unknown :=
    ⟨rules.unhandled e shown unknown, otherRules.unhandled e shown unknown⟩
  root children position parent :=
    ⟨rules.root children position parent, otherRules.root children position parent⟩
  text value position := ⟨rules.text value position, otherRules.text value position⟩
  comment value position := ⟨rules.comment value position, otherRules.comment value position⟩
  doctype position := ⟨rules.doctype position, otherRules.doctype position⟩

namespace Output

theorem nodes_filter (output : Option Output) :
    nodes (output.filter (!·.isEmpty)) = nodes output := by
  rcases output with - | (node | (_ | ⟨node, ns⟩)) <;> rfl

end Output

namespace Walk

def nodes (walk : Walk) (n : Html.Node) (parent : Option Element) :
    Conversion (List Markdown.Node) := Output.nodes <$> walk n parent

end Walk

namespace Handlers

theorem nodes_filtered (act : Conversion (Option Output)) :
    (Output.nodes <$> do return (← act).filter (!·.isEmpty)) = Output.nodes <$> act := by
  funext s
  exact congrArg (·, ((act s).2)) (Output.nodes_filter (act s).1)

section Step

variable {h : Handlers} (walk : Walk) (parent : Option Element)

theorem step_of_kind {n : Html.Node} {handler : KindHandler} (literal : n.asElement? = none)
    (found : h.findKind? n.kind = some handler) :
    h.step walk n parent = do return (← handler walk n parent).filter (!·.isEmpty) := by
  have shown : ¬ isIgnored n := by simp [isIgnored, literal]
  have chosen : h.forNode? n = some fun walk parent => handler walk n parent := by
    simp [forNode?, literal, found]
  rw [step, if_neg shown, chosen]

theorem step_ignored {e : Element} (marked : e.isIgnored) :
    h.step walk e.toNode parent = pure none := by
  have hidden : isIgnored e.toNode := marked
  rw [step, if_pos hidden]

theorem step_handled {e : Element} {handler : TagHandler} (shown : ¬ e.isIgnored)
    (found : h.find? e.tag = some handler) :
    h.step walk e.toNode parent =
      do return (← handler walk e parent).filter (!·.isEmpty) := by
  have visible : ¬ isIgnored e.toNode := shown
  have chosen : h.forNode? e.toNode = some fun walk parent => handler walk e parent := by
    simp [forNode?, Html.Node.asElement?, Element.toNode, found]
  rw [step, if_neg visible, chosen]

theorem step_unhandled {e : Element} (shown : ¬ e.isIgnored) (unknown : h.find? e.tag = none)
    (noKind : h.findKind? "element" = none) :
    h.step walk e.toNode parent = do return some (.many (← walk.children e)) := by
  have visible : ¬ isIgnored e.toNode := shown
  have none_chosen : h.forNode? e.toNode = none := by
    simp [forNode?, Html.Node.asElement?, Element.toNode, unknown, Html.Node.kind, noKind]
  rw [step, if_neg visible, none_chosen]
  rfl

end Step

theorem nodes_step {walk : Walk} {spec : Html.Node → Conversion (List Markdown.Node) → Prop}
    (rules : StepRules walk spec) (n : Html.Node) (parent : Option Element) :
    spec n (Walk.nodes (standard.step walk) n parent) := by
  unfold Walk.nodes
  cases n with
  | root children position =>
      rw [step_of_kind (n := .root children position) walk parent rfl findKind?_root,
        nodes_filtered]
      exact rules.root children position parent
  | text value position =>
      rw [step_of_kind (n := .text value position) walk parent rfl findKind?_text, nodes_filtered]
      exact rules.text value position
  | comment value position =>
      rw [step_of_kind (n := .comment value position) walk parent rfl findKind?_comment,
        nodes_filtered]
      exact rules.comment value position
  | doctype position =>
      rw [step_of_kind (n := .doctype position) walk parent rfl findKind?_doctype, nodes_filtered]
      exact rules.doctype position
  | element tag properties children position =>
      let e : Element := ⟨tag, properties, children, position⟩
      change spec e.toNode (Output.nodes <$> standard.step walk e.toNode parent)
      by_cases marked : e.isIgnored
      · rw [step_ignored walk parent marked]
        exact rules.ignored e marked
      · cases found : standard.find? e.tag with
        | none =>
            rw [step_unhandled walk parent marked found findKind?_element]
            exact rules.unhandled e marked found
        | some handler =>
            rw [step_handled walk parent marked found, nodes_filtered]
            exact rules.handled e parent handler marked (registered_of_mem (find?_standard found))

theorem step_congr {walk other : Walk} {n : Html.Node}
    (agree : Walk.AgreeBelow n.size walk other) (parent : Option Element) :
    standard.step walk n parent = standard.step other n parent := by
  cases n with
  | root children position =>
      have same : walk.below (.root children position) = other.below (.root children position) :=
        agree.below
      rw [step_of_kind (n := .root children position) walk parent rfl findKind?_root,
        step_of_kind (n := .root children position) other parent rfl findKind?_root,
        Handler.root, Handler.root, same]
  | text value position =>
      rw [step_of_kind (n := .text value position) walk parent rfl findKind?_text,
        step_of_kind (n := .text value position) other parent rfl findKind?_text]
      rfl
  | comment value position =>
      rw [step_of_kind (n := .comment value position) walk parent rfl findKind?_comment,
        step_of_kind (n := .comment value position) other parent rfl findKind?_comment]
      rfl
  | doctype position =>
      rw [step_of_kind (n := .doctype position) walk parent rfl findKind?_doctype,
        step_of_kind (n := .doctype position) other parent rfl findKind?_doctype]
      rfl
  | element tag properties children position =>
      let e : Element := ⟨tag, properties, children, position⟩
      change standard.step walk e.toNode parent = standard.step other e.toNode parent
      replace agree : Walk.AgreeBelow e.toNode.size walk other := agree
      by_cases marked : e.isIgnored
      · rw [step_ignored walk parent marked, step_ignored other parent marked]
      · cases found : standard.find? e.tag with
        | none =>
            have same : walk.children e = other.children e := agree.children
            rw [step_unhandled walk parent marked found findKind?_element,
              step_unhandled other parent marked found findKind?_element, same]
        | some handler =>
            rw [step_handled walk parent marked found, step_handled other parent marked found,
              (registered_of_mem (find?_standard found)).local agree]

theorem convert_eq (n : Html.Node) (parent : Option Element) :
    standard.convert n parent = standard.step standard.convert n parent := by
  rw [convert]
  apply step_congr
  intro m other small
  exact if_pos small

/-- What a step makes hold of a node, whatever walk it uses, holds of every conversion. The walk
must be able to give something for every node. -/
theorem convert_induction {spec : Html.Node → Conversion (List Markdown.Node) → Prop}
    (possible : ∀ n, ∃ act, spec n act)
    (rules : ∀ walk : Walk, (∀ n parent, spec n (walk.nodes n parent)) → StepRules walk spec)
    (n : Html.Node) (parent : Option Element) : spec n (Walk.nodes standard.convert n parent) := by
  induction size : n.size using Nat.strongRecOn generalizing n parent with
  | ind bound ih =>
      choose instead holds using possible
      let walk : Walk := fun m other =>
        if m.size < bound then standard.convert m other
        else (fun ns => some (.many ns)) <$> instead m
      have meets : ∀ m other, spec m (walk.nodes m other) := by
        intro m other
        by_cases small : m.size < bound
        · have same : walk.nodes m other = Walk.nodes standard.convert m other :=
            congrArg _ (if_pos small)
          exact same ▸ ih m.size small m other rfl
        · have same : walk.nodes m other = instead m :=
            congrArg (Output.nodes <$> ·) (if_neg small)
          exact same ▸ holds m
      have agree : Walk.AgreeBelow n.size standard.convert walk := by
        intro m other small
        exact (if_pos (size ▸ small)).symm
      have same : Walk.nodes standard.convert n parent =
          Walk.nodes (standard.step walk) n parent := by
        rw [Walk.nodes, convert_eq, step_congr agree]
        rfl
      exact same ▸ nodes_step (rules walk meets) n parent

/-- The same where nothing needs to be known of other walks: a step may take for granted what holds
of the conversion of smaller nodes. -/
theorem convert_sizeInduction {spec : Html.Node → Conversion (List Markdown.Node) → Prop}
    (rules : ∀ bound,
      (∀ m, m.size < bound → ∀ parent, spec m (Walk.nodes standard.convert m parent)) →
        StepRules standard.convert fun n act => n.size ≤ bound → spec n act)
    (n : Html.Node) (parent : Option Element) : spec n (Walk.nodes standard.convert n parent) := by
  induction size : n.size using Nat.strongRecOn generalizing n parent with
  | ind bound ih =>
      have small := fun m less other => ih (Html.Node.size m) less m other rfl
      rw [Walk.nodes, convert_eq]
      exact nodes_step (rules bound small) n parent (Nat.le_of_eq size)

end Handlers

end HtmlToMarkdown
