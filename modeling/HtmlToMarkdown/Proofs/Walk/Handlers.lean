import HtmlToMarkdown.Conversion.Standard
import HtmlToMarkdown.Conversion.Walk
import HtmlToMarkdown.Proofs.Walk.Induction

namespace HtmlToMarkdown

open Html (Element)
open Markdown (Node coerce dropSurroundingBreaks emptyCell emptyRow rectangle wrap wrapNeeded)

namespace State

theorem inTable_freezeBase (s : State) (href : Option String) :
    (s.freezeBase href).inTable = s.inTable := by
  unfold freezeBase
  split <;> rfl

theorem inTable_startSpanRow (s : State) : s.startSpanRow.inTable = s.inTable := by
  unfold startSpanRow
  split <;> rfl

theorem inTable_recordSpan (s : State) (span : Html.CellSpan) :
    (s.recordSpan span).inTable = s.inTable := by
  unfold recordSpan
  split <;> rfl

end State

namespace Conversion

variable {α β : Type}

def after (act : Conversion α) (f : State → α → β) : Conversion β := do
  let a ← act
  return f (← get) a

def reads (f : State → β) : Conversion β := do return f (← get)

theorem run_after (act : Conversion α) (f : State → α → β) (s : State) :
    (act.after f).run s = (f (act.run s).2 (act.run s).1, (act.run s).2) := rfl

theorem run_reads (f : State → β) (s : State) : (reads f).run s = (f s, s) := rfl

theorem run_modify (f : State → State) (act : Conversion α) (s : State) :
    (do modify f; act : Conversion α).run s = act.run (f s) := rfl

theorem run_append (act more : Conversion (List α)) (s : State) :
    (do return (← act) ++ (← more) : Conversion (List α)).run s =
      ((act.run s).1 ++ (more.run (act.run s).2).1, (more.run (act.run s).2).2) := rfl

theorem run_nestedQuote (act : Conversion α) (s : State) :
    (nestedQuote act).run s =
      let r := act.run { s with quoteDepth := s.quoteDepth + 1 }
      (r.1, { r.2 with quoteDepth := r.2.quoteDepth - 1 }) := rfl

theorem run_tableScope (act : Conversion α) (s : State) :
    (tableScope act).run s =
      let r := act.run { s with inTable := true, spanFrames := [] :: s.spanFrames }
      ((r.1, r.2.spanFrames.headD []),
        { r.2 with inTable := s.inTable, spanFrames := r.2.spanFrames.tail }) := rfl

theorem nodes_bind {act : Conversion α} {next : α → Conversion (Option Output)}
    {f : State → α → List Node} (same : ∀ a, Output.nodes <$> next a = reads fun s => f s a) :
    Output.nodes <$> (act >>= next) = act.after f := by
  funext s
  exact congrFun (same (act s).1) (act s).2

end Conversion

namespace Walk

variable (walk : Walk) (parent : Option Element)

theorem all_cons (n : Html.Node) (ns : List Html.Node) :
    walk.all parent (n :: ns) = do
      let here ← walk.nodes n parent
      let rest ← walk.all parent ns
      return here ++ rest := rfl

@[simp] theorem all_singleton (n : Html.Node) : walk.all parent [n] = walk.nodes n parent := by
  funext s
  exact congrArg (·, (walk n parent s).2) (List.append_nil (Output.nodes (walk n parent s).1))

end Walk

namespace Handler

variable (walk : Walk) (e : Element) (parent : Option Element)

def placed (e : Element) (shape : Markdown.Shape) (children : List Node) : Node :=
  .parent shape { position := e.position } children

def placedLeaf (e : Element) (content : Markdown.Leaf) : Node :=
  .leaf content { position := e.position }

theorem nodes_ignore : Output.nodes <$> ignore walk e parent = pure [] := rfl

theorem nodes_passThrough : Output.nodes <$> passThrough walk e parent = walk.children e := rfl

theorem nodes_flow :
    Output.nodes <$> flow walk e parent = (walk.children e).after fun _ ns => wrap ns := rfl

theorem nodes_link :
    Output.nodes <$> link walk e parent = (walk.children e).after fun s ns =>
      [placed e (.link (s.resolve (e.attribute? "href")) (e.attribute? "title")) ns] := rfl

theorem nodes_marked (shape : Markdown.Shape) :
    Output.nodes <$> marked shape walk e parent =
      (walk.children e).after fun _ ns => [placed e shape ns] := rfl

def shownMedia (s : State) (e : Element) (content : List Node) : List Node :=
  match poster e with
  | none => content
  | some url => [placedLeaf e (.image (s.resolve (some url)) none (Node.textContentOf content))]

theorem nodes_media :
    Output.nodes <$> media walk e parent = (walk.children e).after fun s ns =>
      if anyContainsLink ns || wrapNeeded ns then ns
      else [placed e (.link (s.resolve (mediaSource e)) (e.attribute? "title"))
        (shownMedia s e ns)] := by
  apply Conversion.nodes_bind
  intro ns
  split
  · rfl
  · unfold posterImage shownMedia
    cases poster e <;> rfl

theorem nodes_blockquote :
    Output.nodes <$> blockquote walk e parent =
      (walk.children e).after fun _ ns => [placed e .blockquote (wrap ns)] := rfl

theorem nodes_paragraph :
    Output.nodes <$> paragraph walk e parent = (walk.children e).after fun _ ns =>
      if (dropSurroundingBreaks ns).isEmpty then []
      else [placed e .paragraph (dropSurroundingBreaks ns)] := by
  apply Conversion.nodes_bind
  intro ns
  cases dropSurroundingBreaks ns <;> rfl

theorem nodes_heading :
    Output.nodes <$> heading walk e parent = (walk.children e).after fun _ ns =>
      [placed e (.heading (headingDepth e.tag)) (dropSurroundingBreaks ns)] := rfl

def taskOf (e : Element) : Option Bool × List Html.Node :=
  match leadingToggle e.children with
  | some (toggle, content) => (some (toggle.hasFlag "checked"), content)
  | none => (none, e.children)

theorem nodes_listItem :
    Output.nodes <$> listItem walk e parent =
      (walk.children { e with children := (taskOf e).2 }).after fun _ ns =>
        [placed e (.listItem (spreadsOut false (taskOf e).2) (taskOf e).1) (wrap ns)] := by
  unfold listItem taskOf
  cases leadingToggle e.children <;> rfl

theorem nodes_list :
    Output.nodes <$> list walk e parent = (walk.children e).after fun _ ns =>
      let items := coerce emptyItem ns
      let start := if e.tag == "ol" then some (listStart e) else none
      [placed e (.list (e.tag == "ol") start (itemsSpread items)) items] := rfl

theorem nodes_definitionList :
    Output.nodes <$> definitionList walk e parent =
      (groupItems walk e (groupFrom {} false (unwrapDivs e.children))).after fun _ items =>
        if items.isEmpty then [] else [placed e (.list false none (itemsSpread items)) items] := by
  apply Conversion.nodes_bind
  intro items
  cases items <;> rfl

theorem nodes_quote :
    Output.nodes <$> quote walk e parent =
      (Conversion.nestedQuote (walk.children e)).after fun s ns =>
        quoteWith (s.options.quotePair s.quoteDepth) ns := rfl

theorem nodes_tableRow :
    Output.nodes <$> tableRow walk e parent = (do
      modify State.startSpanRow
      (walk.children e).after fun _ ns => [placed e .tableRow (coerce emptyCell ns)]) := rfl

theorem nodes_tableCell :
    Output.nodes <$> tableCell walk e parent = (do
      modify (·.recordSpan (Html.CellSpan.ofElement e))
      (walk.children e).after fun _ ns => [placed e .tableCell ns]) := rfl

def builtTable (e : Element) (content : List Node) (spans : List (List Html.CellSpan)) : Node :=
  let l := layout e
  let (align, rows) := rectangle l.headless l.align (coerce emptyRow content) spans
  placed e (.table align) rows

theorem nodes_table :
    Output.nodes <$> table walk e parent = (do
      if ← Conversion.reads State.inTable then return [placedLeaf e (.text e.toText)]
      else
        let (content, spans) ← Conversion.tableScope (walk.children e)
        return [builtTable e content spans]) := by
  funext s
  change (Output.nodes <$> if s.inTable then _ else _ : Conversion (List Node)).run s =
    (if s.inTable then _ else _ : Conversion (List Node)).run s
  by_cases inside : s.inTable
  · rw [if_pos inside, if_pos inside]
    rfl
  · rw [if_neg inside, if_neg inside]
    rfl

theorem run_table (s : State) :
    (Output.nodes <$> table walk e parent).run s =
      if s.inTable then ([placedLeaf e (.text e.toText)], s)
      else
        let r := (walk.children e).run { s with inTable := true, spanFrames := [] :: s.spanFrames }
        ([builtTable e r.1 (r.2.spanFrames.headD [])],
          { r.2 with inTable := s.inTable, spanFrames := r.2.spanFrames.tail }) := by
  change (Output.nodes <$> if s.inTable then _ else _ : Conversion (List Node)).run s = _
  by_cases inside : s.inTable
  · rw [if_pos inside, if_pos inside]
    rfl
  · rw [if_neg inside, if_neg inside]
    rfl

theorem nodes_base :
    Output.nodes <$> base walk e parent = (do
      modify (·.freezeBase (e.attribute? "href"))
      return []) := rfl

theorem nodes_image :
    Output.nodes <$> image walk e parent = Conversion.reads fun s =>
      [placedLeaf e (.image (s.resolve (e.attribute? "src")) (e.attribute? "title")
        ((e.attribute? "alt").getD ""))] := rfl

theorem nodes_iframe :
    Output.nodes <$> iframe walk e parent = Conversion.reads fun s =>
      match e.attribute? "src", e.attribute? "title" with
      | some source, some title =>
        [placed e (.link (s.resolve (some source)) none) [.text title]]
      | _, _ => [] := by
  unfold iframe
  cases e.attribute? "src" <;> cases e.attribute? "title" <;> rfl

theorem nodes_input :
    Output.nodes <$> input walk e parent =
      Conversion.reads fun s => Output.nodes (inputOutput s e) := rfl

theorem nodes_select :
    Output.nodes <$> select walk e parent = pure (
      if (shownChoices e e).isEmpty then []
      else [placedLeaf e (.text (Choice.textOf (shownChoices e e)))]) := by
  unfold select
  cases shownChoices e e <;> rfl

theorem nodes_root (children : List Html.Node) (position : Option Position) :
    Output.nodes <$> root walk (.root children position) parent =
      (walk.all none children).after fun s ns => [.parent .root { position }
        (if s.options.document || wrapNeeded ns then wrap ns else ns)] := rfl

section Forall

variable {Q : Node → Prop} {ns : List Node}

theorem forall_quoteWith (marks : String × String) (mark : ∀ value, Q (.text value))
    (retext : ∀ value other origin, Q (.leaf (.text value) origin) →
      Q (.leaf (.text other) origin)) (holds : ∀ n ∈ ns, Q n) :
    ∀ m ∈ quoteWith marks ns, Q m := by
  have opened : ∀ ns : List Node, (∀ n ∈ ns, Q n) → ∀ m ∈ openQuote marks.1 ns, Q m := by
    intro ns holds
    unfold openQuote
    split
    · obtain ⟨here, rest⟩ := List.forall_mem_cons.mp holds
      exact List.forall_mem_cons.mpr ⟨retext _ _ _ here, rest⟩
    · exact List.forall_mem_cons.mpr ⟨mark _, holds⟩
  have closed : ∀ ns : List Node, (∀ n ∈ ns, Q n) → ∀ m ∈ closeQuote marks.2 ns, Q m := by
    intro ns holds
    fun_induction closeQuote marks.2 ns with
    | case1 => exact List.forall_mem_singleton.mpr (mark _)
    | case2 value origin =>
        exact List.forall_mem_singleton.mpr
          (retext _ _ _ (List.forall_mem_singleton.mp holds))
    | case3 n =>
        exact List.forall_mem_cons.mpr
          ⟨List.forall_mem_singleton.mp holds, List.forall_mem_singleton.mpr (mark _)⟩
    | case4 n ns =>
        rename_i ih
        obtain ⟨here, rest⟩ := List.forall_mem_cons.mp holds
        exact List.forall_mem_cons.mpr ⟨here, ih rest⟩
  unfold quoteWith
  split
  · exact List.forall_mem_cons.mpr ⟨mark _, List.forall_mem_singleton.mpr (mark _)⟩
  · exact opened _ (closed _ holds)

theorem forall_shownMedia (s : State)
    (image : ∀ url alt, Q (placedLeaf e (.image url none alt))) (holds : ∀ n ∈ ns, Q n) :
    ∀ m ∈ shownMedia s e ns, Q m := by
  unfold shownMedia
  split
  · exact holds
  · exact List.forall_mem_singleton.mpr (image _ _)

theorem forall_unwrapSingle
    (below : ∀ shape origin children, Q (.parent shape origin children) → ∀ c ∈ children, Q c)
    (listed : Q (plainList ns)) (holds : ∀ n ∈ ns, Q n) : ∀ m ∈ unwrapSingle ns, Q m := by
  match ns with
  | [] => exact holds
  | [.leaf content origin] => simp [unwrapSingle]
  | [.parent shape origin children] => exact below _ _ _ (List.forall_mem_singleton.mp holds)
  | first :: second :: items => exact List.forall_mem_singleton.mpr listed

theorem forall_choiceLinks (s : State) (choices : List Choice) (text : ∀ value, Q (.text value))
    (link : ∀ url value, Q (placed e (.link url none) [.text value])) :
    ∀ m ∈ choiceLinks s e choices, Q m := by
  let linkTo (choice : Choice) : Node :=
    placed e (.link (choiceUrl s e.inputType choice) none)
      [.text (choice.label.getD choice.value)]
  change ∀ m ∈ [Node.text ", "].intercalate (choices.map fun choice => [linkTo choice]), Q m
  induction choices with
  | nil => simp [List.intercalate]
  | cons choice choices ih =>
      cases choices with
      | nil => simpa [List.intercalate] using link _ _
      | cons next choices =>
          simp only [List.intercalate, List.map_cons, List.intersperse_cons_cons,
            List.flatten_cons, List.singleton_append] at ih ⊢
          exact List.forall_mem_cons.mpr ⟨link _ _, List.forall_mem_cons.mpr ⟨text _, ih⟩⟩

theorem forall_inputOutput (s : State)
    (leaf : ∀ content : Markdown.Leaf, content.isPhrasing → Q (placedLeaf e content))
    (text : ∀ value, Q (.text value))
    (link : ∀ url value, Q (placed e (.link url none) [.text value])) :
    ∀ m ∈ Output.nodes (inputOutput s e), Q m := by
  have single : ∀ content : Markdown.Leaf, content.isPhrasing → ∀ m ∈ [placedLeaf e content], Q m :=
    fun content phrasing => List.forall_mem_singleton.mpr (leaf content phrasing)
  simp only [inputOutput]
  split
  · simp [Output.nodes]
  · split
    · exact single _ rfl
    · split
      · unfold imageInput
        cases (e.attribute? "alt").or (inputValue e) with
        | none => simp [Output.nodes]
        | some alt => exact single _ rfl
      · unfold textInput
        split
        · simp [Output.nodes]
        · split
          · exact forall_choiceLinks e s _ text link
          · exact single _ rfl

end Forall

end Handler

section Convert

open Handlers (Registered standard)

theorem nodes_convert {e : Element} {handler : TagHandler} (shown : ¬ e.isIgnored)
    (registered : Registered e.tag handler) (parent : Option Element) :
    Walk.nodes standard.convert e.toNode parent =
      Output.nodes <$> handler standard.convert e parent := by
  rw [Walk.nodes, Handlers.convert_eq,
    Handlers.step_handled _ _ shown (Handlers.find?_of_registered registered),
    Handlers.nodes_filtered]

theorem walkTree_root [UrlReader] (options : Options) (children : List Html.Node)
    (position : Option Position) :
    walkTree options standard (.root children position) =
      let r := (Walk.all standard.convert none children).run
        (State.start options (.root children position))
      .parent .root { position }
        (if r.2.options.document || wrapNeeded r.1 then wrap r.1 else r.1) := by
  have step := Handlers.step_of_kind (n := .root children position) standard.convert none rfl
    Handlers.findKind?_root
  rw [walkTree, Handlers.convert_eq, step]
  rfl

end Convert

end HtmlToMarkdown
