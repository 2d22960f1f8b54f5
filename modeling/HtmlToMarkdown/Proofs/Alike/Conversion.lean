import HtmlToMarkdown.Proofs.Alike.Readers
import HtmlToMarkdown.Proofs.Walk.Independence

/-!
Two conversions side by side. On trees that are not told apart every handler does the same, given
that the walk does so below, and leaves states that differ in nothing that is ever looked at. So
the results are the same.
-/

namespace HtmlToMarkdown

open Handlers (standard)
open Html (AlikeAll Element Hidden Indistinct Properties SameEntry Sight optionView)

/-- States that differ only in the elements by `id`, of which none can be told from the other. -/
def State.Alike (s t : State) : Prop :=
  ∃ elements, List.Forall₂ SameEntry s.elements elements ∧ t = { s with elements := elements }

namespace Conversion

variable {α β : Type}

/-- From states that are alike both actions give the same and come to states that are alike. If
there is a table around, `inTable` is set. -/
def Agree (inTable : Bool) (act other : Conversion α) : Prop :=
  ∀ s t : State, s.Alike t → (s.inTable → inTable) →
    (other.run t).1 = (act.run s).1 ∧ (act.run s).2.Alike (other.run t).2 ∧
      (act.run s).2.inTable = s.inTable

namespace Agree

variable {inTable : Bool} {act other : Conversion α}

theorem pure (inTable : Bool) (a : α) : Agree inTable (Pure.pure a) (Pure.pure a) :=
  fun _ _ alike _ => ⟨rfl, alike, rfl⟩

theorem bind {next after : α → Conversion β} (first : Agree inTable act other)
    (rest : ∀ a, Agree inTable (next a) (after a)) :
    Agree inTable (act >>= next) (other >>= after) := by
  intro s t alike around
  rcases first s t alike around with ⟨same, between, kept⟩
  have second := rest (act.run s).1 (act.run s).2 (other.run t).2 between (kept ▸ around)
  have run : (other >>= after).run t = (after (act.run s).1).run (other.run t).2 := by
    rw [← same]
    rfl
  rw [run]
  exact ⟨second.1, second.2.1, second.2.2.trans kept⟩

theorem outside {wider : Bool} (agree : Agree wider act other) (less : inTable → wider) :
    Agree inTable act other :=
  fun s t alike around => agree s t alike fun inside => less (around inside)

theorem reads {f g : State → α} (same : ∀ s elements,
      List.Forall₂ SameEntry s.elements elements → g { s with elements := elements } = f s) :
    Agree inTable (Conversion.reads f) (Conversion.reads g) := by
  rintro s _ ⟨elements, alike, rfl⟩ _
  exact ⟨same s elements alike, ⟨elements, alike, rfl⟩, rfl⟩

theorem modify {f : State → State} (kept : ∀ s : State, s.Scoped (f s))
    (blind : ∀ s elements, f { s with elements := elements } = { f s with elements := elements }) :
    Agree inTable (modify f : Conversion PUnit) (modify f) := by
  rintro s _ ⟨elements, alike, rfl⟩ _
  refine ⟨rfl, ⟨elements, ?_, blind s elements⟩, (kept s).inTable⟩
  exact (kept s).elements.symm ▸ alike

theorem ifInTable {act other more rest : Conversion α}
    (yes : inTable → Agree inTable act more) (no : Agree inTable other rest) :
    Agree inTable (do if (← get).inTable then act else other)
      (do if (← get).inTable then more else rest) := by
  intro s t alike around
  have run : ∀ (a b : Conversion α) (u : State),
      (do if (← get).inTable then a else b : Conversion α).run u =
        if u.inTable then a.run u else b.run u := by
    intro a b u
    change (if u.inTable then a else b : Conversion α).run u = _
    split <;> rfl
  have same : t.inTable = s.inTable := by
    rcases alike with ⟨elements, -, rfl⟩
    rfl
  rw [run, run, same]
  by_cases inside : s.inTable
  · rw [if_pos inside, if_pos inside]
    exact yes (around inside) s t alike around
  · rw [if_neg inside, if_neg inside]
    exact no s t alike around

theorem nestedQuote (agree : Agree inTable act other) :
    Agree inTable (Conversion.nestedQuote act) (Conversion.nestedQuote other) := by
  rintro s _ ⟨others, alike, rfl⟩ around
  have inside := agree { s with quoteDepth := s.quoteDepth + 1 }
    { s with elements := others, quoteDepth := s.quoteDepth + 1 } ⟨others, alike, rfl⟩ around
  rcases inside with ⟨same, ⟨elements, still, after⟩, kept⟩
  refine ⟨same, ⟨elements, still, ?_⟩, kept⟩
  rw [run_nestedQuote, run_nestedQuote]
  dsimp only
  rw [after]

theorem tableScope (agree : Agree true act other) :
    Agree inTable (Conversion.tableScope act) (Conversion.tableScope other) := by
  rintro s _ ⟨others, alike, rfl⟩ _
  have inside := agree { s with inTable := true, spanFrames := [] :: s.spanFrames }
    { s with elements := others, inTable := true, spanFrames := [] :: s.spanFrames }
    ⟨others, alike, rfl⟩ fun _ => rfl
  rcases inside with ⟨same, ⟨elements, still, after⟩, -⟩
  refine ⟨?_, ⟨elements, still, ?_⟩, rfl⟩
  · rw [run_tableScope, run_tableScope]
    dsimp only
    rw [same, after]
  · rw [run_tableScope, run_tableScope]
    dsimp only
    rw [after]

theorem resolve (inTable : Bool) (url : Option String) :
    Agree inTable (Conversion.resolve url) (Conversion.resolve url) :=
  reads fun _ _ _ => rfl

end Agree

end Conversion

/-- Nodes that a list of definitions sorts in the same way, and that are converted alike. -/
structure Walk.Counterpart (walk : Walk) (inTable : Bool) (n m : Html.Node) : Prop where
  isTag (tag : String) : m.isTag tag = n.isTag tag
  agree (p q : Option Element) : Conversion.Agree inTable (walk n p) (walk m q)

def Walk.AgreesBelow (walk : Walk) (bound : Nat) : Prop :=
  ∀ cx n m, n.size < bound → n.Alike Indistinct Hidden cx m →
    ∀ p q, Conversion.Agree cx.table (walk n p) (walk m q)

theorem Html.Node.Alike.isTag_eq {cx : Sight} {n m : Html.Node}
    (alike : n.Alike Indistinct Hidden cx m) (tag : String) : m.isTag tag = n.isTag tag := by
  cases alike <;> rfl

section Below

open Conversion (Agree)
open Handler (Group groupContent groupFrom groupItems unwrapDivs)
open Walk (Counterpart)

variable {walk : Walk} {bound : Nat} {inTable : Bool} {cx : Sight} {ns ms : List Html.Node}

theorem Walk.AgreesBelow.counterparts (agrees : walk.AgreesBelow bound)
    (around : inTable → cx.table) (alike : AlikeAll Indistinct Hidden cx ns ms)
    (small : Html.Node.sizeAll ns < bound) : List.Forall₂ (walk.Counterpart inTable) ns ms := by
  induction ns generalizing cx ms with
  | nil =>
      cases alike
      exact .nil
  | cons n ns ih =>
      rw [Html.Node.sizeAll] at small
      cases alike with
      | cons here rest =>
          have first := agrees cx n _ (by omega) here
          have both : walk.Counterpart inTable n _ :=
            ⟨here.isTag_eq, fun p q => (first p q).outside around⟩
          exact .cons both (ih (by simpa using around) rest (by omega))

theorem Conversion.Agree.all (each : List.Forall₂ (walk.Counterpart inTable) ns ms)
    (p q : Option Element) : Agree inTable (walk.all p ns) (walk.all q ms) := by
  induction each with
  | nil => exact .pure inTable []
  | cons here _ ih => exact (here.agree p q).bind fun _ => ih.bind fun _ => .pure inTable _

theorem Walk.AgreesBelow.unwrapped (agrees : walk.AgreesBelow bound)
    (around : inTable → cx.table) (read : cx.terms) (alike : AlikeAll Indistinct Hidden cx ns ms)
    (small : Html.Node.sizeAll ns < bound) :
    List.Forall₂ (walk.Counterpart inTable) (unwrapDivs ns) (unwrapDivs ms) := by
  induction ns generalizing cx ms with
  | nil =>
      cases alike
      exact .nil
  | cons n ns ih =>
      rw [Html.Node.sizeAll] at small
      cases alike with
      | @cons _ _ m _ _ here rest =>
          rw [unwrapDivs, unwrapDivs, List.flatMap_cons, List.flatMap_cons, here.isTag_eq]
          apply List.rel_append _ (ih (by simpa using around) (by simpa using read) rest (by omega))
          have itself := agrees.counterparts around (.cons here .nil)
            (by simp only [Html.Node.sizeAll]; omega)
          split
          next division =>
            cases here with
            | @element _ tag properties more children others position equal inside =>
                apply agrees.counterparts _ inside
                · rw [Html.Node.size] at small
                  omega
                · intro inTable
                  simp [Sight.inside, around inTable]
            | hidden equal ignored unseen =>
                exact absurd (eq_of_beq division) (unseen.term read)
            | root | text | comment | doctype => cases division
          next => exact itself

structure SameGroup (walk : Walk) (inTable : Bool) (g h : Group) : Prop where
  terms : List.Forall₂ (walk.Counterpart inTable) g.terms h.terms
  definitions : List.Forall₂ (walk.Counterpart inTable) g.definitions h.definitions

theorem sameGroup_groupFrom (each : List.Forall₂ (walk.Counterpart inTable) ns ms) {g h : Group}
    (same : SameGroup walk inTable g h) (afterDefinition : Bool) :
    List.Forall₂ (SameGroup walk inTable) (groupFrom g afterDefinition ns)
      (groupFrom h afterDefinition ms) := by
  induction each generalizing g h afterDefinition with
  | nil => exact .cons same .nil
  | @cons n m _ _ here _ ih =>
      have longer : ∀ {ns ms : List Html.Node}, List.Forall₂ (walk.Counterpart inTable) ns ms →
          List.Forall₂ (walk.Counterpart inTable) (ns ++ [n]) (ms ++ [m]) :=
        fun both => List.rel_append both (.cons here .nil)
      rw [groupFrom, groupFrom, here.isTag "dt", here.isTag "dd"]
      split
      · split
        · exact .cons same (ih ⟨.cons here .nil, .nil⟩ false)
        · exact ih (g := { g with terms := g.terms ++ [n] })
            (h := { h with terms := h.terms ++ [m] }) ⟨longer same.terms, same.definitions⟩ false
      · exact ih (g := { g with definitions := g.definitions ++ [n] })
          (h := { h with definitions := h.definitions ++ [m] })
          ⟨same.terms, longer same.definitions⟩ _

theorem agree_groupItems {gs hs : List Group} (each : List.Forall₂ (SameGroup walk inTable) gs hs)
    (e f : Element) : Agree inTable (groupItems walk e gs) (groupItems walk f hs) := by
  induction each with
  | nil => exact .pure inTable []
  | cons here _ ih =>
      have side : ∀ {ns ms : List Html.Node}, List.Forall₂ (walk.Counterpart inTable) ns ms →
          Agree inTable (groupContent walk e ns) (groupContent walk f ms) :=
        fun both => (Agree.all both _ _).bind fun _ => .pure inTable _
      exact (side here.terms).bind fun _ => (side here.definitions).bind fun _ =>
        ih.bind fun _ => .pure inTable _

end Below

section Inputs

open Handler (choiceLinks imageInput inputChoices inputOutput inputValue masked shownChoices
  suggestions textInput toggleText withoutSuggestions)

variable {e f : Element} (twin : e.Twin f) {s : State} {elements : List (String × Element)}
  (same : List.Forall₂ SameEntry s.elements elements)

include twin same

theorem suggestions_eq : suggestions { s with elements := elements } f = suggestions s e := by
  unfold suggestions
  rw [twin.inputType_eq, twin.attribute_eq "list" (by decide)]
  split
  · rfl
  · cases e.attribute? "list" with
    | none => rfl
    | some id =>
        have related := Html.find?_entry same id
        simp only [Option.bind_some, State.elementById]
        generalize s.elements.find? (·.1 == id) = found at related ⊢
        generalize elements.find? (·.1 == id) = other at related ⊢
        cases related with
        | none => rfl
        | some here =>
            simp only [Option.map_some, here.tag]
            split
            next list =>
              rw [Html.shownChoices_eq, Html.shownChoices_eq, Html.shownSize_eq twin,
                here.options (eq_of_beq list)]
            next => rfl

/-- Nothing is shown of an input that differs: either it is no password, or it is masked. -/
theorem masked_inputChoices :
    masked f.inputType (inputChoices { s with elements := elements } f) =
      masked e.inputType (inputChoices s e) := by
  rw [inputChoices, inputChoices, suggestions_eq twin same, twin.inputType_eq]
  by_cases password : e.inputType = "password"
  · have masks := Html.mask_inputValue twin
    -- Nothing is suggested for a password, so the value is all that could be told apart.
    have noneSuggested : suggestions s e = [] := by simp [suggestions, password, withoutSuggestions]
    rw [noneSuggested, password]
    cases here : inputValue e with
    | none =>
        rw [here, Option.map_none, Option.map_eq_none_iff] at masks
        rw [masks]
    | some a =>
        rw [here, Option.map_some] at masks
        rcases Option.map_eq_some_iff.mp masks with ⟨b, there, equal⟩
        rw [there]
        simp [masked, equal]
  · rw [Html.inputValue_eq twin fun secret => password secret.2]

theorem textInput_eq : textInput { s with elements := elements } f = textInput s e := by
  have links : ∀ choices, choiceLinks { s with elements := elements } f choices =
      choiceLinks s e choices := by
    intro choices
    rw [choiceLinks, choiceLinks, twin.inputType_eq, twin.position]
    rfl
  rw [textInput, textInput, masked_inputChoices twin same, twin.inputType_eq, twin.position]
  simp only [links]

theorem inputOutput_eq : inputOutput { s with elements := elements } f = inputOutput s e := by
  have toggle : toggleText s.options f = toggleText s.options e := by
    rw [toggleText, toggleText, twin.flag_eq "checked" (by decide)]
  simp only [inputOutput, textInput_eq twin same, toggle, twin.inputType_eq, twin.position,
    twin.flag_eq "disabled" (by decide)]
  by_cases image : e.inputType = "image"
  · have shown : ¬ Html.IsPassword e.tag e.properties := by
      intro secret
      have password : e.inputType = "password" := secret.2
      rw [image] at password
      exact absurd password (by decide)
    have value := Html.inputValue_eq twin shown
    have same : imageInput { s with elements := elements } f = imageInput s e := by
      rw [imageInput, imageInput, value, twin.attribute_eq "alt" (by decide),
        twin.attribute_eq "src" (by decide), twin.attribute_eq "title" (by decide), twin.position]
      rfl
    rw [same]
  · simp [image]

end Inputs

theorem State.freezeBase_elements (s : State) (href : Option String)
    (elements : List (String × Element)) :
    freezeBase { s with elements := elements } href =
      { s.freezeBase href with elements := elements } := by
  unfold freezeBase
  split <;> rfl

structure Html.Element.Counterpart (cx : Sight) (e f : Element) : Prop extends e.Twin f where
  inside : AlikeAll Indistinct Hidden (cx.inside e.tag e.properties) e.children f.children

section Handlers

open Conversion (Agree)
open Handler (groupFrom shownChoices spreadsOut taskOf unwrapDivs)
open Handlers (Registered)

theorem Html.Element.Counterpart.toText_eq {cx : Sight} {e f : Element} (both : e.Counterpart cx f)
    (read : (cx.inside e.tag e.properties).text) : f.toText = e.toText :=
  both.toTwin.toText_eq (both.inside.textOf_eq read)

theorem Handler.listItem_eq (walk : Walk) (e : Element) (parent : Option Element) :
    listItem walk e parent = (do
      let ns ← walk.children { e with children := (taskOf e).2 }
      return some (.parent e.position
        (.listItem (spreadsOut false (taskOf e).2) (taskOf e).1) (Markdown.wrap ns))) := by
  unfold listItem taskOf
  cases leadingToggle e.children <;> rfl

variable {walk : Walk} {cx : Sight} {e f : Element} (agrees : walk.AgreesBelow e.toNode.size)
  (both : e.Counterpart cx f)

include agrees both

theorem agree_children : Agree cx.table (walk.children e) (walk.children f) := by
  refine Agree.all (agrees.counterparts ?_ both.inside (Nat.lt_succ_self _)) _ _
  intro around
  simp [Sight.inside, around]

theorem agree_listItem (named : Text.lower e.tag ∈ ["dd", "dt", "li"]) (p q : Option Element) :
    Agree cx.table (Handler.listItem walk e p) (Handler.listItem walk f q) := by
  obtain ⟨task, lead, alike⟩ := both.inside.taskOf (by simp [Sight.inside, named])
  have spread := alike.spreadsOut_eq (by simp [Sight.inside, named]) false
  have shorter : Html.Node.sizeAll (taskOf e).2 ≤ Html.Node.sizeAll e.children := by
    unfold taskOf
    split
    next found => exact Handler.sizeAll_leadingToggle found
    next => exact Nat.le_refl _
  have content : Agree cx.table (walk.children { e with children := (taskOf e).2 })
      (walk.children { f with children := (taskOf f).2 }) := by
    refine Agree.all (agrees.counterparts ?_ alike (Nat.lt_succ_of_le shorter)) _ _
    intro around
    simp [Sight.inside, around]
  rw [both.position] at content
  rw [Handler.listItem_eq, Handler.listItem_eq, task, spread, both.position]
  exact content.bind fun _ => .pure _ _

theorem agree_definitionList (named : Text.lower e.tag = "dl") (p q : Option Element) :
    Agree cx.table (Handler.definitionList walk e p) (Handler.definitionList walk f q) := by
  have nodes : List.Forall₂ (walk.Counterpart cx.table) (unwrapDivs e.children)
      (unwrapDivs f.children) := by
    apply agrees.unwrapped _ _ both.inside (Nat.lt_succ_self _)
    · intro around
      simp [Sight.inside, around]
    · simp [Sight.inside, named]
  have groups := sameGroup_groupFrom nodes (g := {}) (h := {}) ⟨.nil, .nil⟩ false
  simp only [Handler.definitionList, both.position]
  refine (agree_groupItems groups e f).bind fun items => ?_
  split
  · exact .pure _ _
  · exact .pure _ _

theorem agree_table (named : Text.lower e.tag = "table") (p q : Option Element) :
    Agree cx.table (Handler.table walk e p) (Handler.table walk f q) := by
  have layout : Handler.layout f = Handler.layout e :=
    both.inside.foldl_gridElementsIn (by simp [Sight.inside, named]) {}
  have children : Agree true (walk.children e) (walk.children f) := by
    refine Agree.all (agrees.counterparts ?_ both.inside (Nat.lt_succ_self _)) _ _
    intro _
    simp [Sight.inside, named]
  refine Agree.ifInTable ?_ ?_
  · intro around
    have text := both.toText_eq (by simp [Sight.inside, named, around])
    rw [text, both.position]
    exact .pure _ _
  · simp only [layout, both.position]
    exact children.tableScope.bind fun _ => .pure _ _

theorem agree_handled {key : String} {handler : TagHandler} (registered : Registered key handler)
    (named : Text.lower e.tag = key) (p q : Option Element) :
    Agree cx.table (handler walk e p) (handler walk f q) := by
  have twin : e.Twin f := both.toTwin
  have children := agree_children agrees both
  have leaf : ∀ output : Option Output, Agree cx.table (pure output) (pure output) :=
    fun output => .pure cx.table output
  have literal : key ∈ Html.literalTags → f.toText = e.toText := by
    intro member
    exact both.toText_eq (by simp [Sight.inside, named, member])
  have marked : ∀ shape, Agree cx.table (Handler.marked shape walk e p)
      (Handler.marked shape walk f q) := by
    intro shape
    simp only [Handler.marked, twin.position]
    exact children.bind fun _ => leaf _
  cases registered with
  | ignore => exact leaf none
  | passThrough => exact children.bind fun _ => leaf _
  | flow => exact children.bind fun _ => leaf _
  | link =>
      simp only [Handler.link, twin.attribute_eq "href" (by decide),
        twin.attribute_eq "title" (by decide), twin.position]
      exact children.bind fun _ => (Agree.resolve _ _).bind fun _ => leaf _
  | media =>
      simp only [Handler.media, Html.mediaSource_eq twin both.inside, Handler.posterImage,
        Html.poster_eq twin, twin.attribute_eq "title" (by decide), twin.position]
      refine children.bind fun ns => ?_
      split
      · exact leaf _
      · refine Agree.bind ?_ fun _ => (Agree.resolve _ _).bind fun _ => leaf _
        split
        · exact .pure _ _
        · exact (Agree.resolve _ _).bind fun _ => .pure _ _
  | emphasis => exact marked .emphasis
  | strong => exact marked .strong
  | delete => exact marked .delete
  | base =>
      simp only [Handler.base, twin.attribute_eq "href" (by decide)]
      exact (Agree.modify (State.Scoped.freezeBase · _) (State.freezeBase_elements · _)).bind
        fun _ => leaf none
  | blockquote =>
      simp only [Handler.blockquote, twin.position]
      exact children.bind fun _ => leaf _
  | lineBreak =>
      simp only [Handler.lineBreak, twin.position]
      exact leaf _
  | wordBreak =>
      simp only [Handler.wordBreak, twin.position]
      exact leaf _
  | inlineCode member =>
      have text := literal (by simp [Html.literalTags] at member ⊢; tauto)
      simp only [Handler.inlineCode, twin.position, text]
      exact leaf _
  | listItem member => exact agree_listItem agrees both (named ▸ member) p q
  | list =>
      simp only [Handler.list, Handler.listStart, twin.tag, twin.integer_eq "start" (by decide),
        twin.position]
      exact children.bind fun _ => leaf _
  | definitionList => exact agree_definitionList agrees both named p q
  | heading =>
      simp only [Handler.heading, twin.tag, twin.position]
      exact children.bind fun _ => leaf _
  | thematicBreak =>
      simp only [Handler.thematicBreak, twin.position]
      exact leaf _
  | iframe =>
      simp only [Handler.iframe, twin.attribute_eq "src" (by decide),
        twin.attribute_eq "title" (by decide), twin.position]
      split
      · exact (Agree.resolve _ _).bind fun _ => leaf _
      · exact leaf none
  | image =>
      simp only [Handler.image, twin.attribute_eq "src" (by decide),
        twin.attribute_eq "alt" (by decide), twin.attribute_eq "title" (by decide), twin.position]
      exact (Agree.resolve _ _).bind fun _ => leaf _
  | input => exact Agree.reads fun s elements same => inputOutput_eq twin same
  | select =>
      have options := both.inside.options_eq (by simp [Sight.inside, named])
      have choices : shownChoices f f = shownChoices e e := by
        rw [Html.shownChoices_eq, Html.shownChoices_eq, Html.shownSize_eq twin, options]
      simp only [Handler.select, choices, twin.position]
      split
      · exact leaf none
      · exact leaf _
  | textarea =>
      have text := literal (by decide)
      simp only [Handler.textarea, twin.position, text]
      exact leaf _
  | code member =>
      have text := literal (by simp [Html.literalTags] at member ⊢; tauto)
      simp only [Handler.code, Html.language_eq twin both.inside, twin.position, text]
      exact leaf _
  | paragraph =>
      simp only [Handler.paragraph, twin.position]
      refine children.bind fun ns => ?_
      split
      · exact leaf none
      · exact leaf _
  | quote =>
      refine children.nestedQuote.bind fun ns => ?_
      let marks (s : State) : Option Output :=
        some (.many (Handler.quoteWith (s.options.quotePair s.quoteDepth) ns))
      exact Agree.reads (f := marks) (g := marks) fun _ _ _ => rfl
  | table => exact agree_table agrees both named p q
  | tableRow =>
      simp only [Handler.tableRow, twin.position]
      exact (Agree.modify State.Scoped.startSpanRow State.startSpanRow_elements).bind fun _ =>
        children.bind fun _ => leaf _
  | tableCell =>
      have span : Html.CellSpan.ofElement f = Html.CellSpan.ofElement e := by
        simp only [Html.CellSpan.ofElement, Html.CellSpan.read,
          twin.integer_eq "colspan" (by decide), twin.integer_eq "rowspan" (by decide)]
      simp only [Handler.tableCell, span, twin.position]
      exact (Agree.modify (State.Scoped.recordSpan · _) (State.recordSpan_elements · _)).bind
        fun _ => children.bind fun _ => leaf _

end Handlers

section Convert

open Conversion (Agree)

theorem agree_step {walk : Walk} {cx : Sight} {e f : Element}
    (agrees : walk.AgreesBelow e.toNode.size) (both : e.Counterpart cx f) (p q : Option Element) :
    Agree cx.table (standard.step walk e.toNode p) (standard.step walk f.toNode q) := by
  by_cases marked : e.isIgnored
  · have alsoMarked : f.isIgnored := both.isIgnored_eq ▸ marked
    rw [Handlers.step_ignored walk p marked, Handlers.step_ignored walk q alsoMarked]
    exact .pure _ none
  · have shown : ¬ f.isIgnored := by rwa [both.isIgnored_eq]
    cases found : standard.find? e.tag with
    | none =>
        have unknown : standard.find? f.tag = none := by rwa [both.tag]
        rw [Handlers.step_unhandled walk p marked found Handlers.findKind?_element,
          Handlers.step_unhandled walk q shown unknown Handlers.findKind?_element]
        exact (agree_children agrees both).bind fun _ => .pure _ _
    | some handler =>
        have alsoFound : standard.find? f.tag = some handler := by rwa [both.tag]
        have registered := Handlers.registered_of_mem (Handlers.find?_standard found)
        rw [Handlers.step_handled walk p marked found,
          Handlers.step_handled walk q shown alsoFound]
        exact (agree_handled agrees both registered rfl p q).bind fun _ => .pure _ _

theorem agree_convert {cx : Sight} {n m : Html.Node} (alike : n.Alike Indistinct Hidden cx m)
    (p q : Option Element) :
    Agree cx.table (standard.convert n p) (standard.convert m q) := by
  -- On the size: a list item is walked without its control, which is no part of the tree.
  induction size : n.size using Nat.strongRecOn generalizing cx n m p q with
  | ind bound ih =>
      subst size
      have agrees : Walk.AgreesBelow standard.convert n.size := by
        intro cx l m small alike p q
        exact ih l.size small alike p q rfl
      rw [Handlers.convert_eq, Handlers.convert_eq]
      cases alike with
      | @root _ children others position inside =>
          have content := Agree.all
            (agrees.counterparts id inside (Nat.lt_succ_self _)) none none
          let output (ns : List Markdown.Node) (s : State) : Option Output :=
            some (.parent position .root
              (if s.options.document || Markdown.wrapNeeded ns then Markdown.wrap ns else ns))
          rw [Handlers.step_of_kind (n := .root children position) _ p rfl Handlers.findKind?_root,
            Handlers.step_of_kind (n := .root others position) _ q rfl Handlers.findKind?_root]
          refine Agree.bind ?_ fun _ => .pure _ _
          exact content.bind fun ns =>
            Agree.reads (f := output ns) (g := output ns) fun _ _ _ => rfl
      | @element _ tag properties more children others position equal inside =>
          let e : Element := ⟨tag, properties, children, position⟩
          let f : Element := ⟨tag, more, others, position⟩
          have both : e.Counterpart cx f := ⟨equal.twin children others position, inside⟩
          exact agree_step agrees both p q
      | @hidden _ tag properties more children others position equal ignored unseen =>
          let e : Element := ⟨tag, properties, children, position⟩
          let f : Element := ⟨tag, more, others, position⟩
          have twin : e.Twin f := equal.twin children others position
          have alsoIgnored : f.isIgnored := twin.isIgnored_eq ▸ ignored
          change Agree cx.table (standard.step standard.convert e.toNode p)
            (standard.step standard.convert f.toNode q)
          rw [Handlers.step_ignored _ p ignored, Handlers.step_ignored _ q alsoIgnored]
          exact .pure _ none
      | text =>
          rw [Handlers.step_of_kind _ p rfl Handlers.findKind?_text,
            Handlers.step_of_kind _ q rfl Handlers.findKind?_text]
          exact .pure _ _
      | comment =>
          rw [Handlers.step_of_kind _ p rfl Handlers.findKind?_comment,
            Handlers.step_of_kind _ q rfl Handlers.findKind?_comment]
          exact .pure _ _
      | doctype =>
          rw [Handlers.step_of_kind _ p rfl Handlers.findKind?_doctype,
            Handlers.step_of_kind _ q rfl Handlers.findKind?_doctype]
          exact .pure _ _

/-- Trees that are not told apart have the same result. -/
theorem convert_alike [UrlReader] {n m : Html.Node} (alike : n.Alike Indistinct Html.Unnoticed {} m)
    (options : Options) : convert options standard n = convert options standard m := by
  have minified : (n.minify options.newlines).Alike Indistinct Hidden {}
      (m.minify options.newlines) := (alike.minifyNode _).alike
  have start : (State.start options (n.minify options.newlines)).Alike
      (State.start options (m.minify options.newlines)) := ⟨_, minified.identified, rfl⟩
  have same := (agree_convert minified none none _ _ start nofun).1
  rw [convert, convert, walkTree, walkTree, same]

end Convert

end HtmlToMarkdown
