import HtmlToMarkdown.Proofs.Walk.Scope

namespace HtmlToMarkdown

open Handlers (standard)
open Html (Element)
open Html.Node (Tagged)

/-- No base, and no input with a list of suggestions. -/
def Html.SelfContained (tag : String) (properties : Html.Properties) : Prop :=
  Text.lower tag ≠ "base" ∧
    (Text.lower tag = "input" → (Element.mk tag properties [] none).attribute? "list" = none)

/-- An action that leaves the base as it is and neither reads nor changes the elements by `id`. -/
structure Conversion.Independent {α : Type} (act : Conversion α) : Prop where
  base (s : State) : (act.run s).2.baseFound = s.baseFound ∧ (act.run s).2.base = s.base
  blind (s : State) (elements : List (String × Element)) :
    act.run { s with elements := elements } =
      ((act.run s).1, { (act.run s).2 with elements := elements })

namespace State

variable (s : State) (span : Html.CellSpan) (elements : List (String × Element))

theorem base_startSpanRow :
    s.startSpanRow.baseFound = s.baseFound ∧ s.startSpanRow.base = s.base := by
  unfold startSpanRow
  split <;> exact ⟨rfl, rfl⟩

theorem base_recordSpan :
    (s.recordSpan span).baseFound = s.baseFound ∧ (s.recordSpan span).base = s.base := by
  unfold recordSpan
  split <;> exact ⟨rfl, rfl⟩

theorem startSpanRow_elements :
    startSpanRow { s with elements := elements } =
      { s.startSpanRow with elements := elements } := by
  cases frames : s.spanFrames <;> simp [startSpanRow, frames]

theorem recordSpan_elements :
    recordSpan { s with elements := elements } span =
      { s.recordSpan span with elements := elements } := by
  cases frames : s.spanFrames <;> simp [recordSpan, frames]

end State

namespace Conversion.Independent

variable {α β : Type} {act : Conversion α}

theorem bind {next : α → Conversion β} (first : Independent act)
    (rest : ∀ a, Independent (next a)) : Independent (act >>= next) where
  base s := by
    have before := first.base s
    have after := (rest (act.run s).1).base (act.run s).2
    exact ⟨after.1.trans before.1, after.2.trans before.2⟩
  blind s elements := by
    change (next (act.run { s with elements := elements }).1).run
      (act.run { s with elements := elements }).2 = _
    rw [first.blind s elements]
    exact (rest _).blind _ elements

theorem reads {f : State → α} (blind : ∀ s elements, f { s with elements := elements } = f s) :
    Independent (Conversion.reads f) where
  base _ := ⟨rfl, rfl⟩
  blind s elements := by rw [run_reads, run_reads, blind]

theorem modify {f : State → State}
    (kept : ∀ s, (f s).baseFound = s.baseFound ∧ (f s).base = s.base)
    (blind : ∀ s elements, f { s with elements := elements } = { f s with elements := elements }) :
    Independent (modify f : Conversion PUnit) where
  base := kept
  blind s elements := congrArg (PUnit.unit, ·) (blind s elements)

theorem nestedQuote (holds : Independent act) : Independent (Conversion.nestedQuote act) where
  base s := holds.base { s with quoteDepth := s.quoteDepth + 1 }
  blind s elements := by
    have inside := holds.blind { s with quoteDepth := s.quoteDepth + 1 } elements
    rw [run_nestedQuote, run_nestedQuote]
    dsimp only
    rw [inside]

theorem tableScope (holds : Independent act) : Independent (Conversion.tableScope act) where
  base s := holds.base { s with inTable := true, spanFrames := [] :: s.spanFrames }
  blind s elements := by
    have inside := holds.blind { s with inTable := true, spanFrames := [] :: s.spanFrames } elements
    rw [run_tableScope, run_tableScope]
    dsimp only
    rw [inside]

end Conversion.Independent

theorem Handler.inputOutput_elements {e : Element} (noList : e.attribute? "list" = none) (s : State)
    (elements : List (String × Element)) :
    inputOutput { s with elements := elements } e = inputOutput s e := by
  have none_suggested : ∀ s : State, suggestions s e = [] := by
    intro s
    simp [suggestions, noList]
  have choices : inputChoices { s with elements := elements } e = inputChoices s e := by
    simp only [inputChoices, none_suggested]
  have links : choiceLinks { s with elements := elements } e = choiceLinks s e := rfl
  simp only [inputOutput, textInput, choices, links]
  rfl

open Conversion (Independent)

theorem independent_rules :
    ActionRules Html.SelfContained fun _ act => Independent act where
  pure _ := ⟨fun _ => ⟨rfl, rfl⟩, fun _ _ => rfl⟩
  bind := .bind
  reads := .reads
  input e holds named := by
    have noList : e.attribute? "list" = none := holds.2 named
    apply Independent.reads
    intro s elements
    rw [Handler.inputOutput_elements noList]
  base e holds named := absurd named holds.1
  row := .modify State.base_startSpanRow State.startSpanRow_elements
  cell span := .modify (State.base_recordSpan · span) (State.recordSpan_elements · span)
  nestedQuote := .nestedQuote
  tableScope := .tableScope

theorem run_nodes_eq {n : Html.Node} (apart : n.Throughout (Tagged Html.SelfContained))
    (parent : Option Element) {s : State} (closed : s.spanFrames = []) :
    ((Walk.nodes standard.convert n parent).run s).2 = s := by
  have kept := scoped_nodes n parent s
  have base := (independent_rules.convert apart parent).base s
  generalize ((Walk.nodes standard.convert n parent).run s).2 = t at kept base
  have tables : t.spanFrames = s.spanFrames := by
    rw [closed]
    exact (closed ▸ kept.tables).eq_nil
  exact State.ext kept.options kept.readBase kept.elements base.1 base.2 kept.quoteDepth
    kept.inTable tables

/-- Where no table is open, each of several siblings is converted as if it came first. -/
theorem run_all_eq {ns : List Html.Node}
    (apart : ∀ n ∈ ns, n.Throughout (Tagged Html.SelfContained)) (parent : Option Element)
    {s : State} (closed : s.spanFrames = []) :
    (Walk.all standard.convert parent ns).run s =
      (ns.flatMap fun n => ((Walk.nodes standard.convert n parent).run s).1, s) := by
  induction ns with
  | nil => rfl
  | cons n ns ih =>
      obtain ⟨here, rest⟩ := List.forall_mem_cons.mp apart
      have first := run_nodes_eq here parent closed
      rw [Walk.all_cons, Conversion.run_append, first, ih rest, List.flatMap_cons]

end HtmlToMarkdown
