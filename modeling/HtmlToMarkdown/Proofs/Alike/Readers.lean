import HtmlToMarkdown.Conversion.Block
import HtmlToMarkdown.Conversion.Media
import HtmlToMarkdown.Proofs.Alike.Minify
import HtmlToMarkdown.Proofs.Walk.Handlers

namespace HtmlToMarkdown.Html

open Handler (Choice Layout enabledOptions gridElements gridElementsIn isToggle leadingToggle
  spreadsOut taskOf)

section Text

mutual

theorem Node.Alike.toText_eq {cx : Sight} {n m : Node} (alike : n.Alike Indistinct Hidden cx m)
    (read : cx.text) : m.toText = n.toText := by
  match alike with
  | .root inside => exact inside.textOf_eq read
  | .element _ inside =>
      have below := inside.textOf_eq (by simp [Sight.inside, read])
      rw [Node.toText, Node.toText, below]
  | .hidden _ _ unseen =>
      have silent := unseen.text read
      simp only [List.mem_cons, List.not_mem_nil, or_false] at silent
      rcases silent with rfl | rfl | rfl | rfl <;> rfl
  | .text => rfl
  | .comment => rfl
  | .doctype => rfl

theorem AlikeAll.textOf_eq {cx : Sight} {ns ms : List Node}
    (alike : AlikeAll Indistinct Hidden cx ns ms) (read : cx.text) :
    Node.textOf ms = Node.textOf ns := by
  match alike with
  | .nil => rfl
  | .cons here rest =>
      have tail := rest.textOf_eq (by simpa using read)
      rw [Node.textOf, Node.textOf, here.toText_eq read, tail]

end

theorem Element.Twin.toText_eq {e f : Element} (twin : e.Twin f)
    (same : Node.textOf f.children = Node.textOf e.children) : f.toText = e.toText := by
  simp only [Element.toText, Element.toNode, Node.toText, twin.tag, same]

end Text

section Choices

def optionView (o : Element) : Bool × Choice := (o.hasFlag "selected", Choice.ofOption o)

theorem Element.Twin.optionView_eq {e f : Element} (twin : e.Twin f) (named : e.tag = "option")
    (same : f.toText = e.toText) : optionView f = optionView e := by
  have shown : ¬ IsPassword e.tag e.properties := by
    intro password
    rw [named] at password
    exact absurd password.1 (by decide)
  have value : f.attribute? "value" = e.attribute? "value" := by
    rw [Element.attribute?, Element.attribute?, twin.public_eq "value" shown]
  simp only [optionView, Choice.ofOption, same, value, twin.flag_eq "selected" (by decide),
    twin.attribute_eq "label" (by decide)]

theorem Indistinct.options_eq {tag : String} {properties more : Properties}
    (equal : Indistinct tag properties more) {children others : List Node}
    {position : Option Position} {ns ms : List Node}
    (below : (enabledOptions others).map optionView = (enabledOptions children).map optionView)
    (text : tag = "option" → Node.textOf others = Node.textOf children)
    (rest : (enabledOptions ms).map optionView = (enabledOptions ns).map optionView) :
    (enabledOptions (.element tag more others position :: ms)).map optionView =
      (enabledOptions (.element tag properties children position :: ns)).map optionView := by
  let e : Element := ⟨tag, properties, children, position⟩
  let f : Element := ⟨tag, more, others, position⟩
  have twin : e.Twin f := equal.twin children others position
  have own : (if tag == "option" && !f.hasFlag "disabled" then [f] else []).map optionView =
      (if tag == "option" && !e.hasFlag "disabled" then [e] else []).map optionView := by
    rw [twin.flag_eq "disabled" (by decide)]
    split
    next shown =>
      have named : tag = "option" := eq_of_beq (Bool.and_eq_true_iff.mp shown).1
      rw [List.map_singleton, List.map_singleton,
        twin.optionView_eq named (twin.toText_eq (text named))]
    next => rfl
  simp only [enabledOptions, List.map_append]
  rw [below, own, rest]

theorem AlikeAll.options_eq {cx : Sight} {ns ms : List Node}
    (alike : AlikeAll Indistinct Hidden cx ns ms) (read : cx.choices) :
    (enabledOptions ms).map optionView = (enabledOptions ns).map optionView := by
  match alike with
  | .nil => rfl
  | .cons here rest =>
      have tail := rest.options_eq (by simpa using read)
      cases here with
      | element equal inside =>
          have below := inside.options_eq (by simp [Sight.inside, read])
          exact equal.options_eq below
            (fun option => inside.textOf_eq (by simp [Sight.inside, read, option])) tail
      | hidden equal _ unseen =>
          rcases unseen.choices (.inl read) with ⟨apart, none, noneThere⟩
          exact equal.options_eq (by rw [none, noneThere]) (fun option => absurd option apart) tail
      | _ => rw [enabledOptions_literal rfl, enabledOptions_literal rfl, tail]

end Choices

section Tables

theorem Element.Twin.read_eq {e f : Element} (twin : e.Twin f) (l : Layout) :
    l.read f = l.read e := by
  have align : Handler.alignOf f = Handler.alignOf e := by
    rw [Handler.alignOf, Handler.alignOf, twin.attribute_eq "align" (by decide)]
  simp only [Layout.read, twin.tag, align]

theorem Indistinct.foldl_gridElements {tag : String} {properties more : Properties}
    (equal : Indistinct tag properties more) {children others : List Node}
    {position : Option Position} (below : tag ≠ "table" → ∀ l : Layout,
      (gridElementsIn others).foldl Layout.read l = (gridElementsIn children).foldl Layout.read l)
    (l : Layout) :
    (gridElements (.element tag more others position)).foldl Layout.read l =
      (gridElements (.element tag properties children position)).foldl Layout.read l := by
  simp only [gridElements]
  split
  · rfl
  next part =>
    rw [List.foldl_cons, List.foldl_cons, (equal.twin children others position).read_eq]
    exact below (by simpa using part) _

mutual

theorem Node.Alike.foldl_gridElements {cx : Sight} {n m : Node}
    (alike : n.Alike Indistinct Hidden cx m) (read : cx.table) (l : Layout) :
    (gridElements m).foldl Layout.read l = (gridElements n).foldl Layout.read l := by
  match alike with
  | .root _ => rfl
  | .element equal inside =>
      exact equal.foldl_gridElements
        (fun _ => inside.foldl_gridElementsIn (by simp [Sight.inside, read])) l
  | .hidden equal _ unseen => exact equal.foldl_gridElements (unseen.grid read) l
  | .text => rfl
  | .comment => rfl
  | .doctype => rfl

theorem AlikeAll.foldl_gridElementsIn {cx : Sight} {ns ms : List Node}
    (alike : AlikeAll Indistinct Hidden cx ns ms) (read : cx.table) (l : Layout) :
    (gridElementsIn ms).foldl Layout.read l = (gridElementsIn ns).foldl Layout.read l := by
  match alike with
  | .nil => rfl
  | .cons here rest =>
      simp only [gridElementsIn, List.foldl_append, here.foldl_gridElements read,
        rest.foldl_gridElementsIn (by simpa using read)]

end

end Tables

section Items

theorem spreadsOut_element {tag : String} {properties more : Properties}
    {children others : List Node} {position : Option Position} {ns ms : List Node}
    (below : ¬ isPhrasingTag tag → tag ≠ "p" → spreadsOut false others = spreadsOut false children)
    (rest : ∀ seenBlock, spreadsOut seenBlock ms = spreadsOut seenBlock ns) (seenBlock : Bool) :
    spreadsOut seenBlock (.element tag more others position :: ms) =
      spreadsOut seenBlock (.element tag properties children position :: ns) := by
  simp only [spreadsOut, rest]
  by_cases phrasing : isPhrasingTag tag
  · rw [if_pos phrasing, if_pos phrasing]
  · by_cases paragraph : tag = "p"
    · simp [paragraph]
    · rw [below phrasing paragraph]

theorem AlikeAll.spreadsOut_eq {cx : Sight} {ns ms : List Node}
    (alike : AlikeAll Indistinct Hidden cx ns ms) (read : cx.blocks) (seenBlock : Bool) :
    spreadsOut seenBlock ms = spreadsOut seenBlock ns := by
  match alike with
  | .nil => rfl
  | .cons here rest =>
      have tail := rest.spreadsOut_eq (by simpa using read)
      cases here with
      | element _ inside =>
          refine spreadsOut_element (fun phrasing paragraph => ?_) tail seenBlock
          exact inside.spreadsOut_eq (by simp [Sight.inside, read, phrasing, paragraph]) false
      | hidden _ _ unseen => exact spreadsOut_element (unseen.spread read) tail seenBlock
      | _ => rw [spreadsOut_literal rfl, spreadsOut_literal rfl, tail]

theorem Element.Twin.isToggle_eq {e f : Element} (twin : e.Twin f) : isToggle f = isToggle e := by
  rw [isToggle, isToggle, twin.tag, twin.inputType_eq]

/-- A control that is found in front of the content leads it. -/
theorem leadingToggle_eq_none {ns : List Node} (absent : ¬ controlLeads ns) :
    leadingToggle ns = none := by
  fun_induction leadingToggle ns with
  | case1 tag properties children position rest head toggle =>
      have leads : isToggle ⟨tag, properties, children, position⟩ := toggle
      simp [controlLeads, leads] at absent
  | case2 tag properties children position rest head other paragraph ih =>
      rw [ih fun leads => absent (by simp [controlLeads, paragraph, leads])]
      rfl
  | case3 => rfl
  | case4 => rfl

/-- Controls in front are set alike, and what is left is alike. -/
inductive SameLead (cx : Sight) :
    Option (Element × List Node) → Option (Element × List Node) → Prop
  | none : SameLead cx none none
  | some {e f : Element} {ns ms : List Node} (flag : f.hasFlag "checked" = e.hasFlag "checked")
    (alike : AlikeAll Indistinct Hidden { cx with lead := false } ns ms) :
    SameLead cx (some (e, ns)) (some (f, ms))

theorem Indistinct.leadingToggle {cx : Sight} {tag : String} {properties more : Properties}
    (equal : Indistinct tag properties more) {children others : List Node}
    {position : Option Position} {ns ms : List Node}
    (below : tag = "p" →
      SameLead (cx.inside tag properties) (leadingToggle children) (leadingToggle others))
    (rest : AlikeAll Indistinct Hidden { cx with lead := false } ns ms) :
    SameLead cx (leadingToggle (.element tag properties children position :: ns))
      (leadingToggle (.element tag more others position :: ms)) := by
  have twin := equal.twin children others position
  simp only [Handler.leadingToggle]
  rw [twin.isToggle_eq]
  split
  · exact .some (twin.flag_eq "checked" (by decide)) rest
  · split
    next paragraph =>
      have named : tag = "p" := eq_of_beq paragraph
      have inner := below named
      have within : { cx.inside tag properties with lead := false } =
          Sight.inside { cx with lead := false } tag properties := by
        have item : ["dd", "dt", "li"].contains (Text.lower "p") = false := by decide
        simp only [Sight.inside, named, item, Bool.false_and, Bool.false_or]
      generalize Handler.leadingToggle children = found at inner ⊢
      generalize Handler.leadingToggle others = other at inner ⊢
      cases inner with
      | none => exact .none
      | some flag alike => exact .some flag (.cons (.element equal (within ▸ alike)) rest)
    next => exact .none

theorem AlikeAll.leadingToggle {cx : Sight} {ns ms : List Node}
    (alike : AlikeAll Indistinct Hidden cx ns ms) (read : cx.lead) :
    SameLead cx (leadingToggle ns) (leadingToggle ms) := by
  match alike with
  | .nil =>
      simp only [Handler.leadingToggle]
      exact .none
  | .cons here rest =>
      cases here with
      | element equal inside =>
          refine equal.leadingToggle (fun paragraph => ?_) rest
          exact inside.leadingToggle (by simp [Sight.inside, read, paragraph])
      | hidden equal _ unseen =>
          refine equal.leadingToggle (fun paragraph => ?_) rest
          have both := unseen.toggle read paragraph
          rw [leadingToggle_eq_none both.1, leadingToggle_eq_none both.2]
          exact .none
      | _ =>
          simp only [Handler.leadingToggle]
          exact .none

theorem AlikeAll.taskOf {cx : Sight} {e f : Element}
    (alike : AlikeAll Indistinct Hidden cx e.children f.children) (read : cx.lead) :
    (taskOf f).1 = (taskOf e).1 ∧
      ∃ lead, AlikeAll Indistinct Hidden { cx with lead := lead } (taskOf e).2 (taskOf f).2 := by
  have leads := alike.leadingToggle read
  unfold Handler.taskOf
  generalize Handler.leadingToggle e.children = found at leads
  generalize Handler.leadingToggle f.children = other at leads
  cases leads with
  | none => exact ⟨rfl, cx.lead, alike⟩
  | some flag rest => exact ⟨congrArg some flag, false, rest⟩

end Items

section Elements

theorem AlikeAll.twins {cx : Sight} {ns ms : List Node}
    (alike : AlikeAll Indistinct Hidden cx ns ms) :
    List.Forall₂ Element.Twin (ns.filterMap Node.asElement?) (ms.filterMap Node.asElement?) := by
  induction ns generalizing cx ms with
  | nil =>
      cases alike
      exact .nil
  | cons n ns ih =>
      cases alike with
      | cons here rest =>
          have twins := ih rest
          cases here with
          | element equal _ => exact .cons (equal.twin _ _ _) twins
          | hidden equal _ _ => exact .cons (equal.twin _ _ _) twins
          | _ => exact twins

variable {es fs : List Element}

theorem find?_classes (twins : List.Forall₂ Element.Twin es fs) (tag : String) :
    (fs.find? (·.tag == tag)).map Element.classes =
      (es.find? (·.tag == tag)).map Element.classes := by
  induction twins with
  | nil => rfl
  | cons twin _ ih =>
      rw [List.find?_cons, List.find?_cons, twin.tag]
      split
      · rw [Option.map_some, Option.map_some, twin.classes_eq]
      · exact ih

theorem findSome?_source (twins : List.Forall₂ Element.Twin es fs) :
    (fs.filter (·.tag == "source")).findSome? (·.attribute? "src") =
      (es.filter (·.tag == "source")).findSome? (·.attribute? "src") := by
  induction twins with
  | nil => rfl
  | cons twin _ ih =>
      rw [List.filter_cons, List.filter_cons, twin.tag]
      split
      · rw [List.findSome?_cons, List.findSome?_cons, twin.attribute_eq "src" (by decide), ih]
      · exact ih

variable {cx : Sight} {e f : Element} (twin : e.Twin f)

include twin

theorem poster_eq : Handler.poster f = Handler.poster e := by
  rw [Handler.poster, Handler.poster, twin.tag, twin.attribute_eq "poster" (by decide)]

variable (alike : AlikeAll Indistinct Hidden cx e.children f.children)

include alike

theorem language_eq : Handler.language f = Handler.language e := by
  have read : ∀ found : Option Element,
      (found.bind fun code => (code.classes.findSome? Handler.languageOfClass).filter (· != "")) =
        (found.map Element.classes).bind fun classes =>
          (classes.findSome? Handler.languageOfClass).filter (· != "") := by
    intro found
    cases found <;> rfl
  have same := find?_classes alike.twins "code"
  unfold Handler.language
  rw [twin.tag]
  split
  · exact (read _).trans ((congrArg (Option.bind · _) same).trans (read _).symm)
  · rfl

theorem mediaSource_eq : Handler.mediaSource f = Handler.mediaSource e := by
  have same := findSome?_source alike.twins
  rw [Handler.mediaSource, Handler.mediaSource, twin.attribute_eq "src" (by decide)]
  exact congrArg _ same

end Elements

section Ids

structure SameEntry (x y : String × Element) : Prop where
  id : y.1 = x.1
  tag : y.2.tag = x.2.tag
  options (list : x.2.tag = "datalist") :
    (enabledOptions y.2.children).map optionView = (enabledOptions x.2.children).map optionView

theorem Indistinct.identified {tag : String} {properties more : Properties}
    (equal : Indistinct tag properties more) {children others : List Node}
    {position : Option Position}
    (options : isNamedList tag properties →
      (enabledOptions others).map optionView = (enabledOptions children).map optionView)
    (below : List.Forall₂ SameEntry (identifiedIn children) (identifiedIn others)) :
    List.Forall₂ SameEntry (identified (.element tag properties children position))
      (identified (.element tag more others position)) := by
  let e : Element := ⟨tag, properties, children, position⟩
  simp only [HtmlToMarkdown.identified]
  rw [(equal.twin children others position).attribute_eq "id" (by decide)]
  cases named : e.attribute? "id" with
  | none => exact below
  | some id =>
      exact .cons ⟨rfl, rfl, fun list => options (isNamedList_of_id (e := e) list named)⟩ below

mutual

theorem Node.Alike.identified {cx : Sight} {n m : Node} (alike : n.Alike Indistinct Hidden cx m) :
    List.Forall₂ SameEntry (identified n) (identified m) := by
  match alike with
  | .root inside => exact inside.identifiedIn
  | .element equal inside =>
      refine equal.identified (fun isNamed => ?_) inside.identifiedIn
      exact inside.options_eq (by simp [Sight.inside, isNamed])
  | .hidden equal _ unseen =>
      refine equal.identified (fun isNamed => ?_) ?_
      · have both := unseen.choices (.inr isNamed)
        rw [both.2.1, both.2.2]
      · rw [unseen.ids.1, unseen.ids.2]
        exact .nil
  | .text => exact .nil
  | .comment => exact .nil
  | .doctype => exact .nil

theorem AlikeAll.identifiedIn {cx : Sight} {ns ms : List Node}
    (alike : AlikeAll Indistinct Hidden cx ns ms) :
    List.Forall₂ SameEntry (identifiedIn ns) (identifiedIn ms) := by
  match alike with
  | .nil => exact .nil
  | .cons here rest => exact List.rel_append here.identified rest.identifiedIn

end

theorem find?_entry {entries others : List (String × Element)}
    (same : List.Forall₂ SameEntry entries others) (id : String) :
    Option.Rel SameEntry (entries.find? (·.1 == id)) (others.find? (·.1 == id)) := by
  induction same with
  | nil => exact .none
  | cons here _ ih =>
      rw [List.find?_cons, List.find?_cons, here.id]
      split
      · exact .some here
      · exact ih

end Ids

section Controls

open Handler (inputOutput inputValue mask masked shownChoices shownSize)

theorem shownChoices_eq (container control : Element) :
    shownChoices container control =
      let views := (enabledOptions container.children).map optionView
      let picked := if (views.filter (·.1)).isEmpty then views else views.filter (·.1)
      (picked.take (shownSize control)).map (·.2) := by
  have selected : ((enabledOptions container.children).map optionView).filter (·.1) =
      ((enabledOptions container.children).filter (·.hasFlag "selected")).map optionView := by
    rw [List.filter_map]
    rfl
  simp only [shownChoices, selected, List.isEmpty_map]
  split
  · rw [← List.map_take, List.map_map]
    rfl
  · rw [← List.map_take, List.map_map]
    rfl

theorem attribute_of_text {e : Element} {name value : String}
    (found : e.properties.lookup name = some (.text value)) :
    e.attribute? name = if value = "" then none else some value := by
  simp [Element.attribute?, Element.property?, found, PropertyValue.asText]

variable {e f : Element} (twin : e.Twin f)

include twin

theorem shownSize_eq : shownSize f = shownSize e := by
  rw [shownSize, shownSize, twin.flag_eq "multiple" (by decide), twin.integer_eq "size" (by decide)]

theorem mask_attribute (name : String) :
    (f.attribute? name).map mask = (e.attribute? name).map mask := by
  rcases twin.properties.secret name with same | ⟨-, a, b, here, there, length⟩
  · rw [Element.attribute?, Element.attribute?, Element.property?, Element.property?, same]
  · have lengths : b.toList.length = a.toList.length := by
      rw [String.length_toList, String.length_toList, length]
    have masks : mask b = mask a := by
      rw [mask, mask, List.map_const', List.map_const', lengths]
    have blank : b = "" ↔ a = "" := by
      rw [← String.toList_eq_nil_iff, ← String.toList_eq_nil_iff, ← List.length_eq_zero_iff,
        ← List.length_eq_zero_iff, lengths]
    rw [attribute_of_text here, attribute_of_text there]
    by_cases empty : a = ""
    · rw [if_pos empty, if_pos (blank.mpr empty)]
    · rw [if_neg empty, if_neg fun other => empty (blank.mp other), Option.map_some, masks,
        Option.map_some]

theorem mask_inputValue : (inputValue f).map mask = (inputValue e).map mask := by
  rw [inputValue, inputValue, Option.map_or, Option.map_or, mask_attribute twin,
    mask_attribute twin]

theorem inputValue_eq (shown : ¬ IsPassword e.tag e.properties) : inputValue f = inputValue e := by
  have same : ∀ name, f.attribute? name = e.attribute? name := by
    intro name
    rw [Element.attribute?, Element.attribute?, twin.public_eq name shown]
  rw [inputValue, inputValue, same, same]

end Controls

end HtmlToMarkdown.Html
