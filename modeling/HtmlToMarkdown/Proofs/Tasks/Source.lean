import HtmlToMarkdown.Proofs.Pushed.Room
import HtmlToMarkdown.Proofs.Tasks.Markdown
import Mathlib.Tactic.Abel

namespace HtmlToMarkdown

open Handler (Group groupFrom leadingToggle taskOf unwrapDivs)
open Html (Element)
open Markdown (Item Task loneTasks)

namespace Html

namespace Element

def isEntry (e : Element) : Bool := ["dd", "dt", "li"].contains (Text.lower e.tag)

def item (e : Element) : Item := (e.position, (taskOf e).1)

def ownTasks (e : Element) : Multiset Task := if e.isEntry then e.item.task?.toList else 0

end Element

mutual

/-- The items that come of a node without anything around them. Where content is made into blocks
(`flowing`) those in links and deletions are among them. -/
def Node.openItems (inTable flowing : Bool) : Node → Multiset Item
  | .element tag properties children position =>
    let e : Element := ⟨tag, properties, children, position⟩
    match e.role false inTable with
    | .through => openItemsIn inTable flowing children
    | .cover => if flowing then openItemsIn inTable true children else 0
    | .flow =>
      if e.isEntry then {e.item}
      else if Text.lower tag == "blockquote" then 0
      else openItemsIn inTable true children
    | _ => 0
  | _ => 0

def openItemsIn (inTable flowing : Bool) : List Node → Multiset Item
  | [] => 0
  | n :: ns => n.openItems inTable flowing + openItemsIn inTable flowing ns

end

end Html

/-- The tasks of a group that are unwrapped. -/
def Handler.Group.unwrappedTasks (inTable : Bool) (g : Group) : Multiset Task :=
  loneTasks (Html.openItemsIn inTable false g.terms) +
    loneTasks (Html.openItemsIn inTable false g.definitions)

namespace Html

/-- The tasks of a list of definitions that are unwrapped. -/
def Element.unwrappedTasks (inTable : Bool) (e : Element) : Multiset Task :=
  if Text.lower e.tag == "dl" then
    ((groupFrom {} false (unwrapDivs e.children)).map (·.unwrappedTasks inTable)).sum
  else 0

mutual

def Node.tally (count : Bool → Element → Multiset Task) (ofTerms inTable : Bool) :
    Node → Multiset Task
  | .root children _ => tallyIn count false inTable children
  | .element tag properties children position =>
    let e : Element := ⟨tag, properties, children, position⟩
    let role := e.role ofTerms inTable
    if role.isAtomic then 0
    else count inTable e + tallyIn count role.isListOfTerms (role.isTable || inTable) children
  | _ => 0

def tallyIn (count : Bool → Element → Multiset Task) (ofTerms inTable : Bool) :
    List Node → Multiset Task
  | [] => 0
  | n :: ns => n.tally count ofTerms inTable + tallyIn count ofTerms inTable ns

end

/-- The items of a document with a control in front of their content. -/
def Node.tasks (n : Node) : Multiset Task := n.tally (fun _ e => e.ownTasks) false false

def Node.unwrappedTasks (n : Node) : Multiset Task := n.tally Element.unwrappedTasks false false

end Html

open Html (openItemsIn tallyIn)

def Handler.Group.tally (count : Bool → Element → Multiset Task) (inTable : Bool) (g : Group) :
    Multiset Task :=
  tallyIn count false inTable g.terms + tallyIn count false inTable g.definitions

def countingTags : List String := ["dd", "dl", "dt", "li"]

def Sparse (count : Bool → Element → Multiset Task) : Prop :=
  ∀ inTable e, Text.lower e.tag ∉ countingTags → count inTable e = 0

theorem sparse_ownTasks : Sparse fun _ e => e.ownTasks := by
  intro inTable e apart
  refine if_neg fun entry => apart ?_
  have listed : Text.lower e.tag ∈ ["dd", "dt", "li"] := by simpa [Element.isEntry] using entry
  simp only [countingTags, List.mem_cons, List.not_mem_nil, or_false] at listed ⊢
  exact listed.imp_right .inr

theorem sparse_unwrappedTasks : Sparse Element.unwrappedTasks := by
  intro inTable e apart
  refine if_neg fun list => apart ?_
  simp [countingTags, eq_of_beq list]

section Tally

variable {count : Bool → Element → Multiset Task} {ofTerms inTable : Bool}

@[simp] theorem tallyIn_append (ms ns : List Html.Node) : tallyIn count ofTerms inTable (ms ++ ns) =
    tallyIn count ofTerms inTable ms + tallyIn count ofTerms inTable ns := by
  induction ms with
  | nil => exact (zero_add _).symm
  | cons m ms ih => rw [List.cons_append, tallyIn, ih, tallyIn, add_assoc]

variable {e : Element} {role : Role} (same : e.role ofTerms inTable = role)

include same

theorem tally_atomic (atomic : role.isAtomic) : e.toNode.tally count ofTerms inTable = 0 := by
  subst same
  exact if_pos atomic

theorem tally_converted (converted : role.isAtomic = false) :
    e.toNode.tally count ofTerms inTable =
      count inTable e + tallyIn count role.isListOfTerms (role.isTable || inTable) e.children := by
  subst same
  exact if_neg (Bool.eq_false_iff.mp converted)

omit same

variable (sparse : Sparse count)

include sparse

omit sparse in
theorem role_of_input (named : e.tag = "input") (ofTerms inTable : Bool) :
    e.role ofTerms inTable = .atom := by
  have lower : Text.lower "input" = "input" := by decide +kernel
  have role : roleOf "input" = .atom := by decide +kernel
  simp [Element.role, named, lower, role]

theorem tallyIn_unwrapDivs (ns : List Html.Node) :
    tallyIn count false inTable (unwrapDivs ns) = tallyIn count true inTable ns := by
  induction ns with
  | nil => rfl
  | cons n ns ih =>
      have here : tallyIn count false inTable (if n.isTag "div" then n.children else [n]) =
          n.tally count true inTable := by
        have single : tallyIn count false inTable [n] = n.tally count false inTable :=
          add_zero _
        cases n with
        | element tag properties children position =>
            let e : Element := ⟨tag, properties, children, position⟩
            split
            next isDiv =>
              have named : tag = "div" := eq_of_beq isDiv
              have role : e.role true inTable = .through := if_pos isDiv
              have uncounted : count inTable e = 0 :=
                sparse inTable e (by rw [show e.tag = "div" from named]; decide +kernel)
              have whole := @tally_converted count _ _ _ _ role rfl
              rw [uncounted, zero_add] at whole
              exact whole.symm
            next apart =>
              have role : e.role true inTable = e.role false inTable := if_neg apart
              rw [single, Html.Node.tally, Html.Node.tally, role]
        | root | text | comment | doctype => exact single
      rw [unwrapDivs, List.flatMap_cons, tallyIn_append, here, tallyIn, ← ih]
      rfl

omit sparse in
theorem tallyIn_groupFrom (group : Group) (afterDefinition : Bool) (ns : List Html.Node) :
    ((groupFrom group afterDefinition ns).map (·.tally count inTable)).sum =
      group.tally count inTable + tallyIn count false inTable ns := by
  have appended : ∀ (ms : List Html.Node) (n : Html.Node),
      tallyIn count false inTable (ms ++ [n]) =
        tallyIn count false inTable ms + n.tally count false inTable := by
    intro ms n
    rw [tallyIn_append, tallyIn, tallyIn, add_zero]
  induction ns generalizing group afterDefinition with
  | nil => exact List.sum_singleton.trans (add_zero _).symm
  | cons n ns ih =>
      rw [groupFrom, tallyIn]
      split
      · split
        · have fresh : Group.tally count inTable { terms := [n] } =
              n.tally count false inTable := (add_zero _).trans (add_zero _)
          rw [List.map_cons, List.sum_cons, ih, fresh]
        · rw [ih, Group.tally, Group.tally, appended]
          abel
      · rw [ih, Group.tally, Group.tally, appended]
        abel

theorem tallyIn_leadingToggle {ns content : List Html.Node} {toggle : Element}
    (found : leadingToggle ns = some (toggle, content)) :
    tallyIn count ofTerms inTable content = tallyIn count ofTerms inTable ns := by
  fun_induction leadingToggle ns generalizing toggle content ofTerms inTable with
  | case1 tag properties children position rest head =>
      rename_i isToggle
      rcases Prod.mk.inj (Option.some.inj found) with ⟨rfl, rfl⟩
      have named : head.tag = "input" := eq_of_beq (Bool.and_eq_true_iff.mp isToggle).1
      have none : head.toNode.tally count ofTerms inTable = 0 :=
        tally_atomic (role_of_input named ofTerms inTable) rfl
      calc tallyIn count ofTerms inTable rest
        _ = head.toNode.tally count ofTerms inTable + tallyIn count ofTerms inTable rest := by
          rw [none, zero_add]
  | case2 tag properties children position rest head notToggle paragraph =>
      rename_i ih
      rcases Option.map_eq_some_iff.mp found with ⟨⟨inner, shorter⟩, foundInside, same⟩
      rcases Prod.mk.inj same with ⟨rfl, rfl⟩
      have named : tag = "p" := eq_of_beq paragraph
      have uncounted : ∀ children, count inTable ⟨tag, properties, children, position⟩ = 0 := by
        intro children
        refine sparse inTable _ ?_
        rw [show (Element.mk tag properties children position).tag = "p" from named]
        decide +kernel
      have refilled : (Html.Node.element tag properties shorter position).tally count ofTerms
          inTable = head.toNode.tally count ofTerms inTable := by
        have role : (Element.mk tag properties shorter position).role ofTerms inTable =
            head.role ofTerms inTable := rfl
        rw [Element.toNode, Html.Node.tally, Html.Node.tally, role, uncounted, uncounted,
          ih foundInside]
      exact congrArg (· + tallyIn count ofTerms inTable rest) refilled
  | case3 => cases found
  | case4 => cases found

theorem tallyIn_taskOf (e : Element) :
    tallyIn count ofTerms inTable (taskOf e).2 = tallyIn count ofTerms inTable e.children := by
  unfold taskOf
  split
  next found => exact tallyIn_leadingToggle sparse found
  next => rfl

end Tally

section OpenItems

variable {inTable flowing : Bool} {e : Element}

theorem openItems_through (same : e.role false inTable = .through) :
    e.toNode.openItems inTable flowing = openItemsIn inTable flowing e.children := by
  rw [Element.toNode, Html.Node.openItems]
  simp only [same]

theorem openItems_cover (same : e.role false inTable = .cover) :
    e.toNode.openItems inTable flowing =
      if flowing then openItemsIn inTable true e.children else 0 := by
  rw [Element.toNode, Html.Node.openItems]
  simp only [same]

theorem openItems_flow (same : e.role false inTable = .flow) :
    e.toNode.openItems inTable flowing =
      if e.isEntry then {e.item}
      else if Text.lower e.tag == "blockquote" then 0 else openItemsIn inTable true e.children := by
  rw [Element.toNode, Html.Node.openItems]
  simp only [same]

theorem openItems_other {role : Role} (same : e.role false inTable = role)
    (other : role ∉ [Role.through, .cover, .flow]) :
    e.toNode.openItems inTable flowing = 0 := by
  rw [Element.toNode, Html.Node.openItems]
  simp only [same]
  cases role with
  | through | cover | flow => exact absurd (by decide) other
  | _ => rfl

end OpenItems

end HtmlToMarkdown
