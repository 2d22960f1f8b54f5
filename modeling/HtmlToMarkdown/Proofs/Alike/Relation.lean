import HtmlToMarkdown.Conversion.Controls
import HtmlToMarkdown.Conversion.Lists
import HtmlToMarkdown.Conversion.State
import HtmlToMarkdown.Conversion.Tables
import HtmlToMarkdown.Html.Whitespace
import HtmlToMarkdown.Proofs.Whitespace.Thinning

/-!
Source trees that a conversion does not tell apart. They have the same shape and the same texts,
except in two places: a password may be another one of the same length, and an ignored element may
hold other content, provided that nothing that reads source content on its own gets to see it.
-/

namespace HtmlToMarkdown.Html

open Handler (Layout enabledOptions gridElementsIn isToggle spreadsOut)

/-- What the elements around a place read of all that is below them, without walking over it. -/
structure Sight where
  /-- The text. -/
  text : Bool := false
  /-- The options of a control or of a list of suggestions. -/
  choices : Bool := false
  /-- The rows and cells of a table. -/
  table : Bool := false
  /-- The blocks of an item. -/
  blocks : Bool := false
  /-- A control at the front of an item, or of a paragraph there. -/
  lead : Bool := false
  /-- The terms and definitions in a `div`. -/
  terms : Bool := false

def literalTags : List String :=
  ["code", "kbd", "listing", "plaintext", "pre", "samp", "textarea", "tt", "var", "xmp"]

def isNamedList (tag : String) (properties : Properties) : Bool :=
  tag == "datalist" && ((Element.mk tag properties [] none).attribute? "id").isSome

theorem isNamedList_of_id {e : Element} {id : String} (list : e.tag = "datalist")
    (named : e.attribute? "id" = some id) : isNamedList e.tag e.properties := by
  have found : ((Element.mk e.tag e.properties [] none).attribute? "id").isSome :=
    Option.isSome_of_eq_some named
  rw [isNamedList, found, list]
  rfl

def Sight.inside (cx : Sight) (tag : String) (properties : Properties) : Sight :=
  let key := Text.lower tag
  { text := cx.text || literalTags.contains key || (cx.choices && tag == "option") ||
      (cx.table && key == "table")
    choices := cx.choices || key == "select" || isNamedList tag properties
    table := cx.table || key == "table"
    blocks := ["dd", "dt", "li"].contains key || (cx.blocks && !isPhrasingTag tag && tag != "p")
    lead := ["dd", "dt", "li"].contains key || (cx.lead && tag == "p")
    terms := key == "dl" }

/-- What is read of the siblings after a node: in front of a control there may be white space, which
minification removes, and nothing else. -/
def Sight.after (cx : Sight) : Node → Sight
  | .text value _ => if value.toList.all isWhite then cx else { cx with lead := false }
  | _ => { cx with lead := false }

section After

variable (cx : Sight) (n : Node)

/-- The siblings after a node are read like the node itself, except for a control in front. -/
theorem Sight.after_eq : ∃ lead, cx.after n = { cx with lead := lead } := by
  unfold after
  split
  · split
    · exact ⟨cx.lead, rfl⟩
    · exact ⟨false, rfl⟩
  · exact ⟨false, rfl⟩

@[simp] theorem Sight.text_after : (cx.after n).text = cx.text := by
  obtain ⟨_, same⟩ := cx.after_eq n
  rw [same]

@[simp] theorem Sight.choices_after : (cx.after n).choices = cx.choices := by
  obtain ⟨_, same⟩ := cx.after_eq n
  rw [same]

@[simp] theorem Sight.table_after : (cx.after n).table = cx.table := by
  obtain ⟨_, same⟩ := cx.after_eq n
  rw [same]

@[simp] theorem Sight.blocks_after : (cx.after n).blocks = cx.blocks := by
  obtain ⟨_, same⟩ := cx.after_eq n
  rw [same]

@[simp] theorem Sight.terms_after : (cx.after n).terms = cx.terms := by
  obtain ⟨_, same⟩ := cx.after_eq n
  rw [same]

theorem Sight.after_of_white {value : String} (white : value.toList.all isWhite)
    (position : Option Position) : cx.after (.text value position) = cx := if_pos white

end After

section Alike

variable (same : String → Properties → Properties → Prop)
  (hides : Sight → Element → List Node → Prop)

mutual

/-- Trees that differ in the properties of elements as `same` allows, and in the content of ignored
elements as `hides` allows where the elements around read what they do. -/
inductive Node.Alike : Sight → Node → Node → Prop
  | root {cx : Sight} {children others : List Node} {position : Option Position}
    (inside : AlikeAll cx children others) :
    Node.Alike cx (.root children position) (.root others position)
  | element {cx : Sight} {tag : String} {properties more : Properties}
    {children others : List Node} {position : Option Position} (equal : same tag properties more)
    (inside : AlikeAll (cx.inside tag properties) children others) :
    Node.Alike cx (.element tag properties children position) (.element tag more others position)
  | hidden {cx : Sight} {tag : String} {properties more : Properties}
    {children others : List Node} {position : Option Position} (equal : same tag properties more)
    (ignored : (Element.mk tag properties children position).isIgnored)
    (unseen : hides cx ⟨tag, properties, children, position⟩ others) :
    Node.Alike cx (.element tag properties children position) (.element tag more others position)
  | text {cx : Sight} {value : String} {position : Option Position} :
    Node.Alike cx (.text value position) (.text value position)
  | comment {cx : Sight} {value : String} {position : Option Position} :
    Node.Alike cx (.comment value position) (.comment value position)
  | doctype {cx : Sight} {position : Option Position} :
    Node.Alike cx (.doctype position) (.doctype position)

inductive AlikeAll : Sight → List Node → List Node → Prop
  | nil {cx : Sight} : AlikeAll cx [] []
  | cons {cx : Sight} {n m : Node} {ns ms : List Node} (here : Node.Alike cx n m)
    (rest : AlikeAll (cx.after n) ns ms) : AlikeAll cx (n :: ns) (m :: ms)

end

end Alike

section Mono

variable {same equal : String → Properties → Properties → Prop}
  {hides covers : Sight → Element → List Node → Prop}

mutual

theorem Node.Alike.mono (weaker : ∀ tag p q, same tag p q → equal tag p q)
    (wider : ∀ cx (e : Element) others, e.isIgnored → hides cx e others → covers cx e others)
    {cx : Sight} {n m : Node} (alike : n.Alike same hides cx m) : n.Alike equal covers cx m := by
  match alike with
  | .root inside => exact .root (inside.mono weaker wider)
  | .element here inside => exact .element (weaker _ _ _ here) (inside.mono weaker wider)
  | .hidden here ignored unseen =>
      exact .hidden (weaker _ _ _ here) ignored (wider _ _ _ ignored unseen)
  | .text => exact .text
  | .comment => exact .comment
  | .doctype => exact .doctype

theorem AlikeAll.mono (weaker : ∀ tag p q, same tag p q → equal tag p q)
    (wider : ∀ cx (e : Element) others, e.isIgnored → hides cx e others → covers cx e others)
    {cx : Sight} {ns ms : List Node} (alike : AlikeAll same hides cx ns ms) :
    AlikeAll equal covers cx ns ms := by
  match alike with
  | .nil => exact .nil
  | .cons here rest => exact .cons (here.mono weaker wider) (rest.mono weaker wider)

end

end Mono

def NoneHidden (_ : Sight) (_ : Element) (_ : List Node) : Prop := False

def secretNames : List String := ["placeholder", "value"]

/-- A control that shows no more of its value than the length. -/
def IsPassword (tag : String) (properties : Properties) : Prop :=
  Text.lower tag = "input" ∧ (Element.mk tag properties [] none).inputType = "password"

/-- Properties that only differ in a password, of which they have the same length. -/
structure Indistinct (tag : String) (p q : Properties) : Prop where
  plain (name : String) (shown : canonicalName name ∉ secretNames) : q.lookup name = p.lookup name
  secret (name : String) : q.lookup name = p.lookup name ∨
    IsPassword tag p ∧ ∃ a b, p.lookup name = some (.text a) ∧ q.lookup name = some (.text b) ∧
      a.length = b.length

structure Element.Twin (e f : Element) : Prop where
  tag : f.tag = e.tag
  position : f.position = e.position
  properties : Indistinct e.tag e.properties f.properties

theorem Indistinct.twin {tag : String} {properties more : Properties}
    (equal : Indistinct tag properties more) (children others : List Node)
    (position : Option Position) :
    Element.Twin ⟨tag, properties, children, position⟩ ⟨tag, more, others, position⟩ :=
  ⟨rfl, rfl, equal⟩

namespace Element.Twin

variable {e f : Element} (twin : e.Twin f) (name : String)

section Plain

variable (shown : canonicalName name ∉ secretNames)

include twin shown

theorem property_eq : f.property? name = e.property? name := twin.properties.plain name shown

theorem attribute_eq : f.attribute? name = e.attribute? name := by
  rw [attribute?, attribute?, twin.property_eq name shown]

theorem flag_eq : f.hasFlag name = e.hasFlag name := by
  rw [hasFlag, hasFlag, twin.property_eq name shown]

theorem integer_eq : f.integer? name = e.integer? name := by
  rw [integer?, integer?, twin.attribute_eq name shown]

end Plain

include twin

theorem classes_eq : f.classes = e.classes := by
  rw [classes, classes, twin.property_eq "class" (by decide)]

theorem inputType_eq : f.inputType = e.inputType := by
  rw [inputType, inputType, twin.attribute_eq "type" (by decide)]

theorem isIgnored_eq : f.isIgnored = e.isIgnored := by
  rw [isIgnored, isIgnored, twin.attribute_eq "data-mdast" (by decide)]

theorem public_eq (shown : ¬ IsPassword e.tag e.properties) : f.property? name = e.property? name :=
  (twin.properties.secret name).resolve_right fun differ => shown differ.1

end Element.Twin

/-- Whether nothing but white space stands in front of a control, or in front of a paragraph that
begins so. -/
def controlLeads : List Node → Bool
  | .text value _ :: ns => value.toList.all isWhite && controlLeads ns
  | .element tag properties children position :: _ =>
    isToggle ⟨tag, properties, children, position⟩ || tag == "p" && controlLeads children
  | _ => false

/-- Other content of an ignored element that none of those who read source content can tell from
its own. -/
structure Hidden (cx : Sight) (e : Element) (others : List Node) : Prop where
  ids : identifiedIn e.children = [] ∧ identifiedIn others = []
  text (read : cx.text) : e.tag ∈ ["br", "script", "style", "template"]
  choices (read : cx.choices ∨ isNamedList e.tag e.properties) :
    e.tag ≠ "option" ∧ enabledOptions e.children = [] ∧ enabledOptions others = []
  grid (read : cx.table) (part : e.tag ≠ "table") (l : Layout) :
    (gridElementsIn others).foldl Layout.read l =
      (gridElementsIn e.children).foldl Layout.read l
  toggle (read : cx.lead) (paragraph : e.tag = "p") :
    ¬ controlLeads e.children ∧ ¬ controlLeads others
  spread (read : cx.blocks) (block : ¬ isPhrasingTag e.tag) (apart : e.tag ≠ "p") :
    spreadsOut false others = spreadsOut false e.children
  term (read : cx.terms) : e.tag ≠ "div"

end HtmlToMarkdown.Html
