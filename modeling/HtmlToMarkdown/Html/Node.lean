import HtmlToMarkdown.Html.Properties
import HtmlToMarkdown.Position
import HtmlToMarkdown.Text.Basic

namespace HtmlToMarkdown.Html

inductive Node where
  | root (children : List Node) (position : Option Position)
  | element (tag : String) (properties : Properties) (children : List Node)
      (position : Option Position)
  | text (value : String) (position : Option Position)
  | comment (value : String) (position : Option Position)
  | doctype (position : Option Position)
  deriving Inhabited

structure Element where
  tag : String
  properties : Properties
  children : List Node
  position : Option Position
  deriving Inhabited

def Element.toNode (e : Element) : Node := .element e.tag e.properties e.children e.position

namespace Node

def kind : Node → String
  | root _ _ => "root"
  | element _ _ _ _ => "element"
  | text _ _ => "text"
  | comment _ _ => "comment"
  | doctype _ => "doctype"

def asElement? : Node → Option Element
  | element tag properties children position => some ⟨tag, properties, children, position⟩
  | _ => none

def isElement (n : Node) : Bool := n.asElement?.isSome

def isTag (n : Node) (tag : String) : Bool :=
  match n.asElement? with
  | some e => e.tag == tag
  | none => false

def value? : Node → Option String
  | text value _ => some value
  | comment value _ => some value
  | _ => none

def children? : Node → Option (List Node)
  | root children _ => some children
  | element _ _ children _ => some children
  | _ => none

def children (n : Node) : List Node := n.children?.getD []

def withChildren (n : Node) (children : List Node) : Node :=
  match n with
  | root _ position => root children position
  | element tag properties _ position => element tag properties children position
  | n => n

def position : Node → Option Position
  | root _ p => p
  | element _ _ _ p => p
  | text _ p => p
  | comment _ p => p
  | doctype p => p

def addChildren (n : Node) (added : List Node) : Node := n.withChildren (n.children ++ added)

mutual

/-- The text of a node and its descendants. A break is a line ending; scripts, styles and
templates have no text. -/
def toText : Node → String
  | text value _ => value
  | root children _ => textOf children
  | element tag _ children _ =>
    if tag == "br" then "\n"
    else if tag == "script" || tag == "style" || tag == "template" then ""
    else textOf children
  | comment _ _ => ""
  | doctype _ => ""

def textOf : List Node → String
  | [] => ""
  | n :: ns => n.toText ++ textOf ns

end

mutual

def size : Node → Nat
  | root children _ => sizeAll children + 1
  | element _ _ children _ => sizeAll children + 1
  | _ => 1

def sizeAll : List Node → Nat
  | [] => 0
  | n :: ns => n.size + sizeAll ns

end

end Node

namespace Element

def named (tag : String) : Element :=
  ⟨Text.asciiLower tag, OrderedMap.empty, [], none⟩

def withAttributes (tag : String) (attributes : List (String × String)) : Element :=
  { named tag with
    properties := OrderedMap.ofList (attributes.map fun (name, value) => (name, .text value)) }

def property? (e : Element) (name : String) : Option PropertyValue := e.properties.lookup name

def attribute? (e : Element) (name : String) : Option String :=
  match e.property? name with
  | none => none
  | some (.flag _) => none
  | some value => if value.asText == "" then none else some value.asText

/-- A property that is present counts as set unless it is `false`. -/
def hasFlag (e : Element) (name : String) : Bool :=
  match e.property? name with
  | none => false
  | some (.flag b) => b
  | some _ => true

def classes (e : Element) : List String :=
  match e.property? "class" with
  | some (.list items) => items
  | some (.text s) => Text.classNames s
  | _ => []

def inputType (e : Element) : String :=
  ((e.attribute? "type").map Text.asciiLower).getD "text"

def isIgnored (e : Element) : Bool := e.attribute? "data-mdast" == some "ignore"

def elementChildren (e : Element) : List Element := e.children.filterMap Node.asElement?

def toText (e : Element) : String := e.toNode.toText

def integer? (e : Element) (name : String) : Option Int :=
  (e.attribute? name).bind Text.leadingInteger

end Element

structure CellSpan where
  columns : Nat := 1
  rows : Nat := 1
  deriving DecidableEq, Repr

namespace CellSpan

def maxColumns : Nat := 1000

def maxRows : Nat := 65534

def read (e : Element) (name : String) (most : Nat) : Nat :=
  match e.integer? name with
  | some n => if 0 < n then min n.toNat most else 1
  | none => 1

def ofElement (e : Element) : CellSpan := ⟨read e "colspan" maxColumns, read e "rowspan" maxRows⟩

def isMerged (s : CellSpan) : Bool := 1 < s.columns || 1 < s.rows

end CellSpan

end HtmlToMarkdown.Html
