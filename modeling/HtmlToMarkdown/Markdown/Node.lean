import HtmlToMarkdown.Html.Tags
import HtmlToMarkdown.Position
import HtmlToMarkdown.Text.Basic

/-!
Syntax trees of Markdown, the result of the conversion. A node either has a place for children,
and a `Shape` says what it is besides them, or it is a leaf.
-/

namespace HtmlToMarkdown.Markdown

inductive Align
  | left
  | right
  | center
  deriving DecidableEq, Repr

namespace Align

def name : Align → String
  | left => "left"
  | right => "right"
  | center => "center"

def all : List Align := [left, right, center]

def ofName? (s : String) : Option Align := all.find? (·.name == s)

end Align

inductive Shape
  | root
  | paragraph
  | heading (depth : UInt8)
  | blockquote
  | list (ordered : Bool) (start : Option UInt32) (spread : Bool)
  | listItem (spread : Bool) (checked : Option Bool)
  | table (align : List (Option Align))
  | tableRow
  | tableCell
  | emphasis
  | strong
  | delete
  | link (url : String) (title : Option String)
  deriving DecidableEq, Repr

inductive Leaf
  | text (value : String)
  | inlineCode (value : String)
  | code (lang info : Option String) (value : String)
  | image (url : String) (title : Option String) (alt : String)
  | lineBreak
  | thematicBreak
  | html (value : String)
  deriving DecidableEq, Repr

/-- Where a node comes from. With an element name, the node counts as inline or block as that
element does. -/
structure Data where
  elementName : Option String := none
  deriving DecidableEq, Repr

structure Origin where
  position : Option Position := none
  data : Option Data := none
  deriving DecidableEq, Repr

inductive Node where
  | parent (shape : Shape) (origin : Origin) (children : List Node)
  | leaf (content : Leaf) (origin : Origin)
  deriving BEq, Repr

inductive Kind
  | root | paragraph | heading | blockquote | list | listItem | table | tableRow | tableCell
  | text | emphasis | strong | delete | inlineCode | code | link | image | lineBreak
  | thematicBreak | html
  deriving DecidableEq, Repr

namespace Kind

def all : List Kind := [
  root, paragraph, heading, blockquote, list, listItem, table, tableRow, tableCell, text,
  emphasis, strong, delete, inlineCode, code, link, image, lineBreak, thematicBreak, html]

def name : Kind → String
  | root => "root"
  | paragraph => "paragraph"
  | heading => "heading"
  | blockquote => "blockquote"
  | list => "list"
  | listItem => "listItem"
  | table => "table"
  | tableRow => "tableRow"
  | tableCell => "tableCell"
  | text => "text"
  | emphasis => "emphasis"
  | strong => "strong"
  | delete => "delete"
  | inlineCode => "inlineCode"
  | code => "code"
  | link => "link"
  | image => "image"
  | lineBreak => "break"
  | thematicBreak => "thematicBreak"
  | html => "html"

def ofName? (s : String) : Option Kind := all.find? (·.name == s)

end Kind

def Shape.kind : Shape → Kind
  | root => .root
  | paragraph => .paragraph
  | heading _ => .heading
  | blockquote => .blockquote
  | list _ _ _ => .list
  | listItem _ _ => .listItem
  | table _ => .table
  | tableRow => .tableRow
  | tableCell => .tableCell
  | emphasis => .emphasis
  | strong => .strong
  | delete => .delete
  | link _ _ => .link

def Leaf.kind : Leaf → Kind
  | text _ => .text
  | inlineCode _ => .inlineCode
  | code _ _ _ => .code
  | image _ _ _ => .image
  | lineBreak => .lineBreak
  | thematicBreak => .thematicBreak
  | html _ => .html

def Leaf.textContent : Leaf → String
  | text value => value
  | inlineCode value => value
  | code _ _ value => value
  | image _ _ alt => alt
  | html value => value
  | lineBreak => ""
  | thematicBreak => ""

def Shape.isPhrasing : Shape → Bool
  | emphasis => true
  | strong => true
  | delete => true
  | link _ _ => true
  | _ => false

def Leaf.isPhrasing : Leaf → Bool
  | code _ _ _ => false
  | thematicBreak => false
  | _ => true

namespace Node

def plain (shape : Shape) (children : List Node) : Node := .parent shape {} children

def text (value : String) : Node := .leaf (.text value) {}

def paragraph (children : List Node) : Node := plain .paragraph children

def kind : Node → Kind
  | parent shape _ _ => shape.kind
  | leaf content _ => content.kind

def origin : Node → Origin
  | parent _ origin _ => origin
  | leaf _ origin => origin

def withOrigin (origin : Origin) : Node → Node
  | parent shape _ children => parent shape origin children
  | leaf content _ => leaf content origin

def position (n : Node) : Option Position := n.origin.position

def data (n : Node) : Option Data := n.origin.data

def patch (position : Option Position) (n : Node) : Node :=
  match position with
  | none => n
  | some _ => n.withOrigin { n.origin with position := position }

def children? : Node → Option (List Node)
  | parent _ _ children => some children
  | leaf _ _ => none

def children (n : Node) : List Node := n.children?.getD []

def withChildren (children : List Node) : Node → Node
  | parent shape origin _ => parent shape origin children
  | n => n

section Simps

variable (shape : Shape) (content : Leaf) (origin : Origin) (ns ms : List Node)

@[simp] theorem kind_parent : (parent shape origin ns).kind = shape.kind := rfl

@[simp] theorem kind_leaf : (leaf content origin).kind = content.kind := rfl

@[simp] theorem children_parent : (parent shape origin ns).children = ns := rfl

@[simp] theorem children_leaf : (leaf content origin).children = [] := rfl

@[simp] theorem withChildren_parent :
    (parent shape origin ns).withChildren ms = parent shape origin ms := rfl

end Simps

def shell (n : Node) : Node := n.withChildren []

def isPhrasing (n : Node) : Bool :=
  match n.data.bind (·.elementName) with
  | some name => Html.isPhrasingTag name
  | none =>
    match n with
    | parent shape _ _ => shape.isPhrasing
    | leaf content _ => content.isPhrasing

def isWhitespaceText : Node → Bool
  | leaf (.text value) _ => value.toList.all Text.isSpace
  | _ => false

def isText : Node → Bool
  | leaf (.text _) _ => true
  | _ => false

def isBreak : Node → Bool
  | leaf .lineBreak _ => true
  | _ => false

mutual

@[simp] def textContent : Node → String
  | parent _ _ children => textContentOf children
  | leaf content _ => content.textContent

@[simp] def textContentOf : List Node → String
  | [] => ""
  | n :: ns => n.textContent ++ textContentOf ns

end

end Node

end HtmlToMarkdown.Markdown
