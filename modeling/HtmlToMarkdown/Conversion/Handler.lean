import HtmlToMarkdown.Conversion.State
import HtmlToMarkdown.Markdown.Node
import HtmlToMarkdown.OrderedMap
import HtmlToMarkdown.Text.Lowercase

/-!
Handlers turn a node into Markdown. They are given the walk that converts the nodes below. A table
of handlers has those of elements by tag and those of all other nodes by kind.
-/

namespace HtmlToMarkdown

open Html (Element)

inductive Output
  | one (node : Markdown.Node)
  | many (nodes : List Markdown.Node)

abbrev Walk := Html.Node → Option Element → Conversion (Option Output)

abbrev TagHandler := Walk → Element → Option Element → Conversion (Option Output)

abbrev KindHandler := Walk → Html.Node → Option Element → Conversion (Option Output)

namespace Output

def isEmpty : Output → Bool
  | many [] => true
  | _ => false

def nodes : Option Output → List Markdown.Node
  | none => []
  | some (one n) => [n]
  | some (many ns) => ns

def parent (position : Option Position) (shape : Markdown.Shape)
    (children : List Markdown.Node) : Output :=
  one (.parent shape { position } children)

def leaf (position : Option Position) (content : Markdown.Leaf) : Output :=
  one (.leaf content { position })

end Output

namespace Walk

def all (walk : Walk) (parent : Option Element) : List Html.Node → Conversion (List Markdown.Node)
  | [] => pure []
  | n :: ns => do
    let output ← walk n parent
    let rest ← walk.all parent ns
    return Output.nodes output ++ rest

def children (walk : Walk) (e : Element) : Conversion (List Markdown.Node) :=
  walk.all (some e) e.children

def below (walk : Walk) (n : Html.Node) : Conversion (List Markdown.Node) :=
  walk.all n.asElement? n.children

end Walk

structure Handlers where
  tags : OrderedMap TagHandler
  kinds : OrderedMap KindHandler

namespace Handlers

def empty : Handlers := ⟨OrderedMap.empty, OrderedMap.empty⟩

def insert (h : Handlers) (tag : String) (handler : TagHandler) : Handlers :=
  { h with tags := h.tags.insert (Text.lower tag) handler }

def insertAll (h : Handlers) (tags : List String) (handler : TagHandler) : Handlers :=
  tags.foldl (fun h tag => h.insert tag handler) h

def insertKind (h : Handlers) (kind : String) (handler : KindHandler) : Handlers :=
  { h with kinds := h.kinds.insert kind handler }

def erase (h : Handlers) (tag : String) : Handlers :=
  { h with tags := h.tags.erase (Text.lower tag) }

def eraseKind (h : Handlers) (kind : String) : Handlers := { h with kinds := h.kinds.erase kind }

/-- The handler for a tag as it stands, or else in lower case. -/
def find? (h : Handlers) (tag : String) : Option TagHandler :=
  (h.tags.find? tag).or (h.tags.find? (Text.lower tag))

def findKind? (h : Handlers) (kind : String) : Option KindHandler := h.kinds.find? kind

def described (h : Handlers) : String :=
  "Handlers \x7b tags: " ++ toString h.tags.size ++ ", nodes: " ++
    Text.quotedList h.kinds.keys ++ " \x7d"

end Handlers

end HtmlToMarkdown
