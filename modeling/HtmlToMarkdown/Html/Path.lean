import HtmlToMarkdown.Html.Node

namespace HtmlToMarkdown.Html

abbrev Path := List Nat

namespace Node

def at? (n : Node) : Path → Option Node
  | [] => some n
  | i :: path => n.children[i]?.bind (·.at? path)

/-- Changes the node at a path; a path that leads nowhere changes nothing. -/
def modifyAt (f : Node → Node) : Path → Node → Node
  | [], n => f n
  | i :: path, n => n.withChildren (n.children.modify i (modifyAt f path))

end Node

def Node.nestIn (tag : String) : Nat → Node → Node
  | 0, n => n
  | count + 1, n => nestIn tag count { Element.named tag with children := [n] }.toNode

def Node.setProperty (name : String) (value : PropertyValue) : Node → Node
  | .element tag properties children position =>
    .element tag (properties.insert name value) children position
  | n => n

def Node.refill (children : List Node) : Node → Node
  | .element tag properties _ position => .element tag properties children position
  | n => n

end HtmlToMarkdown.Html
