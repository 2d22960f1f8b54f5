import HtmlToMarkdown.Conversion.Handler
import HtmlToMarkdown.Html.Whitespace
import HtmlToMarkdown.Markdown.Normalize

/-!
The walk over a tree. An element is converted by the handler of its tag, any other node and any
element without one by the handler of its kind. Without a handler literals become text, and other
nodes give way to their children. In a whole conversion white space is minified before the walk and
the result is normalized after it.
-/

namespace HtmlToMarkdown

open Html (Element)

def isIgnored (n : Html.Node) : Bool :=
  match n.asElement? with
  | some e => e.isIgnored
  | none => false

def Handlers.forNode? (h : Handlers) (n : Html.Node) :
    Option (Walk → Option Element → Conversion (Option Output)) :=
  let ofTag := n.asElement?.bind fun e =>
    (h.find? e.tag).map fun handler => fun walk parent => handler walk e parent
  ofTag.or <| (h.findKind? n.kind).map fun handler => fun walk parent => handler walk n parent

def Handlers.step (h : Handlers) (walk : Walk) : Walk := fun n parent =>
  if isIgnored n then pure none
  else match h.forNode? n with
    | some handler => do return (← handler walk parent).filter (!·.isEmpty)
    | none =>
      match n.value? with
      | some value => pure (some (.leaf n.position (.text value)))
      | none =>
        match n.children? with
        | some _ => do return some (.many (← walk.below n))
        | none => pure none

/-- Converts a node. Handlers are given a walk for smaller nodes only, which all the nodes below
are. -/
def Handlers.convert (h : Handlers) (n : Html.Node) (parent : Option Element) :
    Conversion (Option Output) :=
  let bound := n.size
  h.step (fun m p => if m.size < bound then h.convert m p else pure none) n parent
termination_by n.size

def Output.toTree : Option Output → Markdown.Node
  | some (.one n) => n
  | some (.many ns) => .plain .root ns
  | none => .plain .root []

/-- The result of the walk over a tree, before it is normalized. -/
def walkTree [UrlReader] (options : Options) (handlers : Handlers) (tree : Html.Node) :
    Markdown.Node :=
  Output.toTree ((handlers.convert tree none).run (State.start options tree)).1

def convert [UrlReader] (options : Options) (handlers : Handlers) (tree : Html.Node) :
    Markdown.Node :=
  (walkTree options handlers (tree.minify options.newlines)).normalize

end HtmlToMarkdown
