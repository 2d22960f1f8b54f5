import HtmlToMarkdown.Markdown.Node

/-!
Mixed content turned into containers of one kind. Nodes that do not match move into the front of
the next container that does, those after the last one to its end.
-/

namespace HtmlToMarkdown.Markdown

/-- The nodes of that kind, each with the strays before it, and the strays that are left over.
Leaves take no strays. -/
def collect (kind : Kind) (strays : List Node) : List Node → List Node × List Node
  | [] => ([], strays)
  | n :: ns =>
    if n.kind = kind then
      match n with
      | .parent shape origin children =>
        let (found, left) := collect kind [] ns
        (.parent shape origin (strays ++ children) :: found, left)
      | .leaf content origin =>
        let (found, left) := collect kind strays ns
        (.leaf content origin :: found, left)
    else collect kind (strays ++ [n]) ns

def appendToLast (strays : List Node) : List Node → List Node
  | [] => []
  | [n] => [n.withChildren (n.children ++ strays)]
  | n :: ns => n :: appendToLast strays ns

def coerce (fresh : Node) (nodes : List Node) : List Node :=
  let (found, left) := collect fresh.kind [] nodes
  if left.isEmpty then found
  else appendToLast left (if found.isEmpty then [fresh] else found)

end HtmlToMarkdown.Markdown
