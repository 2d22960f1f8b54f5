import HtmlToMarkdown.Conversion.Handler
import HtmlToMarkdown.Markdown.Flow

namespace HtmlToMarkdown.Handler

open Html (Element)
open Markdown (Node wrap)

def tagText (e : Option Element) : Node := .text ((e.map (·.tag)).getD "")

def constant (nodes : List Node) : TagHandler := fun _ _ _ => pure (some (.many nodes))

def parentName : TagHandler := fun _ _ parent => pure (some (.one (tagText parent)))

def context : TagHandler := fun _ _ _ => do
  let s ← get
  return some (.one (.text
    ("q" ++ toString s.quoteDepth ++ " t" ++ (if s.inTable then "true" else "false"))))

def inside (node : Node) : TagHandler := fun walk e _ => do
  return some (.one ((node.withChildren (← walk.children e)).patch e.position))

def insideFlow (node : Node) : TagHandler := fun walk e _ => do
  return some (.one ((node.withChildren (wrap (← walk.children e))).patch e.position))

def attributeText (name : String) : TagHandler := fun _ e _ =>
  pure ((e.attribute? name).map fun value => .one (.text value))

def attributeUrl (name : String) : TagHandler := fun _ e _ => do
  return some (.one (.text (← Conversion.resolve (e.attribute? name))))

def elementNamed (id : String) : TagHandler := fun _ _ _ => do
  return ((← get).elementById id).map fun e => .one (tagText (some e))

def kindName : KindHandler := fun _ n _ => pure (some (.one (.text n.kind)))

def childrenOf : KindHandler := fun walk n _ => do return some (.many (← walk.below n))

def parentNameOfKind : KindHandler := fun _ _ parent => pure (some (.one (tagText parent)))

end HtmlToMarkdown.Handler
