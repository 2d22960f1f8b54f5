import HtmlToMarkdown.Conversion.Handler
import HtmlToMarkdown.Markdown.Flow

namespace HtmlToMarkdown.Handler

open Markdown (wrap wrapNeeded)

def ignore : TagHandler := fun _ _ _ => pure none

def passThrough : TagHandler := fun walk e _ => do
  return some (.many (← walk.children e))

def flow : TagHandler := fun walk e _ => do
  return some (.many (wrap (← walk.children e)))

/-- Inline content stays as it is when there are no blocks beside it, unless a document is asked
for. -/
def root : KindHandler := fun walk n _ => do
  let children ← walk.below n
  let document := (← get).options.document
  let children := if document || wrapNeeded children then wrap children else children
  return some (.parent n.position .root children)

def text : KindHandler := fun _ n _ =>
  pure (n.value?.map fun value => .leaf n.position (.text value))

def comment : KindHandler := fun _ n _ =>
  pure (n.value?.map fun value => .leaf n.position (.html ("<!--" ++ value ++ "-->")))

def ignoreKind : KindHandler := fun _ _ _ => pure none

end HtmlToMarkdown.Handler
