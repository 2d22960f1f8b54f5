import HtmlToMarkdown.Conversion.Handler
import HtmlToMarkdown.Markdown.Flow

namespace HtmlToMarkdown.Handler

open Html (Element)
open Markdown (Node wrapNeeded)

mutual

def containsLink : Node → Bool
  | .parent (.link _ _) _ _ => true
  | .parent _ _ children => anyContainsLink children
  | .leaf _ _ => false

def anyContainsLink : List Node → Bool
  | [] => false
  | n :: ns => containsLink n || anyContainsLink ns

end

def mediaSource (e : Element) : Option String :=
  (e.attribute? "src").or <|
    (e.elementChildren.filter (·.tag == "source")).findSome? (·.attribute? "src")

def poster (e : Element) : Option String :=
  if e.tag == "video" then e.attribute? "poster" else none

/-- The image of a video stands for its fallback content. -/
def posterImage (e : Element) (content : List Node) : Conversion (List Node) := do
  match poster e with
  | none => return content
  | some url =>
    let url ← Conversion.resolve (some url)
    return [.leaf (.image url none (Node.textContentOf content)) { position := e.position }]

/-- A link to the media, unless the fallback content has links or blocks of its own. -/
def media : TagHandler := fun walk e _ => do
  let content ← walk.children e
  if anyContainsLink content || wrapNeeded content then return some (.many content)
  else
    let content ← posterImage e content
    let url ← Conversion.resolve (mediaSource e)
    return some (.parent e.position (.link url (e.attribute? "title")) content)

def iframe : TagHandler := fun _ e _ => do
  match e.attribute? "src", e.attribute? "title" with
  | some source, some title =>
    let url ← Conversion.resolve (some source)
    return some (.parent e.position (.link url none) [.text title])
  | _, _ => return none

end HtmlToMarkdown.Handler
