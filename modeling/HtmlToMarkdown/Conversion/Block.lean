import HtmlToMarkdown.Conversion.Handler
import HtmlToMarkdown.Markdown.Flow

namespace HtmlToMarkdown.Handler

open Html (Element)
open Markdown (dropSurroundingBreaks wrap)

def paragraph : TagHandler := fun walk e _ => do
  match dropSurroundingBreaks (← walk.children e) with
  | [] => return none
  | children => return some (.parent e.position .paragraph children)

def headingDepth (tag : String) : UInt8 :=
  match tag.toList[1]? with
  | some c => if '1' ≤ c && c ≤ '9' then UInt8.ofNat (min (Text.digitValue c) 6) else 1
  | none => 1

def heading : TagHandler := fun walk e _ => do
  let children ← walk.children e
  return some (.parent e.position (.heading (headingDepth e.tag)) (dropSurroundingBreaks children))

def blockquote : TagHandler := fun walk e _ => do
  return some (.parent e.position .blockquote (wrap (← walk.children e)))

def thematicBreak : TagHandler := fun _ e _ => pure (some (.leaf e.position .thematicBreak))

def languageMark : List Char := "language-".toList

def languageOfClass (name : String) : Option String :=
  if languageMark.isPrefixOf name.toList then
    some (String.ofList (name.toList.drop languageMark.length))
  else none

/-- The language that the first `code` inside a `pre` names. -/
def language (e : Element) : Option String :=
  if e.tag == "pre" then do
    let code ← e.elementChildren.find? (·.tag == "code")
    (code.classes.findSome? languageOfClass).filter (· != "")
  else none

def code : TagHandler := fun _ e _ =>
  pure (some (.leaf e.position (.code (language e) none (Text.trimTrailingLines e.toText))))

end HtmlToMarkdown.Handler
