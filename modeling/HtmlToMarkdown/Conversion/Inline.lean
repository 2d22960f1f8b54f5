import HtmlToMarkdown.Conversion.Handler

namespace HtmlToMarkdown.Handler

open Markdown (Node Shape)

def link : TagHandler := fun walk e _ => do
  let children ← walk.children e
  let url ← Conversion.resolve (e.attribute? "href")
  return some (.parent e.position (.link url (e.attribute? "title")) children)

def image : TagHandler := fun _ e _ => do
  let url ← Conversion.resolve (e.attribute? "src")
  let alt := (e.attribute? "alt").getD ""
  return some (.leaf e.position (.image url (e.attribute? "title") alt))

/-- The first base holds for the rest of the conversion. -/
def base : TagHandler := fun _ e _ => do
  modify (·.freezeBase (e.attribute? "href"))
  return none

def marked (shape : Shape) : TagHandler := fun walk e _ => do
  return some (.parent e.position shape (← walk.children e))

def emphasis : TagHandler := marked .emphasis

def strong : TagHandler := marked .strong

def delete : TagHandler := marked .delete

def inlineCode : TagHandler := fun _ e _ =>
  pure (some (.leaf e.position (.inlineCode e.toText)))

def lineBreak : TagHandler := fun _ e _ => pure (some (.leaf e.position .lineBreak))

def wordBreak : TagHandler := fun _ e _ => pure (some (.leaf e.position (.text "\u200b")))

/-- Puts a mark before the content, into a text if it begins with one. -/
def openQuote (mark : String) : List Node → List Node
  | .leaf (.text value) origin :: ns => .leaf (.text (mark ++ value)) origin :: ns
  | ns => .text mark :: ns

def closeQuote (mark : String) : List Node → List Node
  | [] => [.text mark]
  | [.leaf (.text value) origin] => [.leaf (.text (value ++ mark)) origin]
  | [n] => [n, .text mark]
  | n :: ns => n :: closeQuote mark ns

def quoteWith (marks : String × String) (content : List Node) : List Node :=
  if content.isEmpty then [.text marks.1, .text marks.2]
  else openQuote marks.1 (closeQuote marks.2 content)

def quote : TagHandler := fun walk e _ => do
  let content ← Conversion.nestedQuote (walk.children e)
  let s ← get
  return some (.many (quoteWith (s.options.quotePair s.quoteDepth) content))

end HtmlToMarkdown.Handler
