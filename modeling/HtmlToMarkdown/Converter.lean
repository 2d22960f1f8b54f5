import HtmlToMarkdown.Conversion.Standard
import HtmlToMarkdown.Conversion.Walk
import HtmlToMarkdown.Html.Json
import HtmlToMarkdown.Html.Markup
import HtmlToMarkdown.Url.Parser

namespace HtmlToMarkdown

/-- Bases and references are URLs as on the web. -/
instance webUrls : UrlReader where
  base? href := (Url.parse? href).map fun base reference => (base.join? reference).map Url.text

structure Converter where
  options : Options := {}
  handlers : Handlers := Handlers.standard

namespace Converter

def convert (c : Converter) (tree : Html.Node) : Markdown.Node :=
  HtmlToMarkdown.convert c.options c.handlers tree

def convertJson (c : Converter) (json : String) : Json.Decoded Markdown.Node :=
  (Html.Node.ofText json).map c.convert

def convertMarkup (c : Converter) (markup : String) : Markdown.Node :=
  c.convert (Html.Markup.read markup)

def setHandler (c : Converter) (tag : String) (handler : TagHandler) : Converter :=
  { c with handlers := c.handlers.insert tag handler }

def setKindHandler (c : Converter) (kind : String) (handler : KindHandler) : Converter :=
  { c with handlers := c.handlers.insertKind kind handler }

def ignore (c : Converter) (tag : String) : Converter := c.setHandler tag Handler.ignore

end Converter

end HtmlToMarkdown
