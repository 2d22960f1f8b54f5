import HtmlToMarkdown.Text.Lowercase

namespace HtmlToMarkdown.Html

def blockTags : List String := [
  "address", "article", "aside", "audio", "blockquote", "body", "canvas", "caption", "center",
  "dd", "details", "dialog", "dir", "div", "dl", "dt", "fieldset", "figcaption", "figure",
  "footer", "form", "frameset", "h1", "h2", "h3", "h4", "h5", "h6", "head", "header", "hgroup",
  "hr", "html", "isindex", "legend", "li", "link", "listing", "main", "menu", "meta", "nav",
  "noframes", "noscript", "ol", "output", "p", "plaintext", "pre", "script", "section", "style",
  "summary", "table", "tbody", "td", "template", "tfoot", "th", "thead", "title", "tr", "ul",
  "video", "xmp"]

def preformattedTags : List String := ["listing", "plaintext", "pre", "textarea", "xmp"]

def phrasingTags : List String := [
  "a", "abbr", "audio", "b", "bdi", "bdo", "br", "button", "canvas", "cite", "code", "data",
  "datalist", "del", "dfn", "em", "embed", "i", "iframe", "img", "input", "ins", "kbd", "keygen",
  "label", "map", "mark", "math", "meter", "noscript", "object", "output", "picture", "progress",
  "q", "ruby", "s", "samp", "script", "select", "small", "span", "strong", "sub", "sup", "svg",
  "template", "textarea", "time", "u", "var", "video", "wbr"]

def contentTags : List String := [
  "audio", "canvas", "embed", "iframe", "img", "math", "object", "picture", "svg", "textarea",
  "video"]

def isBlockTag (tag : String) : Bool := blockTags.contains (Text.lower tag)

def isPreformattedTag (tag : String) : Bool := preformattedTags.contains (Text.lower tag)

def isPhrasingTag (tag : String) : Bool := phrasingTags.contains (Text.asciiLower tag)

end HtmlToMarkdown.Html
