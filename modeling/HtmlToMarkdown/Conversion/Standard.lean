import HtmlToMarkdown.Conversion.Block
import HtmlToMarkdown.Conversion.Controls
import HtmlToMarkdown.Conversion.Flow
import HtmlToMarkdown.Conversion.Inline
import HtmlToMarkdown.Conversion.Lists
import HtmlToMarkdown.Conversion.Media
import HtmlToMarkdown.Conversion.Tables

namespace HtmlToMarkdown.Handlers

def ignoredTags : List String := [
  "applet", "area", "basefont", "bgsound", "caption", "col", "colgroup", "command", "content",
  "datalist", "dialog", "element", "embed", "frame", "frameset", "isindex", "keygen", "link",
  "math", "menu", "menuitem", "meta", "nextid", "noembed", "noframes", "optgroup", "option",
  "param", "script", "shadow", "source", "spacer", "style", "svg", "template", "title", "track"]

def passThroughTags : List String := [
  "abbr", "acronym", "bdi", "bdo", "big", "blink", "button", "canvas", "cite", "data", "details",
  "dfn", "font", "ins", "label", "map", "marquee", "meter", "nobr", "noscript", "object",
  "output", "progress", "rb", "rbc", "rp", "rt", "rtc", "ruby", "slot", "small", "span", "sup",
  "sub", "tbody", "tfoot", "thead", "time"]

def flowTags : List String := [
  "address", "article", "aside", "body", "center", "div", "fieldset", "figcaption", "figure",
  "form", "footer", "header", "hgroup", "html", "legend", "main", "multicol", "nav", "picture",
  "section"]

def ownTags : List (String × TagHandler) := [
  ("a", Handler.link), ("audio", Handler.media), ("b", Handler.strong), ("base", Handler.base),
  ("blockquote", Handler.blockquote), ("br", Handler.lineBreak), ("code", Handler.inlineCode),
  ("dd", Handler.listItem), ("del", Handler.delete), ("dir", Handler.list),
  ("dl", Handler.definitionList), ("dt", Handler.listItem), ("em", Handler.emphasis),
  ("h1", Handler.heading), ("h2", Handler.heading), ("h3", Handler.heading),
  ("h4", Handler.heading), ("h5", Handler.heading), ("h6", Handler.heading),
  ("hr", Handler.thematicBreak), ("i", Handler.emphasis), ("iframe", Handler.iframe),
  ("image", Handler.image), ("img", Handler.image), ("input", Handler.input),
  ("kbd", Handler.inlineCode), ("li", Handler.listItem), ("listing", Handler.code),
  ("mark", Handler.emphasis), ("ol", Handler.list), ("p", Handler.paragraph),
  ("plaintext", Handler.code), ("pre", Handler.code), ("q", Handler.quote),
  ("s", Handler.delete), ("samp", Handler.inlineCode), ("select", Handler.select),
  ("strike", Handler.delete), ("strong", Handler.strong), ("summary", Handler.paragraph),
  ("table", Handler.table), ("td", Handler.tableCell), ("textarea", Handler.textarea),
  ("th", Handler.tableCell), ("tr", Handler.tableRow), ("tt", Handler.inlineCode),
  ("u", Handler.emphasis), ("ul", Handler.list), ("var", Handler.inlineCode),
  ("video", Handler.media), ("wbr", Handler.wordBreak), ("xmp", Handler.code)]

def standardKinds : List (String × KindHandler) := [
  ("root", Handler.root), ("text", Handler.text), ("comment", Handler.comment),
  ("doctype", Handler.ignoreKind)]

def standard : Handlers :=
  let plain := ((empty.insertAll ignoredTags Handler.ignore).insertAll passThroughTags
    Handler.passThrough).insertAll flowTags Handler.flow
  let tags := ownTags.foldl (fun h (tag, handler) => h.insert tag handler) plain
  standardKinds.foldl (fun h (kind, handler) => h.insertKind kind handler) tags

end HtmlToMarkdown.Handlers
