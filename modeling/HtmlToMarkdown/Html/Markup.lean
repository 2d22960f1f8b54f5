import HtmlToMarkdown.Html.Node

/-!
Reading simple HTML text: tags in lower case, each element closed where it ends, attributes with
quoted values, and neither entities nor a document type.
-/

namespace HtmlToMarkdown.Html.Markup

def voidTags : List String := ["base", "br", "hr", "img", "input", "source", "wbr"]

/-- Elements whose content is text up to their end tag. -/
def rawTags : List String := [
  "iframe", "noembed", "noframes", "noscript", "script", "style", "textarea", "title", "xmp"]

inductive Token
  | opening (tag : String) (attributes : List (String × String))
  | closing (tag : String)
  | comment (value : String)
  | text (value : String)
  deriving Repr

def unifyLines : List Char → List Char
  | '\r' :: '\n' :: s => '\n' :: unifyLines s
  | '\r' :: s => '\n' :: unifyLines s
  | c :: s => c :: unifyLines s
  | [] => []

def ofReversed (s : List Char) : String := String.ofList s.reverse

def isSeparator (c : Char) : Bool := Text.isSpace c || c == '/'

/-- Where reading stands among the attributes of a tag. What has been read of a name or value is
held in reverse. -/
inductive AttributePlace
  | between
  | name (read : List Char)
  | value (name : String) (read : List Char)

def readAttributes : AttributePlace → List Char → List (String × String)
  | .between, [] => []
  | .name read, [] => [(ofReversed read, "")]
  | .value name read, [] => [(name, ofReversed read)]
  | .between, c :: s =>
    if isSeparator c then readAttributes .between s else readAttributes (.name [c]) s
  | .name read, c :: s =>
    if isSeparator c then (ofReversed read, "") :: readAttributes .between s
    else if c == '"' then readAttributes (.value (ofReversed read) []) s
    else if c == '=' then readAttributes (.name read) s
    else readAttributes (.name (c :: read)) s
  | .value name read, c :: s =>
    if c == '"' then (name, ofReversed read) :: readAttributes .between s
    else readAttributes (.value name (c :: read)) s

/-- Names are in lower case, and of a repeated one the first value counts. -/
def attributesOf (s : List Char) : List (String × String) :=
  ((readAttributes .between s).map fun (name, value) => (Text.asciiLower name, value)).eraseDupsBy
    fun a b => a.1 == b.1

def readTag (s : List Char) : Token :=
  match s with
  | '/' :: name => .closing (String.ofList name)
  | s =>
    .opening (String.ofList (s.takeWhile (!isSeparator ·)))
      (attributesOf (s.dropWhile (!isSeparator ·)))

/-- Where reading stands in the text, with what has been read there in reverse. -/
inductive Place
  | text (read : List Char)
  | tag (read : List Char) (quoted : Bool)
  | comment (read : List Char)
  | raw (tag : String) (read : List Char)

def textToken (read : List Char) : List Token :=
  if read.isEmpty then [] else [.text (ofReversed read)]

def afterTag : Token → Place
  | .opening tag _ => if rawTags.contains tag then .raw tag [] else .text []
  | _ => .text []

def endTag (tag : String) : List Char := "</".toList ++ tag.toList ++ ['>']

def scan : Place → List Char → List Token
  | .text read, [] => textToken read
  | .raw _ read, [] => textToken read
  | .tag _ _, [] => []
  | .comment read, [] => [.comment (ofReversed read)]
  | .text read, c :: s =>
    if c == '<' then textToken read ++ scan (.tag [] false) s else scan (.text (c :: read)) s
  | .raw tag read, c :: s =>
    if (endTag tag).isPrefixOf (c :: s) then textToken read ++ scan (.tag [] false) s
    else scan (.raw tag (c :: read)) s
  | .tag read quoted, c :: s =>
    if c == '>' && !quoted then
      let token := readTag read.reverse
      token :: scan (afterTag token) s
    else if c == '-' && read == ['-', '!'] then scan (.comment []) s
    else scan (.tag (c :: read) (quoted != (c == '"'))) s
  | .comment read, c :: s =>
    match c, read with
    | '>', '-' :: '-' :: read => .comment (ofReversed read) :: scan (.text []) s
    | c, read => scan (.comment (c :: read)) s

/-- An element that is still open around what follows, and the nodes read before it, the latest
first. -/
structure Open where
  element : Element
  before : List Node

/-- Closes an element around `nodes`, which are in reverse. What stands in a template is no part of
the tree. -/
def Open.close (o : Open) (nodes : List Node) : List Node :=
  { o.element with children := if o.element.tag == "template" then [] else nodes.reverse }.toNode ::
    o.before

/-- Builds the nodes of the tokens; `nodes` are those read in the innermost open element, the
latest first. -/
def build : List Open → List Node → List Token → List Node
  | [], nodes, [] => nodes.reverse
  | o :: opens, nodes, [] => build opens (o.close nodes) []
  | opens, nodes, .text value :: ts => build opens (.text value none :: nodes) ts
  | opens, nodes, .comment value :: ts => build opens (.comment value none :: nodes) ts
  | opens, nodes, .opening tag attributes :: ts =>
    let e := Element.withAttributes tag attributes
    if voidTags.contains tag then build opens (e.toNode :: nodes) ts
    else build (⟨e, nodes⟩ :: opens) [] ts
  | o :: opens, nodes, .closing _ :: ts => build opens (o.close nodes) ts
  | [], nodes, .closing _ :: ts => build [] nodes ts
termination_by opens _ ts => (ts.length, opens.length)

def read (s : String) : Node := .root (build [] [] (scan (.text []) (unifyLines s.toList))) none

end HtmlToMarkdown.Html.Markup
