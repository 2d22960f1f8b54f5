import HtmlToMarkdown.Markdown.Node

/-!
The normal form of a tree: no two texts stand side by side, no text is empty, no tab or space
touches a line ending, and at the edges of the root, of paragraphs and of headings texts have
neither tabs nor spaces.
-/

namespace HtmlToMarkdown.Markdown

/-- Drops tabs and spaces next to line endings. `held` are those just before the rest, the latest
first, unless a line ending stands before them. -/
def joinLinesFrom (afterLine : Bool) (held : List Char) : List Char → List Char
  | [] => held.reverse
  | c :: s =>
    if Text.isTabOrSpace c then
      if afterLine then joinLinesFrom true [] s else joinLinesFrom false (c :: held) s
    else if Text.isLineEnd c then c :: joinLinesFrom true [] s
    else held.reverse ++ c :: joinLinesFrom false [] s

def joinLines (s : List Char) : List Char := joinLinesFrom false [] s

def tidy (first last : Bool) (value : String) : String :=
  let s := joinLines value.toList
  let s := if first then s.dropWhile Text.isTabOrSpace else s
  String.ofList (if last then Text.dropRightWhile Text.isTabOrSpace s else s)

def Origin.extend (o next : Origin) : Origin :=
  match o.position, next.position with
  | some p, some q => { o with position := some { p with stop := q.stop } }
  | _, _ => o

def heldText : Option (String × Origin) → List Node
  | none => []
  | some (value, origin) => [.leaf (.text value) origin]

/-- Joins texts that stand side by side; `held` is the text just before the nodes. -/
def mergeTexts : Option (String × Origin) → List Node → List Node
  | held, [] => heldText held
  | none, .leaf (.text value) origin :: ns => mergeTexts (some (value, origin)) ns
  | some (value, origin), .leaf (.text more) next :: ns =>
    mergeTexts (some (value ++ more, origin.extend next)) ns
  | held, n :: ns => heldText held ++ n :: mergeTexts none ns

def Shape.trimsEdges : Shape → Bool
  | root => true
  | paragraph => true
  | heading _ => true
  | _ => false

def tidyTexts (trims first : Bool) : List Node → List Node
  | [] => []
  | .leaf (.text value) origin :: ns =>
    let value := tidy (trims && first) (trims && ns.isEmpty) value
    if value == "" then tidyTexts trims false ns
    else .leaf (.text value) origin :: tidyTexts trims false ns
  | n :: ns => n :: tidyTexts trims false ns

mutual

def Node.normalize : Node → Node
  | .parent shape origin children =>
    .parent shape origin
      (tidyTexts shape.trimsEdges true (mergeTexts none (normalizeAll children)))
  | .leaf content origin => .leaf content origin

def normalizeAll : List Node → List Node
  | [] => []
  | n :: ns => n.normalize :: normalizeAll ns

end

end HtmlToMarkdown.Markdown
