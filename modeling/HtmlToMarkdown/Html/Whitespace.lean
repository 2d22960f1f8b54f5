import HtmlToMarkdown.Html.Node
import HtmlToMarkdown.Html.Tags

/-!
Removing white space that is not rendered. A run of white space becomes one space, white space at
the edges of blocks goes, and of white space that continues across inline elements only the first
stays. Preformatted elements keep all of theirs.

A text is decided by what surrounds it: `before` tells whether white space at its start may go,
which earlier siblings decide, and `after` the same of its end, which `boundary` finds by looking
ahead.
-/

namespace HtmlToMarkdown.Html

inductive WhiteSpace
  | normal
  | nowrap
  | verbatim
  deriving DecidableEq, Repr

def isWhite (c : Char) : Bool := Text.isSpace c || c == '\x0b'

/-- A space or line feed; these are all that collapsing leaves at the edge of a text. -/
def isRemovable (c : Char) : Bool := c == ' ' || c == '\n'

def firstLineEnd : List Char → Option (List Char)
  | [] => none
  | '\r' :: '\n' :: _ => some ['\r', '\n']
  | '\r' :: _ => some ['\r']
  | '\n' :: _ => some ['\n']
  | _ :: s => firstLineEnd s

def collapsedRun (newlines : Bool) (run : List Char) : List Char :=
  if newlines then (firstLineEnd run).getD [' '] else [' ']

/-- `run` holds the white space just before the rest, the latest first. -/
def collapseFrom (newlines : Bool) (run : List Char) : List Char → List Char
  | [] => if run.isEmpty then [] else collapsedRun newlines run.reverse
  | c :: s =>
    if isWhite c then collapseFrom newlines (c :: run) s
    else
      (if run.isEmpty then [] else collapsedRun newlines run.reverse) ++
        c :: collapseFrom newlines [] s

def collapse (newlines : Bool) (s : List Char) : List Char := collapseFrom newlines [] s

structure Surroundings where
  newlines : Bool
  whiteSpace : WhiteSpace
  before : Bool
  after : Bool
  deriving Repr

inductive Outcome
  | removed
  | skipped
  | kept (strip : Bool)
  deriving DecidableEq, Repr

def isContent (n : Node) : Bool :=
  match n.asElement? with
  | some e => contentTags.contains e.tag
  | none => false

def isBreak (n : Node) : Bool := n.isTag "br"

def isSkippable (n : Node) : Bool :=
  match n with
  | .element tag properties children position =>
    (Element.mk tag properties children position).hasFlag "hidden" || tag == "title"
  | .comment _ _ => true
  | .doctype _ => true
  | _ => false

/-- Whether white space before the node may go, if the node itself decides it. -/
def ownBoundary : Node → Option Bool
  | .element tag _ _ _ =>
    if tag == "br" || isBlockTag tag then some true
    else if contentTags.contains tag then some false
    else none
  | .text value _ => if value.toList.all isWhite then none else some false
  | _ => none

mutual

/-- Whether white space before the nodes may go, if they decide it. -/
def boundary : List Node → Option Bool
  | [] => none
  | n :: ns => (nodeBoundary n).or (boundary ns)

def nodeBoundary (n : Node) : Option Bool :=
  (ownBoundary n).or <|
    if isSkippable n then none
    else match n with
      | .root children _ => boundary children
      | .element _ _ children _ => boundary children
      | _ => none

end

def whiteSpaceIn (e : Element) (inherited : WhiteSpace) : WhiteSpace :=
  if isPreformattedTag e.tag || e.tag == "script" || e.tag == "style" then .verbatim
  else if e.tag == "nobr" then .nowrap
  else if (e.tag == "td" || e.tag == "th") && e.hasFlag "nowrap" then .nowrap
  else inherited

/-- A collapsed text without the removable characters at its edges, and what follows from it. -/
def trimText (cx : Surroundings) (s : List Char) : List Char × Outcome :=
  let s := if cx.before && (s.head?.map isRemovable).getD false then s.tail else s
  if (s.getLast?.map isRemovable).getD false then
    if cx.after then
      (s.dropLast, if s.dropLast.isEmpty then .removed else .kept false)
    else (s, .kept true)
  else (s, if s.isEmpty then .removed else .kept false)

def minifyText (cx : Surroundings) (value : String) : String × Outcome :=
  match cx.whiteSpace with
  | .verbatim => (value, .kept false)
  | .nowrap => (String.ofList (collapse cx.newlines value.toList), .kept false)
  | .normal =>
    let (s, outcome) := trimText cx (collapse cx.newlines value.toList)
    (if outcome = .removed then value else String.ofList s, outcome)

def isEmptyText : Node → Bool
  | .text value _ => value == ""
  | _ => false

def Surroundings.inside (cx : Surroundings) (e : Element) : Surroundings :=
  let block := isBlockTag e.tag
  { cx with
    whiteSpace := whiteSpaceIn e cx.whiteSpace
    before := cx.before || block
    after := cx.after || block }

/-- Whether white space after a node may go, `outcome` being what the node itself says. -/
def stripAfter (before : Bool) (n : Node) (outcome : Outcome) : Bool :=
  if isBreak n then true
  else if isContent n then false
  else match outcome with
    | .kept strip => strip
    | _ => before

mutual

def minifyNode (cx : Surroundings) : Node → Node × Outcome
  | .root children position =>
    let (children, _) := minifyAll { cx with after := true } true children
    (.root (children.filter (!isEmptyText ·)) position, .kept true)
  | .element tag properties children position =>
    let inner := cx.inside ⟨tag, properties, children, position⟩
    let (children, strip) := minifyAll inner inner.before children
    (.element tag properties (children.filter (!isEmptyText ·)) position,
      .kept (strip || inner.after))
  | .text value position =>
    let (value, outcome) := minifyText cx value
    (.text value position, outcome)
  | .comment value position => (.comment value position, .skipped)
  | .doctype position => (.doctype position, .skipped)

def minifyAll (cx : Surroundings) (before : Bool) : List Node → List Node × Bool
  | [] => ([], before)
  | n :: ns =>
    let after := (boundary ns).getD cx.after
    let (m, outcome) := minifyNode { cx with before := before, after := after } n
    if outcome = .removed then minifyAll cx before ns
    else
      let (ms, strip) := minifyAll cx (stripAfter before m outcome) ns
      (m :: ms, strip)

end

/-- Minifies a tree. With `newlines`, a run that holds a line ending becomes that line ending. -/
def Node.minify (newlines : Bool) (n : Node) : Node :=
  (minifyNode ⟨newlines, .normal, false, false⟩ n).1

end HtmlToMarkdown.Html
