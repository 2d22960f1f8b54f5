import HtmlToMarkdown.Html.Node
import HtmlToMarkdown.Options

/-!
What a conversion knows while it walks over a tree: the elements by `id`, the base of URLs, how
deep quotations are nested, and the spans of the cells of the table being converted.
-/

namespace HtmlToMarkdown

open Html (CellSpan Element)

/-- A base gives the text of a URL relative to it, if there is one. -/
abbrev BaseUrl := String → Option String

/-- Reads the text of a base. A conversion leaves open what URLs are. -/
class UrlReader where
  base? : String → Option BaseUrl

@[ext]
structure State where
  options : Options
  readBase : String → Option BaseUrl
  /-- Elements with an `id`, in the order of the document. -/
  elements : List (String × Element)
  baseFound : Bool := false
  base : Option BaseUrl := none
  quoteDepth : Nat := 0
  inTable : Bool := false
  /-- For each open table the spans recorded so far, row by row. The innermost table is first. -/
  spanFrames : List (List (List CellSpan)) := []

abbrev Conversion := StateM State

mutual

def identified : Html.Node → List (String × Element)
  | .element tag properties children position =>
    let e : Element := ⟨tag, properties, children, position⟩
    match e.attribute? "id" with
    | some id => (id, e) :: identifiedIn children
    | none => identifiedIn children
  | .root children _ => identifiedIn children
  | _ => []

def identifiedIn : List Html.Node → List (String × Element)
  | [] => []
  | n :: ns => identified n ++ identifiedIn ns

end

namespace State

def start [UrlReader] (options : Options) (tree : Html.Node) : State :=
  { options, readBase := UrlReader.base?, elements := identified tree }

def elementById (s : State) (id : String) : Option Element :=
  (s.elements.find? (·.1 == id)).map (·.2)

/-- The URL relative to the base, or the text itself if that is no URL. -/
def resolve (s : State) (url : Option String) : String :=
  match url with
  | none => ""
  | some url => (s.base.bind fun base => base url).getD url

/-- Only the first base counts, even one without a URL. -/
def freezeBase (s : State) (href : Option String) : State :=
  if s.baseFound then s else { s with baseFound := true, base := href.bind s.readBase }

def startSpanRow (s : State) : State :=
  match s.spanFrames with
  | [] => s
  | rows :: frames => { s with spanFrames := (rows ++ [[]]) :: frames }

def appendToLastRow (span : CellSpan) : List (List CellSpan) → List (List CellSpan)
  | [] => [[span]]
  | [row] => [row ++ [span]]
  | row :: rows => row :: appendToLastRow span rows

def recordSpan (s : State) (span : CellSpan) : State :=
  match s.spanFrames with
  | [] => s
  | rows :: frames => { s with spanFrames := appendToLastRow span rows :: frames }

end State

namespace Conversion

variable {α : Type}

def nestedQuote (act : Conversion α) : Conversion α := do
  modify fun s => { s with quoteDepth := s.quoteDepth + 1 }
  let a ← act
  modify fun s => { s with quoteDepth := s.quoteDepth - 1 }
  return a

def tableScope (act : Conversion α) : Conversion (α × List (List CellSpan)) := do
  let outside := (← get).inTable
  modify fun s => { s with inTable := true, spanFrames := [] :: s.spanFrames }
  let a ← act
  let spans := (← get).spanFrames.headD []
  modify fun s => { s with inTable := outside, spanFrames := s.spanFrames.tail }
  return (a, spans)

def resolve (url : Option String) : Conversion String := do return (← get).resolve url

end Conversion

end HtmlToMarkdown
