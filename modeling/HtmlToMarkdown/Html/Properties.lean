import HtmlToMarkdown.Decimal.Notation
import HtmlToMarkdown.OrderedMap
import HtmlToMarkdown.Text.Basic
import HtmlToMarkdown.Text.Lowercase

/-!
The properties of an element. A property can be looked up under any spelling of its name:
`colspan` and `colSpan`, `data-mdast` and `dataMdast`, `class` and `className` are the same.
-/

namespace HtmlToMarkdown.Html

inductive PropertyValue
  | flag (b : Bool)
  | number (x : Float)
  | text (s : String)
  | list (items : List String)
  deriving Repr

def PropertyValue.asText : PropertyValue → String
  | flag b => if b then "true" else ""
  | number x => Decimal.plain x
  | text s => s
  | list items => " ".intercalate items

abbrev Properties := OrderedMap PropertyValue

/-- The one name that all spellings of a property share. -/
def canonicalName (name : String) : String :=
  let folded := String.ofList ((name.toList.filter (· != '-')).map Char.toLower)
  if folded == "classname" then "class"
  else if folded == "htmlfor" then "for"
  else folded

/-- The property of exactly that name, or else the first with another spelling of it. -/
def Properties.lookup (properties : Properties) (name : String) : Option PropertyValue :=
  match properties.find? name with
  | some value => some value
  | none =>
    (properties.entries.find? fun entry =>
      canonicalName entry.1 == canonicalName name).map (·.2)

end HtmlToMarkdown.Html
