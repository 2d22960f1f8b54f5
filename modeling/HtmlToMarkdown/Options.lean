import HtmlToMarkdown.Json.Decode

namespace HtmlToMarkdown

structure Options where
  /-- Text of a checkbox or radio button that is on. -/
  checked : String := "[x]"
  /-- Text of a checkbox or radio button that is off. -/
  unchecked : String := "[ ]"
  /-- Quotation marks by depth: one character for both sides, or an opening and a closing one. -/
  quotes : List String := ["\""]
  /-- Collapse white space with a line ending to that line ending. -/
  newlines : Bool := false
  /-- Put inline content at the top into paragraphs even when there are no blocks. -/
  document : Bool := false
  deriving DecidableEq, Repr, Inhabited

namespace Options

def markOf (entry : String) : String × String :=
  match entry.toList with
  | [] => ("", entry)
  | [c] => (String.singleton c, entry)
  | c :: d :: _ => (String.singleton c, String.singleton d)

/-- The opening and closing mark at a depth; the list starts over when it ends. -/
def quotePair (o : Options) (depth : Nat) : String × String :=
  match o.quotes[depth % o.quotes.length]? with
  | none => ("\"", "\"")
  | some entry => markOf entry

def toJson (o : Options) : Json :=
  .object [("checked", .string o.checked), ("unchecked", .string o.unchecked),
    ("quotes", Json.strings o.quotes), ("newlines", .bool o.newlines),
    ("document", .bool o.document)]

structure Fields where
  checked : Option String := none
  unchecked : Option String := none
  quotes : Option (List String) := none
  newlines : Option Bool := none
  document : Option Bool := none

def Fields.add (f : Fields) : String × Json → Json.Decoded Fields
  | ("checked", v) => do
    return { f with checked := ← Json.once "checked" f.checked Json.asString v }
  | ("unchecked", v) => do
    return { f with unchecked := ← Json.once "unchecked" f.unchecked Json.asString v }
  | ("quotes", v) => do
    return { f with quotes := ← Json.once "quotes" f.quotes Json.asStrings v }
  | ("newlines", v) => do
    return { f with newlines := ← Json.once "newlines" f.newlines Json.asBool v }
  | ("document", v) => do
    return { f with document := ← Json.once "document" f.document Json.asBool v }
  | _ => .ok f

def layout : Json.Layout :=
  ⟨"Options", ["checked", "unchecked", "quotes", "newlines", "document"], []⟩

/-- A missing field takes its default. Items after the last field are trailing text. -/
def ofJson (v : Json) : Json.Decoded Options := do
  let f ← (← layout.entriesOf v).foldlM Fields.add {}
  if let .array items := v then
    if layout.fields.length < items.length then throw (.malformed .trailingCharacters)
  let default : Options := {}
  return {
    checked := f.checked.getD default.checked
    unchecked := f.unchecked.getD default.unchecked
    quotes := f.quotes.getD default.quotes
    newlines := f.newlines.getD default.newlines
    document := f.document.getD default.document }

end Options

end HtmlToMarkdown
