import HtmlToMarkdown.Json.Decode
import HtmlToMarkdown.Markdown.Node

namespace HtmlToMarkdown.Markdown

namespace Align

def toJson (a : Align) : Json := .string a.name

def named (s : String) : Json.Decoded Align :=
  match ofName? s with
  | some a => .ok a
  | none => .error (.unknownVariant s (all.map name))

/-- The name alone, or as the only key of an object without a value. -/
def ofJson : Json → Json.Decoded Align
  | .string s => named s
  | .object [(s, .null)] => named s
  | .object [(s, .object [])] => named s
  | .object [(s, v)] => do
    let _ ← named s
    throw (.wrongType v "unit")
  | .object entries => .error (.wrongValue (.object entries) "map with a single key")
  | v => .error (.wrongType v "string or map")

end Align

namespace Data

def toJson (d : Data) : Json := .object (Json.entry? "hName" .string d.elementName)

structure Fields where
  elementName : Option (Option String) := none

def Fields.add (f : Fields) : String × Json → Json.Decoded Fields
  | ("hName", v) => do
    return { f with
      elementName := ← Json.once "hName" f.elementName (Json.asNullable Json.asString) v }
  | _ => .ok f

def layout : Json.Layout := ⟨"Data", ["hName"], []⟩

def ofJson (v : Json) : Json.Decoded Data := do
  let f ← (← layout.entriesOf v).foldlM Fields.add {}
  layout.check v
  return ⟨f.elementName.join⟩

end Data

def Origin.entries (o : Origin) : List (String × Json) :=
  Json.entry? "position" Position.toJson o.position ++ Json.entry? "data" Data.toJson o.data

def nullableString (s : Option String) : Json := Json.ofOption .string s

def Shape.entries : Shape → List (String × Json)
  | heading depth => [("depth", .int depth.toNat)]
  | list ordered start spread =>
    [("ordered", .bool ordered), ("start", Json.ofOption (fun n => .int n.toNat) start),
      ("spread", .bool spread)]
  | listItem spread checked =>
    [("spread", .bool spread), ("checked", Json.ofOption .bool checked)]
  | table align => [("align", .array (align.map (Json.ofOption Align.toJson)))]
  | link url title => [("url", .string url), ("title", nullableString title)]
  | _ => []

def Leaf.entries : Leaf → List (String × Json)
  | text value => [("value", .string value)]
  | inlineCode value => [("value", .string value)]
  | code lang info value =>
    [("lang", nullableString lang), ("meta", nullableString info), ("value", .string value)]
  | image url title alt =>
    [("url", .string url), ("title", nullableString title), ("alt", .string alt)]
  | html value => [("value", .string value)]
  | lineBreak => []
  | thematicBreak => []

def Kind.fieldNames : Kind → List String
  | heading => ["depth", "children"]
  | list => ["ordered", "start", "spread", "children"]
  | listItem => ["spread", "checked", "children"]
  | table => ["align", "children"]
  | link => ["url", "title", "children"]
  | text => ["value"]
  | inlineCode => ["value"]
  | html => ["value"]
  | code => ["lang", "meta", "value"]
  | image => ["url", "title", "alt"]
  | lineBreak => []
  | thematicBreak => []
  | _ => ["children"]

namespace Node

mutual

def toJson : Node → Json
  | parent shape origin children =>
    .object <| [("type", .string shape.kind.name)] ++ shape.entries ++
      [("children", .array (allToJson children))] ++ origin.entries
  | leaf content origin =>
    .object <| [("type", .string content.kind.name)] ++ content.entries ++ origin.entries

def allToJson : List Node → List Json
  | [] => []
  | n :: ns => n.toJson :: allToJson ns

end

structure Fields where
  children : Option (List Node) := none
  depth : Option UInt8 := none
  ordered : Option Bool := none
  start : Option (Option UInt32) := none
  spread : Option Bool := none
  checked : Option (Option Bool) := none
  align : Option (List (Option Align)) := none
  value : Option String := none
  lang : Option (Option String) := none
  info : Option (Option String) := none
  url : Option String := none
  title : Option (Option String) := none
  alt : Option String := none
  position : Option (Option Position) := none
  data : Option (Option Data) := none

def Fields.origin (f : Fields) : Origin := ⟨f.position.join, f.data.join⟩

def Fields.parent (f : Fields) (shape : Shape) : Json.Decoded Node := do
  return .parent shape f.origin (← Json.require "children" f.children)

def Fields.leaf (f : Fields) (content : Leaf) : Node := .leaf content f.origin

def Fields.build (f : Fields) : Kind → Json.Decoded Node
  | .root => f.parent .root
  | .paragraph => f.parent .paragraph
  | .heading => do f.parent (.heading (← Json.require "depth" f.depth))
  | .blockquote => f.parent .blockquote
  | .list => do
    let ordered ← Json.require "ordered" f.ordered
    let spread ← Json.require "spread" f.spread
    f.parent (.list ordered f.start.join spread)
  | .listItem => do f.parent (.listItem (← Json.require "spread" f.spread) f.checked.join)
  | .table => do f.parent (.table (← Json.require "align" f.align))
  | .tableRow => f.parent .tableRow
  | .tableCell => f.parent .tableCell
  | .emphasis => f.parent .emphasis
  | .strong => f.parent .strong
  | .delete => f.parent .delete
  | .link => do f.parent (.link (← Json.require "url" f.url) f.title.join)
  | .text => return f.leaf (.text (← Json.require "value" f.value))
  | .inlineCode => return f.leaf (.inlineCode (← Json.require "value" f.value))
  | .html => return f.leaf (.html (← Json.require "value" f.value))
  | .code => return f.leaf (.code f.lang.join f.info.join (← Json.require "value" f.value))
  | .image => do
    let url ← Json.require "url" f.url
    return f.leaf (.image url f.title.join (← Json.require "alt" f.alt))
  | .lineBreak => return f.leaf .lineBreak
  | .thematicBreak => return f.leaf .thematicBreak

def asDepth (v : Json) : Json.Decoded UInt8 := (v.asNatural UInt8.size "u8").map UInt8.ofNat

def asStart (v : Json) : Json.Decoded UInt32 := (v.asNatural UInt32.size "u32").map UInt32.ofNat

def asAlign (v : Json) : Json.Decoded (List (Option Align)) := do
  (← v.asArray).mapM (Json.asNullable Align.ofJson)

def Fields.add (f : Fields) (name : String) (v : Json) : Json.Decoded Fields :=
  let text (held : Option String) := Json.once name held Json.asString v
  let nullableText (held : Option (Option String)) :=
    Json.once name held (Json.asNullable Json.asString) v
  match name with
  | "depth" => do return { f with depth := ← Json.once name f.depth asDepth v }
  | "ordered" => do return { f with ordered := ← Json.once name f.ordered Json.asBool v }
  | "start" => do
    return { f with start := ← Json.once name f.start (Json.asNullable asStart) v }
  | "spread" => do return { f with spread := ← Json.once name f.spread Json.asBool v }
  | "checked" => do
    return { f with checked := ← Json.once name f.checked (Json.asNullable Json.asBool) v }
  | "align" => do return { f with align := ← Json.once name f.align asAlign v }
  | "value" => do return { f with value := ← text f.value }
  | "lang" => do return { f with lang := ← nullableText f.lang }
  | "meta" => do return { f with info := ← nullableText f.info }
  | "url" => do return { f with url := ← text f.url }
  | "title" => do return { f with title := ← nullableText f.title }
  | "alt" => do return { f with alt := ← text f.alt }
  | "position" => do
    return { f with
      position := ← Json.once name f.position (Json.asNullable Position.ofJson) v }
  | "data" => do
    return { f with data := ← Json.once name f.data (Json.asNullable Data.ofJson) v }
  | _ => .ok f

def Fields.take (f : Fields) (name : String) (v : Json)
    (readChildren : Json → Json.Decoded (List Node)) : Json.Decoded Fields :=
  if name == "children" then do
    return { f with children := ← Json.once name f.children readChildren v }
  else f.add name v

def kindNames : List String := Kind.all.map Kind.name

def isField (kind : Kind) (name : String) : Bool :=
  kind.fieldNames.contains name || name == "position" || name == "data"

/-- In an array the fields that may be null must be there as well, but for these two. -/
def layout (kind : Kind) : Json.Layout :=
  ⟨kind.name.capitalize, kind.fieldNames ++ ["position", "data"], kind.fieldNames⟩

mutual

def ofJson (inside : Bool) : Json → Json.Decoded Node
  | .object entries => do
    let name ← Json.typeOf kindNames inside entries
    match Kind.ofName? name with
    | some kind => (← readEntries kind {} entries).build kind
    | none => .error (.unknownVariant name kindNames)
  | .array [] => .error (.missingField "type")
  | .array (v :: items) => do
    let name ← Json.asVariant kindNames inside v
    match Kind.ofName? name with
    | some kind =>
      let f ← readItems {} (layout kind).fields items
      (layout kind).checkLength items.length
      f.build kind
    | none => .error (.unknownVariant name kindNames)
  | v => .error (.wrongType v "internally tagged enum Node")

def readEntries (kind : Kind) (f : Fields) : List (String × Json) → Json.Decoded Fields
  | [] => .ok f
  | (name, v) :: entries =>
    if !isField kind name then readEntries kind f entries
    else do readEntries kind (← f.take name v fun _ => readChildren v) entries

def readItems (f : Fields) : List String → List Json → Json.Decoded Fields
  | name :: names, v :: items => do readItems (← f.take name v fun _ => readChildren v) names items
  | _, _ => .ok f

def readChildren : Json → Json.Decoded (List Node)
  | .array items => allOfJson items
  | v => .error (.wrongType v "a sequence")

def allOfJson : List Json → Json.Decoded (List Node)
  | [] => .ok []
  | v :: vs => do return (← ofJson true v) :: (← allOfJson vs)

end

def ofText (text : String) : Json.Decoded Node := Json.ofText kindNames (ofJson false) text

def ofValue (v : Json) : Json.Decoded Node :=
  Json.ofValue Json.depthLimit kindNames (ofJson false) v

def allOfValues (vs : List Json) : Json.Decoded (List Node) :=
  vs.mapM (Json.ofValue (Json.depthLimit - 1) kindNames (ofJson false))

end Node

end HtmlToMarkdown.Markdown
