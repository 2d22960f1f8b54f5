import HtmlToMarkdown.Html.Node
import HtmlToMarkdown.Json.Decode

namespace HtmlToMarkdown.Html

namespace PropertyValue

def toJson : PropertyValue → Json
  | flag b => .bool b
  | number x => .float x
  | text s => .string s
  | list items => Json.strings items

def asItem : Json → Option String
  | .string s => some s
  | _ => none

def floatOfInt (n : Int) : Float :=
  if n < 0 then -n.natAbs.toUInt64.toFloat else n.natAbs.toUInt64.toFloat

def ofJson : Json → Json.Decoded PropertyValue
  | .bool b => .ok (flag b)
  | .int n => .ok (number (floatOfInt n))
  | .float x => .ok (number x)
  | .string s => .ok (text s)
  | .array items =>
    match items.mapM asItem with
    | some items => .ok (list items)
    | none => .error .noPropertyValue
  | _ => .error .noPropertyValue

end PropertyValue

namespace Properties

def toJson (properties : Properties) : Json :=
  .object (properties.entries.map fun (name, value) => (name, value.toJson))

def ofJson (v : Json) : Json.Decoded Properties := do
  (← v.asMap).foldlM
    (fun properties (name, v) => return properties.insert name (← PropertyValue.ofJson v))
    OrderedMap.empty

end Properties

namespace Node

def kinds : List String := ["root", "element", "text", "comment", "doctype"]

def fieldNames : String → List String
  | "root" => ["children", "position"]
  | "element" => ["tagName", "properties", "children", "position"]
  | "text" => ["value", "position"]
  | "comment" => ["value", "position"]
  | _ => ["position"]

def positionEntry (p : Option Position) : List (String × Json) :=
  Json.entry? "position" Position.toJson p

mutual

def toJson : Node → Json
  | root children p =>
    .object <| [("type", .string "root"), ("children", .array (allToJson children))] ++
      positionEntry p
  | element tag properties children p =>
    .object <| [("type", .string "element"), ("tagName", .string tag),
      ("properties", Properties.toJson properties), ("children", .array (allToJson children))] ++
      positionEntry p
  | text value p =>
    .object <| [("type", .string "text"), ("value", .string value)] ++ positionEntry p
  | comment value p =>
    .object <| [("type", .string "comment"), ("value", .string value)] ++ positionEntry p
  | doctype p => .object <| [("type", .string "doctype")] ++ positionEntry p

def allToJson : List Node → List Json
  | [] => []
  | n :: ns => n.toJson :: allToJson ns

end

structure Fields where
  tag : Option String := none
  properties : Option Properties := none
  children : Option (List Node) := none
  value : Option String := none
  position : Option (Option Position) := none

def Fields.build (f : Fields) : String → Json.Decoded Node
  | "root" => return root (f.children.getD []) f.position.join
  | "element" =>
    return element (← Json.require "tagName" f.tag) (f.properties.getD OrderedMap.empty)
      (f.children.getD []) f.position.join
  | "text" => return text (← Json.require "value" f.value) f.position.join
  | "comment" => return comment (← Json.require "value" f.value) f.position.join
  | _ => return doctype f.position.join

def Fields.add (f : Fields) (name : String) (v : Json) : Json.Decoded Fields :=
  match name with
  | "tagName" => do
    return { f with tag := ← Json.once name f.tag (fun v => v.asString.map Text.asciiLower) v }
  | "properties" => do
    return { f with properties := ← Json.once name f.properties Properties.ofJson v }
  | "value" => do return { f with value := ← Json.once name f.value Json.asString v }
  | "position" => do
    return { f with
      position := ← Json.once name f.position (Json.asNullable Position.ofJson) v }
  | _ => .ok f

/-- Takes in a field; `readChildren` is for the children alone. -/
def Fields.take (f : Fields) (name : String) (v : Json)
    (readChildren : Json → Json.Decoded (List Node)) : Json.Decoded Fields :=
  if name == "children" then do
    return { f with children := ← Json.once name f.children readChildren v }
  else f.add name v

def layout (kind : String) : Json.Layout :=
  ⟨kind.capitalize, fieldNames kind, ["tagName", "value"]⟩

mutual

/-- The first item of an array is its type, the others are the fields in order. -/
def ofJson (inside : Bool) : Json → Json.Decoded Node
  | .object entries => do
    let kind ← Json.typeOf kinds inside entries
    (← readEntries kind {} entries).build kind
  | .array [] => .error (.missingField "type")
  | .array (v :: items) => do
    let kind ← Json.asVariant kinds inside v
    let f ← readItems {} (fieldNames kind) items
    (layout kind).checkLength items.length
    f.build kind
  | v => .error (.wrongType v "internally tagged enum Node")

def readEntries (kind : String) (f : Fields) : List (String × Json) → Json.Decoded Fields
  | [] => .ok f
  | (name, v) :: entries =>
    if !(fieldNames kind).contains name then readEntries kind f entries
    else do readEntries kind (← f.take name v fun _ => readChildren v) entries

def readItems (f : Fields) : List String → List Json → Json.Decoded Fields
  | name :: names, v :: items => do readItems (← f.take name v fun _ => readChildren v) names items
  | _, _ => .ok f

def readChildren : Json → Json.Decoded (List Node)
  | .array items => allOfJson items
  | v => .error (.wrongType v "a sequence")

def allOfJson : List Json → Json.Decoded (List Node)
  | [] => .ok []
  | v :: vs => do return (← ofJson true v) :: (← allOfJson vs)

end

def ofText (text : String) : Json.Decoded Node := Json.ofText kinds (ofJson false) text

def ofValue (v : Json) : Json.Decoded Node := Json.ofValue Json.depthLimit kinds (ofJson false) v

end Node

end HtmlToMarkdown.Html
