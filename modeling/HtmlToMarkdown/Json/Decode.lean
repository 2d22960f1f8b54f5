import HtmlToMarkdown.Json.Reader
import HtmlToMarkdown.Json.Printer

/-!
Decoding values from JSON. The entries of an object are taken in the order of the text, so of two
faults the first one is reported; what is missing is reported at the end of its object.
-/

namespace HtmlToMarkdown

inductive DecodeError
  | malformed (error : Json.SyntaxError)
  | missingField (name : String)
  | duplicateField (name : String)
  | unknownVariant (name : String) (known : List String)
  | wrongType (found : Json) (wanted : String)
  | wrongValue (found : Json) (wanted : String)
  | wrongLength (length : Nat) (wanted : String)
  | noPropertyValue

namespace Json

def described : Json → String
  | null => "null"
  | bool b => "boolean `" ++ toString b ++ "`"
  | int n => "integer `" ++ toString n ++ "`"
  | float x => "floating point `" ++ Decimal.compact x ++ "`"
  | string s => "string " ++ Text.quoted s
  | array _ => "sequence"
  | object _ => "map"

end Json

def DecodeError.message : DecodeError → String
  | malformed e => e.message
  | missingField name => "missing field `" ++ name ++ "`"
  | duplicateField name => "duplicate field `" ++ name ++ "`"
  | unknownVariant name known =>
    "unknown variant `" ++ name ++ "`, expected one of " ++
      ", ".intercalate (known.map fun k => "`" ++ k ++ "`")
  | wrongType found wanted => "invalid type: " ++ found.described ++ ", expected " ++ wanted
  | wrongValue found wanted => "invalid value: " ++ found.described ++ ", expected " ++ wanted
  | wrongLength length wanted =>
    "invalid length " ++ toString length ++ ", expected " ++ wanted
  | noPropertyValue => "data did not match any variant of untagged enum PropertyValue"

namespace Json

abbrev Decoded := Except DecodeError

def asString : Json → Decoded String
  | string s => .ok s
  | v => .error (.wrongType v "a string")

def asBool : Json → Decoded Bool
  | bool b => .ok b
  | v => .error (.wrongType v "a boolean")

def asArray : Json → Decoded (List Json)
  | array items => .ok items
  | v => .error (.wrongType v "a sequence")

def asMap : Json → Decoded (List (String × Json))
  | object entries => .ok entries
  | v => .error (.wrongType v "a map")

/-- A record is an object, or an array of its fields in order. Of an array the fields at the end
may be missing, unless one of them is `required`. -/
structure Layout where
  name : String
  fields : List String
  required : List String

namespace Layout

def described (layout : Layout) : String := "struct " ++ layout.name

def entriesOf (layout : Layout) : Json → Decoded (List (String × Json))
  | object entries => .ok entries
  | array items => .ok (layout.fields.zip items)
  | v => .error (.wrongType v layout.described)

def counted (n : Nat) : String := toString n ++ if n = 1 then " element" else " elements"

def isRequired (layout : Layout) (name : String) : Bool := layout.required.contains name

/-- Checks the number of items once those that stand for fields have been decoded. -/
def checkLength (layout : Layout) (length : Nat) : Decoded Unit :=
  match (layout.fields.drop length).findIdx? layout.isRequired with
  | some i =>
    let wanted := layout.described ++ " with " ++ counted layout.fields.length
    .error (.wrongLength (length + i) wanted)
  | none =>
    if layout.fields.length < length then
      .error (.wrongLength length (counted layout.fields.length ++ " in sequence"))
    else .ok ()

def check (layout : Layout) : Json → Decoded Unit
  | array items => layout.checkLength items.length
  | _ => .ok ()

end Layout

def asNatural (bound : Nat) (wanted : String) : Json → Decoded Nat
  | int n => if 0 ≤ n && n < bound then .ok n.toNat else .error (.wrongValue (int n) wanted)
  | v => .error (.wrongType v wanted)

def asNullable {α : Type} (decode : Json → Decoded α) : Json → Decoded (Option α)
  | null => .ok none
  | v => (decode v).map some

def asStrings (v : Json) : Decoded (List String) := do
  (← v.asArray).mapM asString

/-- One of the names `known`. In a value `inside` another its index stands for it as well. -/
def asVariant (known : List String) (inside : Bool) : Json → Decoded String
  | string s => if known.contains s then .ok s else .error (.unknownVariant s known)
  | int n =>
    if inside && 0 ≤ n then
      match known[n.toNat]? with
      | some name => .ok name
      | none => .error (.wrongValue (int n) ("variant index 0 <= i < " ++ toString known.length))
    else .error (.wrongType (int n) "variant identifier")
  | v => .error (.wrongType v "variant identifier")

/-- The value of a field that may be given once: `held` is what was given before. -/
def once {α : Type} (name : String) (held : Option α) (decode : Json → Decoded α) (v : Json) :
    Decoded (Option α) :=
  match held with
  | some _ => .error (.duplicateField name)
  | none => (decode v).map some

def require {α : Type} (name : String) : Option α → Decoded α
  | some a => .ok a
  | none => .error (.missingField name)

def typeAmong (known : List String) (inside : Bool) :
    Option String → List (String × Json) → Decoded (Option String)
  | held, [] => .ok held
  | held, (key, v) :: entries =>
    if key == "type" then
      match once "type" held (asVariant known inside) v with
      | .ok found => typeAmong known inside found entries
      | .error e => .error e
    else typeAmong known inside held entries

def typeOf (known : List String) (inside : Bool) (entries : List (String × Json)) :
    Decoded String :=
  typeAmong known inside none entries >>= require "type"

def typeFault (known : List String) (entries : List (String × Json)) (key : Option String) :
    Decoded Unit := do
  let held ← typeAmong known false none entries
  if key == some "type" && held.isSome then throw (.duplicateField "type")

/-- The fault that the items of an unfinished array show already: the first one is its type. -/
def leadFault (known : List String) : List Json → Decoded Unit
  | [] => .ok ()
  | v :: _ => (asVariant known false v).map fun _ => ()

/-- Decodes text whose outermost value is an object or array with a type. That type is checked as
soon as it is read; of all other faults those of the text win, except for characters after it. -/
def ofText {α : Type} (known : List String) (decode : Json → Decoded α) (text : String) :
    Decoded α :=
  match read text with
  | .ok v => decode v
  | .error fault => do
    match fault.state.outermost with
    | .complete v => let _ ← decode v
    | .entries entries key => typeFault known entries key
    | .items items => leadFault known items
    | .other => pure ()
    throw (.malformed fault.error)

/-- The entries of an object that are read before one of them is found to be nested too deeply,
that one included. -/
def entriesWithin (limit : Nat) : List (String × Json) → List (String × Json)
  | [] => []
  | (name, v) :: entries =>
    if v.depth + 1 < limit then (name, v) :: entriesWithin limit entries else [(name, v)]

/-- Decodes a value as `ofText` decodes its text: `limit` brackets may not be open at once, and
of the faults of a value that is nested too deeply only that of its type comes first. -/
def ofValue {α : Type} (limit : Nat) (known : List String) (decode : Json → Decoded α)
    (v : Json) : Decoded α :=
  if v.depth < limit then decode v
  else do
    match v with
    | object entries => typeFault known (entriesWithin limit entries) none
    | array items => leadFault known items
    | _ => pure ()
    throw (.malformed .tooDeep)

end Json

end HtmlToMarkdown
