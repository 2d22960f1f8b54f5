import HtmlToMarkdown.Conversion.Handler

namespace HtmlToMarkdown.Handler

open Html (Element)
open Markdown (Node)

/-- An option of a list of choices. The label is only there when it differs from the value. -/
structure Choice where
  value : String
  label : Option String := none
  deriving DecidableEq, Repr

namespace Choice

def text (c : Choice) : String :=
  match c.label with
  | some label => label ++ " (" ++ c.value ++ ")"
  | none => c.value

def ofOption (e : Element) : Choice :=
  let content := e.toText
  let label := if content == "" then (e.attribute? "label").getD "" else content
  let value := (e.attribute? "value").getD content
  { value, label := if label != "" && label != value then some label else none }

def textOf (choices : List Choice) : String := ", ".intercalate (choices.map text)

end Choice

/-- The enabled options among the nodes and below them, inner ones first. -/
def enabledOptions : List Html.Node → List Element
  | [] => []
  | .element tag properties children position :: ns =>
    let e : Element := ⟨tag, properties, children, position⟩
    enabledOptions children ++
      (if tag == "option" && !e.hasFlag "disabled" then [e] else []) ++ enabledOptions ns
  | _ :: ns => enabledOptions ns

def shownSize (control : Element) : Nat :=
  let usual := if control.hasFlag "multiple" then 4 else 1
  match control.integer? "size" with
  | some n => if 0 < n then n.toNat else usual
  | none => usual

/-- The selected options, or the first ones when none is selected. -/
def shownChoices (container control : Element) : List Choice :=
  let options := enabledOptions container.children
  let selected := options.filter (·.hasFlag "selected")
  let picked := if selected.isEmpty then options else selected
  (picked.take (shownSize control)).map Choice.ofOption

def select : TagHandler := fun _ e _ =>
  match shownChoices e e with
  | [] => pure none
  | choices => pure (some (.leaf e.position (.text (Choice.textOf choices))))

def textarea : TagHandler := fun _ e _ => pure (some (.leaf e.position (.text e.toText)))

def withoutSuggestions : List String := ["button", "file", "password", "reset", "submit"]

def suggestions (s : State) (e : Element) : List Choice :=
  if withoutSuggestions.contains e.inputType then []
  else match (e.attribute? "list").bind s.elementById with
    | some container => if container.tag == "datalist" then shownChoices container e else []
    | none => []

def inputValue (e : Element) : Option String :=
  (e.attribute? "value").or (e.attribute? "placeholder")

def inputChoices (s : State) (e : Element) : List Choice :=
  match inputValue e with
  | some value => [{ value }]
  | none => suggestions s e

def mask (s : String) : String := String.ofList (s.toList.map fun _ => '•')

/-- Passwords show only their length. -/
def masked (type : String) (choices : List Choice) : List Choice :=
  match choices with
  | choice :: rest => if type == "password" then { value := mask choice.value } :: rest else choices
  | [] => []

def choiceUrl (s : State) (type : String) (choice : Choice) : String :=
  if type == "email" then "mailto:" ++ choice.value else s.resolve (some choice.value)

def choiceLinks (s : State) (e : Element) (choices : List Choice) : List Node :=
  [Node.text ", "].intercalate <| choices.map fun choice =>
    [.parent (.link (choiceUrl s e.inputType choice) none) { position := e.position }
      [.text (choice.label.getD choice.value)]]

def toggleText (o : Options) (e : Element) : String :=
  if e.hasFlag "checked" then o.checked else o.unchecked

def imageInput (s : State) (e : Element) : Option Output :=
  ((e.attribute? "alt").or (inputValue e)).map fun alt =>
    .leaf e.position (.image (s.resolve (e.attribute? "src")) (e.attribute? "title") alt)

def textInput (s : State) (e : Element) : Option Output :=
  match masked e.inputType (inputChoices s e) with
  | [] => none
  | choices =>
    if e.inputType == "email" || e.inputType == "url" then some (.many (choiceLinks s e choices))
    else some (.leaf e.position (.text (Choice.textOf choices)))

def inputOutput (s : State) (e : Element) : Option Output :=
  let type := e.inputType
  if e.hasFlag "disabled" || type == "hidden" || type == "file" then none
  else if type == "checkbox" || type == "radio" then
    some (.leaf e.position (.text (toggleText s.options e)))
  else if type == "image" then imageInput s e
  else textInput s e

def input : TagHandler := fun _ e _ => do return inputOutput (← get) e

end HtmlToMarkdown.Handler
