namespace HtmlToMarkdown

/-- An `int` fits 64 bits, signed or unsigned; every other number is a `float`. -/
inductive Json where
  | null
  | bool (b : Bool)
  | int (n : Int)
  | float (x : Float)
  | string (s : String)
  | array (items : List Json)
  | object (entries : List (String × Json))
  deriving Inhabited, Repr

namespace Json

def strings (items : List String) : Json := .array (items.map .string)

def ofOption {α : Type} (f : α → Json) : Option α → Json
  | none => .null
  | some a => f a

def entry? {α : Type} (name : String) (f : α → Json) : Option α → List (String × Json)
  | none => []
  | some a => [(name, f a)]

mutual

def depth : Json → Nat
  | array items => depthOfItems items + 1
  | object entries => depthOfEntries entries + 1
  | _ => 0

def depthOfItems : List Json → Nat
  | [] => 0
  | v :: vs => max v.depth (depthOfItems vs)

def depthOfEntries : List (String × Json) → Nat
  | [] => 0
  | (_, v) :: entries => max v.depth (depthOfEntries entries)

end

def field? (name : String) : Json → Option Json
  | .object entries => (entries.reverse.find? (·.1 == name)).map (·.2)
  | _ => none

end Json

end HtmlToMarkdown
