import HtmlToMarkdown.Json.Token

/-!
Reading a value from its tokens, one `State` after the other. A state says what may come next and
holds everything read so far, so that a reading that fails still tells how far it came.
-/

namespace HtmlToMarkdown.Json

/-- The place that waits for a value. Items and entries are held with the latest first. -/
inductive Place
  | top
  | item (items : List Json) (outer : Place)
  | member (entries : List (String × Json)) (key : String) (outer : Place)
  deriving Repr

inductive State
  | value (place : Place)
  | arrayStart (outer : Place)
  | arrayNext (items : List Json) (outer : Place)
  | objectStart (outer : Place)
  | objectNext (entries : List (String × Json)) (outer : Place)
  | nextKey (entries : List (String × Json)) (outer : Place)
  | colon (entries : List (String × Json)) (key : String) (outer : Place)
  | done (value : Json)
  deriving Repr

def Place.depth : Place → Nat
  | top => 0
  | item _ outer => outer.depth + 1
  | member _ _ outer => outer.depth + 1

def Place.put (v : Json) : Place → State
  | top => .done v
  | item items outer => .arrayNext (v :: items) outer
  | member entries key outer => .objectNext ((key, v) :: entries) outer

def Place.begin (limit : Nat) (place : Place) : Token → Except SyntaxError State
  | .scalar v => .ok (place.put v)
  | .string s => .ok (place.put (.string s))
  | .openArray =>
    if place.depth + 1 < limit then .ok (.arrayStart place) else .error .tooDeep
  | .openObject =>
    if place.depth + 1 < limit then .ok (.objectStart place) else .error .tooDeep
  | .broken e => .error e
  | .brokenString e => .error e
  | _ => .error .expectedValue

def readKey (entries : List (String × Json)) (outer : Place) : Token → Except SyntaxError State
  | .string key => .ok (.colon entries key outer)
  | .brokenString e => .error e
  | _ => .error .keyMustBeString

def State.step (limit : Nat) : State → Token → Except SyntaxError State
  | value (.item _ _), .closeArray => .error .trailingComma
  | value place, token => place.begin limit token
  | arrayStart outer, .closeArray => .ok (outer.put (.array []))
  | arrayStart outer, token => (Place.item [] outer).begin limit token
  | arrayNext items outer, .closeArray => .ok (outer.put (.array items.reverse))
  | arrayNext items outer, .comma => .ok (.value (.item items outer))
  | arrayNext _ _, _ => .error .expectedCommaOrBracket
  | objectStart outer, .closeObject => .ok (outer.put (.object []))
  | objectStart outer, token => readKey [] outer token
  | objectNext entries outer, .closeObject => .ok (outer.put (.object entries.reverse))
  | objectNext entries outer, .comma => .ok (.nextKey entries outer)
  | objectNext _ _, _ => .error .expectedCommaOrBrace
  | nextKey _ _, .closeObject => .error .trailingComma
  | nextKey entries outer, token => readKey entries outer token
  | colon entries key outer, .colon => .ok (.value (.member entries key outer))
  | colon _ _ _, _ => .error .expectedColon
  | done _, _ => .error .trailingCharacters

def State.finish : State → Except SyntaxError Json
  | done v => .ok v
  | arrayStart _ | arrayNext _ _ => .error .endInArray
  | objectStart _ | objectNext _ _ | colon _ _ _ => .error .endInObject
  | value _ | nextKey _ _ => .error .endInValue

structure Fault where
  error : SyntaxError
  state : State

def State.run (limit : Nat) (state : State) : List Token → Except Fault Json
  | [] => state.finish.mapError (⟨·, state⟩)
  | token :: tokens =>
    match state.step limit token with
    | .ok next => next.run limit tokens
    | .error e => .error ⟨e, state⟩

/-- The outermost value as far as it is known: a complete value, the items of an array, or the
entries of an object with the key whose value has not come yet. A value that has begun counts as
an item or entry: of an array or object inside it nothing but its kind is told. -/
inductive Outermost
  | complete (value : Json)
  | items (items : List Json)
  | entries (entries : List (String × Json)) (key : Option String)
  | other

def Place.outermost (begun : Option Json) : Place → Outermost
  | top => .other
  | item items top => .items (items.reverse ++ begun.toList)
  | member entries key top =>
    match begun with
    | some v => .entries ((key, v) :: entries).reverse none
    | none => .entries entries.reverse (some key)
  | item _ outer => outer.outermost (some (.array []))
  | member _ _ outer => outer.outermost (some (.object []))

def State.outermost : State → Outermost
  | done v => .complete v
  | arrayNext items .top => .items items.reverse
  | objectNext entries .top => .entries entries.reverse none
  | nextKey entries .top => .entries entries.reverse none
  | colon entries key .top => .entries entries.reverse key
  | value place => place.outermost none
  | arrayStart outer => outer.outermost (some (.array []))
  | arrayNext _ outer => outer.outermost (some (.array []))
  | objectStart outer => outer.outermost (some (.object []))
  | objectNext _ outer => outer.outermost (some (.object []))
  | nextKey _ outer => outer.outermost (some (.object []))
  | colon _ _ outer => outer.outermost (some (.object []))

def depthLimit : Nat := 128

def readTokens (tokens : List Token) : Except Fault Json :=
  (State.value .top).run depthLimit tokens

def read (text : String) : Except Fault Json := readTokens (scan text.toList)

def readDeep (text : String) : Except Fault Json :=
  (State.value .top).run (text.length + 2) (scan text.toList)

end HtmlToMarkdown.Json
