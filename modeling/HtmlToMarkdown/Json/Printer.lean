import HtmlToMarkdown.Decimal.Notation
import HtmlToMarkdown.Json.Value
import HtmlToMarkdown.Text.Quoted

namespace HtmlToMarkdown.Json

def hex4 (n : Nat) : List Char :=
  let digits := Text.hexDigits n
  List.replicate (4 - digits.length) '0' ++ digits

def escape (c : Char) : List Char :=
  if c == '"' then ['\\', '"']
  else if c == '\\' then ['\\', '\\']
  else if c == '\x08' then ['\\', 'b']
  else if c == '\x0c' then ['\\', 'f']
  else if c == '\n' then ['\\', 'n']
  else if c == '\r' then ['\\', 'r']
  else if c == '\t' then ['\\', 't']
  else if c.toNat < 0x20 then ['\\', 'u'] ++ hex4 c.toNat
  else [c]

def renderString (s : String) : List Char := ['"'] ++ s.toList.flatMap escape ++ ['"']

mutual

def render : Json → List Char
  | .null => "null".toList
  | .bool b => (if b then "true" else "false").toList
  | .int n => (toString n).toList
  | .float x => (Decimal.compact x).toList
  | .string s => renderString s
  | .array items => ['['] ++ renderItems items ++ [']']
  | .object entries => ['{'] ++ renderEntries entries ++ ['}']

def renderItems : List Json → List Char
  | [] => []
  | [v] => render v
  | v :: vs => render v ++ ',' :: renderItems vs

def renderEntries : List (String × Json) → List Char
  | [] => []
  | [(k, v)] => renderString k ++ ':' :: render v
  | (k, v) :: es => renderString k ++ ':' :: render v ++ ',' :: renderEntries es

end

def text (v : Json) : String := String.ofList (render v)

end HtmlToMarkdown.Json
