import HtmlToMarkdown.Text.CaseTables

/-!
Two ways to lowercase. `asciiLower` touches the letters A to Z alone. `lower` is the full mapping
of all letters; it is the only one that can change the number of characters, and it writes a
capital sigma at the end of a word in its final form.
-/

namespace HtmlToMarkdown.Text

def asciiLower (s : String) : String := String.ofList (s.toList.map Char.toLower)

def isCased (c : Char) : Bool := inRanges casedRanges c

def isCaseIgnorable (c : Char) : Bool := inRanges caseIgnorableRanges c

def lowerChar (c : Char) : List Char :=
  if c.toNat < 128 then [c.toLower]
  else if c == 'İ' then ['i', '\u0307']
  else
    match lowercaseRanges.find? fun (first, last, step, _) =>
        first ≤ c.toNat && c.toNat ≤ last && (c.toNat - first) % step == 0 with
    | some (first, _, _, target) => [Char.ofNat (target + (c.toNat - first))]
    | none => [c]

def meetsCased (s : List Char) : Bool :=
  ((s.dropWhile isCaseIgnorable).head?.map isCased).getD false

/-- `before` holds the characters already read, the latest first. -/
def lowerFrom (before : List Char) : List Char → List Char
  | [] => []
  | c :: s =>
    let here :=
      if c == 'Σ' then (if meetsCased before && !meetsCased s then ['ς'] else ['σ'])
      else lowerChar c
    here ++ lowerFrom (c :: before) s

def lower (s : String) : String := String.ofList (lowerFrom [] s.toList)

end HtmlToMarkdown.Text
