import HtmlToMarkdown.Json.Number

/-!
The tokens of JSON text. Scanning never fails: text that begins no token becomes a `broken` one,
which the reader reports if it gets that far, and nothing after it is scanned.
-/

namespace HtmlToMarkdown.Json

inductive Token
  | openObject
  | closeObject
  | openArray
  | closeArray
  | comma
  | colon
  | scalar (value : Json)
  | string (s : String)
  | brokenString (error : SyntaxError)
  | broken (error : SyntaxError)
  deriving Repr

def hexValue? (c : Char) : Option Nat :=
  if Text.isDigit c then some (c.toNat - '0'.toNat)
  else if 'a' ≤ c && c ≤ 'f' then some (c.toNat - 'a'.toNat + 10)
  else if 'A' ≤ c && c ≤ 'F' then some (c.toNat - 'A'.toNat + 10)
  else none

/-- A unit of four hexadecimal digits. Fewer than four bytes of text count as its end. -/
def hexUnit (a b c d : Char) : Option Nat := do
  return (((← hexValue? a) * 16 + (← hexValue? b)) * 16 + (← hexValue? c)) * 16 + (← hexValue? d)

def noHexUnit (s : List Char) : SyntaxError :=
  if (String.ofList s).utf8ByteSize < 4 then .endInString else .invalidEscape

def isHighSurrogate (n : Nat) : Bool := 0xD800 ≤ n && n ≤ 0xDBFF

def isLowSurrogate (n : Nat) : Bool := 0xDC00 ≤ n && n ≤ 0xDFFF

def pairSurrogates (high low : Nat) : Char :=
  Char.ofNat ((high - 0xD800) * 0x400 + (low - 0xDC00) + 0x10000)

def shortEscape? : Char → Option Char
  | '"' => some '"'
  | '\\' => some '\\'
  | '/' => some '/'
  | 'b' => some '\x08'
  | 'f' => some '\x0c'
  | 'n' => some '\n'
  | 'r' => some '\r'
  | 't' => some '\t'
  | _ => none

def noLowSurrogate : List Char → SyntaxError
  | [] => .endInString
  | ['\\'] => .endInString
  | '\\' :: 'u' :: s => noHexUnit s
  | _ => .endOfHexEscape

def withChar (c : Char) (read : Except SyntaxError (List Char × List Char)) :
    Except SyntaxError (List Char × List Char) :=
  read.map fun (cs, rest) => (c :: cs, rest)

theorem exists_of_withChar {c : Char} {read : Except SyntaxError (List Char × List Char)}
    {cs rest : List Char} (h : withChar c read = .ok (cs, rest)) :
    ∃ ds, read = .ok (ds, rest) := by
  cases read with
  | error e => cases h
  | ok found =>
    obtain ⟨ds, s⟩ := found
    cases h
    exact ⟨ds, rfl⟩

def readString : List Char → Except SyntaxError (List Char × List Char)
  | [] => .error .endInString
  | '"' :: s => .ok ([], s)
  | '\\' :: [] => .error .endInString
  | '\\' :: 'u' :: a :: b :: c :: d :: s =>
    match hexUnit a b c d with
    | none => .error (noHexUnit (a :: b :: c :: d :: s))
    | some n =>
      if isLowSurrogate n then .error .loneSurrogate
      else if isHighSurrogate n then
        match s with
        | '\\' :: 'u' :: a :: b :: c :: d :: s =>
          match hexUnit a b c d with
          | none => .error (noHexUnit (a :: b :: c :: d :: s))
          | some m =>
            if isLowSurrogate m then
              withChar (pairSurrogates n m) (readString s)
            else .error .loneSurrogate
        | s => .error (noLowSurrogate s)
      else withChar (Char.ofNat n) (readString s)
  | '\\' :: 'u' :: s => .error (noHexUnit s)
  | '\\' :: c :: s =>
    match shortEscape? c with
    | none => .error .invalidEscape
    | some d => withChar d (readString s)
  | c :: s =>
    if c.toNat < 0x20 then .error .controlCharacter
    else withChar c (readString s)

def readWord (value : Json) : List Char → List Char → Except SyntaxError (Json × List Char)
  | [], s => .ok (value, s)
  | _ :: _, [] => .error .endInValue
  | w :: word, c :: s => if c == w then readWord value word s else .error .expectedIdent

def readScalar (c : Char) (s : List Char) : Except SyntaxError (Json × List Char) :=
  match c with
  | 'n' => readWord .null ['u', 'l', 'l'] s
  | 't' => readWord (.bool true) ['r', 'u', 'e'] s
  | 'f' => readWord (.bool false) ['a', 'l', 's', 'e'] s
  | c => if c == '-' || Text.isDigit c then readNumber (c :: s) else .error .expectedValue

def isGap (c : Char) : Bool := c == ' ' || c == '\n' || c == '\t' || c == '\r'

def punctuation? : Char → Option Token
  | '{' => some .openObject
  | '}' => some .closeObject
  | '[' => some .openArray
  | ']' => some .closeArray
  | ',' => some .comma
  | ':' => some .colon
  | _ => none

theorem length_readString {s cs rest : List Char} (h : readString s = .ok (cs, rest)) :
    rest.length < s.length := by
  fun_induction readString s generalizing cs rest with
  | case2 s =>
    cases h
    simp
  | case7 _ _ _ _ _ _ _ _ _ _ _ _ s _ _ _ ih | case10 _ _ _ _ s _ _ _ _ ih
  | case13 _ s _ _ _ _ ih | case15 _ s _ _ _ _ _ _ ih =>
    obtain ⟨ds, hd⟩ := exists_of_withChar h
    have := ih hd
    simp
    omega
  | _ => cases h

theorem length_readWord {value v : Json} {word s rest : List Char}
    (h : readWord value word s = .ok (v, rest)) : rest.length ≤ s.length := by
  fun_induction readWord value word s with
  | case1 => exact Nat.le_of_eq (congrArg List.length (Prod.mk.inj (Except.ok.inj h)).2.symm)
  | case3 _ _ _ _ _ ih => exact Nat.le_succ_of_le (ih h)
  | _ => cases h

theorem length_readScalar {c : Char} {s rest : List Char} {v : Json}
    (h : readScalar c s = .ok (v, rest)) : rest.length < (c :: s).length := by
  unfold readScalar at h
  split at h
  · exact Nat.lt_succ_of_le (length_readWord h)
  · exact Nat.lt_succ_of_le (length_readWord h)
  · exact Nat.lt_succ_of_le (length_readWord h)
  · split at h
    · exact length_readNumber h
    · cases h

/-- Gaps between tokens are skipped. -/
def scan : List Char → List Token
  | [] => []
  | c :: s =>
    if isGap c then scan s
    else match punctuation? c with
      | some token => token :: scan s
      | none =>
        if c == '"' then
          match _h : readString s with
          | .ok (cs, rest) => .string (String.ofList cs) :: scan rest
          | .error e => [.brokenString e]
        else
          match _h : readScalar c s with
          | .ok (value, rest) => .scalar value :: scan rest
          | .error e => [.broken e]
termination_by s => s.length
decreasing_by
  · simp
  · simp
  · have := length_readString _h
    simp
    omega
  · exact length_readScalar _h

end HtmlToMarkdown.Json
