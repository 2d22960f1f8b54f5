namespace HtmlToMarkdown.Text

def isTabOrSpace (c : Char) : Bool := c == ' ' || c == '\t'

def isLineEnd (c : Char) : Bool := c == '\n' || c == '\r'

/-- Tab, line feed, form feed, carriage return and space. -/
def isSpace (c : Char) : Bool := isTabOrSpace c || isLineEnd c || c == '\x0c'

/-- The characters with the property White_Space. -/
def isBlank (c : Char) : Bool :=
  isSpace c || c == '\x0b' || c == '\x85' || c == '\xa0' || c == '\u1680' ||
    ('\u2000' ≤ c && c ≤ '\u200a') || c == '\u2028' || c == '\u2029' || c == '\u202f' ||
    c == '\u205f' || c == '\u3000'

def dropRightWhile (p : Char → Bool) (s : List Char) : List Char :=
  (s.reverse.dropWhile p).reverse

def wordsBy (p : Char → Bool) : List Char → List (List Char)
  | [] => []
  | c :: s =>
    if p c then wordsBy p s
    else match s, wordsBy p s with
      | d :: _, w :: ws => if p d then [c] :: w :: ws else (c :: w) :: ws
      | _, ws => [c] :: ws

def trimTrailingLines (s : String) : String :=
  String.ofList (dropRightWhile isLineEnd s.toList)

def classNames (s : String) : List String := (wordsBy isSpace s.toList).map String.ofList

def isDigit (c : Char) : Bool := '0' ≤ c && c ≤ '9'

def digitValue (c : Char) : Nat := c.toNat - '0'.toNat

def ofDigits (s : List Char) : Nat := s.foldl (fun n c => 10 * n + digitValue c) 0

def maxMagnitude : Nat := UInt64.size / 2 - 1

def splitSign : List Char → Bool × List Char
  | '-' :: s => (true, s)
  | '+' :: s => (false, s)
  | s => (false, s)

/-- `none` exactly when no digit follows the optional sign. -/
def leadingInteger (s : String) : Option Int :=
  let (negative, rest) := splitSign (s.toList.dropWhile isBlank)
  match rest.takeWhile isDigit with
  | [] => none
  | digits =>
    let magnitude : Int := (min (ofDigits digits) maxMagnitude : Nat)
    some (if negative then -magnitude else magnitude)

end HtmlToMarkdown.Text
