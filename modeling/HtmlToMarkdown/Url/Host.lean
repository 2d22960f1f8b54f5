import HtmlToMarkdown.Url.Percent

namespace HtmlToMarkdown.Url

inductive Host
  | name (s : List Char)
  | ipv4 (address : Nat)
  /-- Eight pieces of 16 bits. -/
  | ipv6 (pieces : List Nat)
  deriving DecidableEq, Repr

def Host.empty : Host := .name []

/-- The parts of a text between the characters `sep`; there is always at least one. -/
def splitAt (sep : Char) : List Char → List (List Char)
  | [] => [[]]
  | c :: s =>
    if c == sep then [] :: splitAt sep s
    else match splitAt sep s with
      | [] => [[c]]
      | w :: ws => (c :: w) :: ws

def digitIn? (radix : Nat) (c : Char) : Option Nat :=
  match hexDigit? c with
  | some d => if d < radix then some d else none
  | none => none

def numberIn? (radix : Nat) (s : List Char) : Option Nat :=
  s.foldlM (fun n c => (digitIn? radix c).map (radix * n + ·)) 0

/-- A part of a dotted address: decimal, octal after `0`, hexadecimal after `0x`. -/
def ipv4Part? : List Char → Option Nat
  | [] => none
  | '0' :: c :: s =>
    if c == 'x' || c == 'X' then numberIn? 16 s else numberIn? 8 (c :: s)
  | s => numberIn? 10 s

def dropEmptyLast (parts : List (List Char)) : List (List Char) :=
  if 1 < parts.length && parts.getLast? == some [] then parts.dropLast else parts

def endsInNumber (s : List Char) : Bool :=
  match (dropEmptyLast (splitAt '.' s)).getLast? with
  | none => false
  | some last => (!last.isEmpty && last.all Text.isDigit) || (ipv4Part? last).isSome

/-- The last part fills all bytes that the others leave. -/
def ipv4Address (parts : List Nat) : Option Nat :=
  match parts.reverse with
  | [] => none
  | last :: others =>
    let room := Nat.pow 256 (4 - others.length)
    if 3 < others.length || others.any (255 < ·) || room ≤ last then none
    else some (others.reverse.foldl (fun n p => 256 * n + p) 0 * room + last)

def ipv4? (s : List Char) : Option Nat := do
  ipv4Address (← (dropEmptyLast (splitAt '.' s)).mapM ipv4Part?)

def ipv4Byte? (s : List Char) : Option Nat := do
  if s.isEmpty || (1 < s.length && s.head? == some '0') then none
  let n ← numberIn? 10 s
  if n ≤ 255 then some n else none

/-- Two pieces from a dotted address at the end. -/
def ipv4Pieces? (s : List Char) : Option (List Nat) := do
  match ← (splitAt '.' s).mapM ipv4Byte? with
  | [a, b, c, d] => some [256 * a + b, 256 * c + d]
  | _ => none

def ipv6Piece? (s : List Char) : Option Nat :=
  if s.isEmpty || 4 < s.length then none else numberIn? 16 s

def ipv6Pieces? : List (List Char) → Option (List Nat)
  | [] => some []
  | [part] =>
    if part.contains '.' then ipv4Pieces? part else (ipv6Piece? part).map ([·])
  | part :: parts => do return (← ipv6Piece? part) :: (← ipv6Pieces? parts)

/-- The text before and after the first `::`. -/
def splitDoubleColon (before : List Char) : List Char → Option (List Char × List Char)
  | ':' :: ':' :: s => some (before.reverse, s)
  | c :: s => splitDoubleColon (c :: before) s
  | [] => none

def colonParts (s : List Char) : List (List Char) := if s.isEmpty then [] else splitAt ':' s

/-- Eight pieces, or fewer with a `::` that stands for the missing ones. -/
def ipv6? (s : List Char) : Option (List Nat) := do
  match splitDoubleColon [] s with
  | none =>
    let pieces ← ipv6Pieces? (colonParts s)
    if pieces.length == 8 then some pieces else none
  | some (before, after) =>
    if before.contains '.' then none
    let head ← ipv6Pieces? (colonParts before)
    let tail ← ipv6Pieces? (colonParts after)
    if head.length + tail.length < 8 then
      some (head ++ List.replicate (8 - head.length - tail.length) 0 ++ tail)
    else none

def isForbiddenInHost (c : Char) : Bool :=
  ['\x00', '\t', '\n', '\r', ' ', '#', '/', ':', '<', '>', '?', '@', '[', '\\', ']', '^',
    '|'].contains c

def isForbiddenInDomain (c : Char) : Bool :=
  isForbiddenInHost c || controlSet c || c == '%'

def bracketed? (s : List Char) : Option (Option (List Nat)) :=
  match s with
  | '[' :: rest => some (if rest.getLast? == some ']' then ipv6? rest.dropLast else none)
  | _ => none

def Host.domain? (s : List Char) : Option Host :=
  match bracketed? s with
  | some pieces => pieces.map .ipv6
  | none =>
    let name := (decode s).map Char.toLower
    if name.isEmpty || name.any isForbiddenInDomain then none
    else if endsInNumber name then (ipv4? name).map .ipv4
    else some (.name name)

def Host.other? (s : List Char) : Option Host :=
  match bracketed? s with
  | some pieces => pieces.map .ipv6
  | none => if s.any isForbiddenInHost then none else some (.name (encode controlSet s))

def decimal (n : Nat) : List Char := Nat.toDigits 10 n

def ipv4Text (address : Nat) : List Char :=
  decimal (address / Nat.pow 256 3) ++ '.' :: decimal (address / Nat.pow 256 2 % 256) ++
    '.' :: decimal (address / 256 % 256) ++ '.' :: decimal (address % 256)

def zerosAhead (pieces : List Nat) : Nat := (pieces.takeWhile (· == 0)).length

/-- Start and length of the first longest run of zeros. -/
def longestZeros (pieces : List Nat) : Nat × Nat :=
  (List.range pieces.length).foldl
    (fun best i =>
      let n := zerosAhead (pieces.drop i)
      if best.2 < n then (i, n) else best)
    (0, 0)

def piecesText (pieces : List Nat) : List Char :=
  [':'].intercalate (pieces.map Text.hexDigits)

/-- The first longest run of at least two zero pieces is written as `::`. -/
def ipv6Text (pieces : List Nat) : List Char :=
  let (start, length) := longestZeros pieces
  if length < 2 then piecesText pieces
  else piecesText (pieces.take start) ++ [':', ':'] ++ piecesText (pieces.drop (start + length))

def Host.text : Host → List Char
  | name s => s
  | ipv4 address => ipv4Text address
  | ipv6 pieces => ['['] ++ ipv6Text pieces ++ [']']

end HtmlToMarkdown.Url
