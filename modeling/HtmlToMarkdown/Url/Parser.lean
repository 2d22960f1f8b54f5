import HtmlToMarkdown.Url.Basic

namespace HtmlToMarkdown.Url

def clean (s : List Char) : List Char :=
  let edge : Char → Bool := fun c => c.toNat ≤ 0x20
  (Text.dropRightWhile edge (s.dropWhile edge)).filter fun c =>
    !(c == '\t' || c == '\n' || c == '\r')

def isSchemeChar (c : Char) : Bool := c.isAlphanum || c == '+' || c == '-' || c == '.'

def splitScheme : List Char → Option (List Char × List Char)
  | [] => none
  | c :: s =>
    let tail := s.dropWhile isSchemeChar
    if c.isAlpha && tail.head? == some ':' then
      some ((c :: s.takeWhile isSchemeChar).map Char.toLower, tail.tail)
    else none

def isSlash (special : Bool) (c : Char) : Bool := c == '/' || (special && c == '\\')

def endsPath (c : Char) : Bool := c == '?' || c == '#'

def endsAuthority (special : Bool) (c : Char) : Bool := isSlash special c || endsPath c

def withTail (u : Url) (s : List Char) : Url :=
  let (front, fragment) := (s.takeWhile (· != '#'), s.dropWhile (· != '#'))
  { u with
    query :=
      match front with
      | '?' :: q => some (encode (if u.isSpecial then specialQuerySet else querySet) q)
      | _ => u.query
    fragment :=
      match fragment with
      | _ :: f => some (encode fragmentSet f)
      | [] => none }

def lowered (s : List Char) : List Char := s.map Char.toLower

def isSingleDot (s : List Char) : Bool :=
  [".", "%2e"].any (·.toList == lowered s)

def isDoubleDot (s : List Char) : Bool :=
  ["..", ".%2e", "%2e.", "%2e%2e"].any (·.toList == lowered s)

/-- The first segment of a file may name a drive; its mark becomes a colon. -/
def normalDrive (scheme : List Char) (parts : List (List Char)) (part : List Char) : List Char :=
  if scheme == fileScheme && parts.isEmpty && isDriveLetter part then part.take 1 ++ [':'] else part

/-- Adds a segment to those before it; `last` tells that no slash follows. -/
def addSegment (scheme : List Char) (parts : List (List Char)) (part : List Char) (last : Bool) :
    List (List Char) :=
  if isDoubleDot part then
    let parts := shorten scheme parts
    if last then parts ++ [[]] else parts
  else if isSingleDot part then if last then parts ++ [[]] else parts
  else parts ++ [normalDrive scheme parts part]

def readSegments (scheme : List Char) (parts : List (List Char)) (part : List Char) :
    List Char → List (List Char) × List Char
  | [] => (addSegment scheme parts part.reverse true, [])
  | c :: s =>
    if isSlash (isSpecialScheme scheme) c then
      readSegments scheme (addSegment scheme parts part.reverse false) [] s
    else if endsPath c then (addSegment scheme parts part.reverse true, c :: s)
    else readSegments scheme parts ((encodeChar pathSet c).reverse ++ part) s

/-- The path of a file begins with a name, if it has one at all. -/
def dropEmptyFirst (parts : List (List Char)) : List (List Char) :=
  match parts.dropWhile List.isEmpty with
  | [] => [[]]
  | parts => parts

def withPath (u : Url) (parts : List (List Char)) (s : List Char) : Url :=
  let (parts, rest) := readSegments u.scheme parts [] s
  withTail { u with path := .segments (if u.isFile then dropEmptyFirst parts else parts) } rest

/-- Reads a path from its start: a first slash belongs to no segment, and only a special URL has
a path without any text. -/
def withPathStart (u : Url) (s : List Char) : Url :=
  match s with
  | [] => if u.isSpecial then withPath u [] [] else { u with path := .segments [] }
  | c :: rest =>
    if isSlash u.isSpecial c then withPath u [] rest
    else if endsPath c && !u.isSpecial then withTail { u with path := .segments [] } s
    else withPath u [] s

def splitLastAt (s : List Char) : Option (List Char × List Char) :=
  let host := (s.reverse.takeWhile (· != '@')).reverse
  if host.length < s.length then some (s.take (s.length - host.length - 1), host) else none

/-- The host and what follows the first colon outside brackets. -/
def splitPort (inBrackets : Bool) : List Char → List Char × Option (List Char)
  | [] => ([], none)
  | c :: s =>
    if c == ':' && !inBrackets then ([], some s)
    else
      let (host, port) := splitPort (c == '[' || (c != ']' && inBrackets)) s
      (c :: host, port)

/-- The port, absent when it is empty or the usual one. -/
def port? (scheme : List Char) (s : List Char) : Option (Option Nat) :=
  if s.isEmpty then some none
  else if !s.all Text.isDigit then none
  else
    let n := Text.ofDigits s
    if UInt16.size ≤ n then none
    else if defaultPort scheme == some n then some none
    else some (some n)

def splitCredentials (s : List Char) : List Char × List Char :=
  (encode userinfoSet (s.takeWhile (· != ':')), encode userinfoSet (s.dropWhile (· != ':')).tail)

def authority? (scheme : List Char) (s : List Char) : Option Url := do
  let special := isSpecialScheme scheme
  let (credentials, address) := match splitLastAt s with
    | some (c, a) => (some c, a)
    | none => (none, s)
  let (hostText, portText) := splitPort false address
  if hostText.isEmpty && (special || portText.isSome || credentials.isSome) then none
  let host ← if special then Host.domain? hostText else Host.other? hostText
  let port ← port? scheme (portText.getD [])
  let (username, password) := splitCredentials (credentials.getD [])
  return { scheme, username, password, host := some host, port }

def readAuthority (scheme : List Char) (s : List Char) : Option Url := do
  let ends := endsAuthority (isSpecialScheme scheme)
  let u ← authority? scheme (s.takeWhile (!ends ·))
  return withPathStart u (s.dropWhile (!ends ·))

/-- The authority of a special URL, after any number of slashes. -/
def readSpecialAuthority (scheme : List Char) (s : List Char) : Option Url :=
  readAuthority scheme (s.dropWhile (isSlash true))

def withoutQuery (u : Url) : Url := { u with query := none, fragment := none }

/-- What stands after the scheme and host of the base. -/
def relativePath (base : Url) (s : List Char) : Url :=
  match s with
  | [] => { base with fragment := none }
  | c :: _ =>
    if c == '#' then withTail base s
    else if c == '?' then withTail base.withoutQuery s
    else withPath base.withoutQuery (shorten base.scheme base.pathSegments) s

/-- Backslashes count as slashes here whatever the scheme. -/
def readRelative (base : Url) (s : List Char) : Option Url :=
  match (s.takeWhile (isSlash true)).length with
  | 0 => some (relativePath base s)
  | 1 => some (withPath base.withoutQuery [] (s.drop 1))
  | _ =>
    if s.take 2 == ['/', '/'] then readAuthority base.scheme (s.drop 2)
    else readSpecialAuthority base.scheme s

def beginsWithDrive (s : List Char) : Bool :=
  isDriveLetter (s.take 2) &&
    match s.drop 2 with
    | [] => true
    | c :: _ => endsAuthority true c

def emptyFile : Url := { scheme := fileScheme, host := some .empty }

/-- A path that begins with a drive leaves no place for a host. -/
def dropHostAtDrive (u : Url) : Url :=
  match u.pathSegments with
  | part :: _ => if isNormalDriveLetter part then { u with host := some .empty } else u
  | [] => u

/-- A file after two slashes: a host, unless a drive stands there. -/
def readFileHost (s : List Char) : Option Url :=
  let hostText := s.takeWhile (!endsAuthority true ·)
  let rest := s.dropWhile (!endsAuthority true ·)
  if isDriveLetter hostText then some (withPath emptyFile [] s)
  else if hostText.isEmpty then some (withPathStart emptyFile rest)
  else do
    let host ← Host.domain? hostText
    let host := if host == .name "localhost".toList then .empty else host
    return dropHostAtDrive (withPathStart { emptyFile with host := some host } rest)

/-- A file after one slash keeps the host or the drive of the base. -/
def readFileSlash (base : Option Url) (s : List Char) : Url :=
  match base with
  | none => withPath emptyFile [] s
  | some base =>
    let drive := match base.pathSegments with
      | part :: _ => if isNormalDriveLetter part then [part] else []
      | [] => []
    if beginsWithDrive s then withPath emptyFile [] s
    else withPath { emptyFile with host := base.host } drive s

def readFileRelative (base : Option Url) (s : List Char) : Url :=
  match base with
  | none => withPath emptyFile [] s
  | some base => if beginsWithDrive s then withPath emptyFile [] s else relativePath base s

/-- A file; `base` is given only if it is a file too. -/
def readFile (base : Option Url) (s : List Char) : Option Url :=
  match s with
  | c :: rest =>
    if !isSlash true c then some (readFileRelative base s)
    else match rest with
      | d :: host => if isSlash true d then readFileHost host else some (readFileSlash base rest)
      | [] => some (readFileSlash base [])
  | [] => some (readFileRelative base [])

def readOpaque (scheme : List Char) (s : List Char) : Url :=
  let front := s.takeWhile (!endsPath ·)
  withTail { scheme, path := .opaqueText (encode controlSet front) } (s.dropWhile (!endsPath ·))

def readWithScheme (base : Option Url) (scheme : List Char) (s : List Char) : Option Url :=
  if scheme == fileScheme then readFile (base.filter (·.isFile)) s
  else if isSpecialScheme scheme then
    match base.filter (·.scheme == scheme) with
    | some base =>
      if (s.takeWhile (isSlash true)).length < 2 then readRelative base s
      else readSpecialAuthority scheme s
    | none => readSpecialAuthority scheme s
  else match s with
    | '/' :: '/' :: rest => readAuthority scheme rest
    | '/' :: rest => some (withPath { scheme } [] rest)
    | s => some (readOpaque scheme s)

def readClean (base : Option Url) (s : List Char) : Option Url :=
  match splitScheme s with
  | some (scheme, rest) => readWithScheme base scheme rest
  | none =>
    match base with
    | none => none
    | some base =>
      if base.hasOpaquePath then
        if s.head? == some '#' then some (withTail base s) else none
      else if base.isFile then readFile (some base) s
      else readRelative base s

def parse? (s : String) : Option Url := readClean none (clean s.toList)

def join? (base : Url) (s : String) : Option Url := readClean (some base) (clean s.toList)

end HtmlToMarkdown.Url
