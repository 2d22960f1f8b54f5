import HtmlToMarkdown.Url.Host

namespace HtmlToMarkdown

inductive Url.Path
  /-- Text without segments, as after `mailto:`. -/
  | opaqueText (s : List Char)
  | segments (parts : List (List Char))
  deriving DecidableEq, Repr

structure Url where
  scheme : List Char
  username : List Char := []
  password : List Char := []
  host : Option Url.Host := none
  port : Option Nat := none
  path : Url.Path := .segments []
  query : Option (List Char) := none
  fragment : Option (List Char) := none
  deriving DecidableEq, Repr

namespace Url

def fileScheme : List Char := "file".toList

def specialPorts : List (List Char × Option Nat) := [
  ("ftp".toList, some 21), (fileScheme, none), ("http".toList, some 80),
  ("https".toList, some 443), ("ws".toList, some 80), ("wss".toList, some 443)]

def isSpecialScheme (scheme : List Char) : Bool := specialPorts.any (·.1 == scheme)

def defaultPort (scheme : List Char) : Option Nat :=
  ((specialPorts.find? (·.1 == scheme)).bind (·.2))

def isSpecial (u : Url) : Bool := isSpecialScheme u.scheme

def isFile (u : Url) : Bool := u.scheme == fileScheme

def hasOpaquePath (u : Url) : Bool :=
  match u.path with
  | .opaqueText _ => true
  | .segments _ => false

def pathSegments (u : Url) : List (List Char) :=
  match u.path with
  | .opaqueText _ => []
  | .segments parts => parts

def isDriveMark (c : Char) : Bool := c == ':' || c == '|'

def isDriveLetter : List Char → Bool
  | [a, b] => a.isAlpha && isDriveMark b
  | _ => false

def isNormalDriveLetter : List Char → Bool
  | [a, b] => a.isAlpha && b == ':'
  | _ => false

/-- The segments without the last one. The drive letter of a file stays. -/
def shorten (scheme : List Char) (parts : List (List Char)) : List (List Char) :=
  match parts with
  | [part] => if scheme == fileScheme && isNormalDriveLetter part then [part] else []
  | parts => parts.dropLast

def credentials (u : Url) : List Char :=
  if u.username.isEmpty && u.password.isEmpty then []
  else u.username ++ (if u.password.isEmpty then [] else ':' :: u.password) ++ ['@']

def authority (u : Url) : List Char :=
  match u.host with
  | some host =>
    "//".toList ++ u.credentials ++ host.text ++
      (match u.port with
      | some port => ':' :: decimal port
      | none => [])
  | none =>
    match u.path with
    | .segments ([] :: _ :: _) => "/.".toList
    | _ => []

def Path.text : Path → List Char
  | opaqueText s => s
  | segments parts => parts.flatMap ('/' :: ·)

def optional (mark : Char) : Option (List Char) → List Char
  | none => []
  | some s => mark :: s

def text (u : Url) : String :=
  String.ofList <|
    u.scheme ++ ':' :: u.authority ++ u.path.text ++ optional '?' u.query ++
      optional '#' u.fragment

end Url

end HtmlToMarkdown
