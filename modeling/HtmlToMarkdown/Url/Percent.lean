import HtmlToMarkdown.Text.Basic
import HtmlToMarkdown.Text.Quoted

namespace HtmlToMarkdown.Url

abbrev EncodeSet := Char → Bool

def controlSet : EncodeSet := fun c => c.toNat < 0x20 || 0x7f ≤ c.toNat

def fragmentSet : EncodeSet := fun c =>
  controlSet c || [' ', '"', '<', '>', '\x60'].contains c

def querySet : EncodeSet := fun c => controlSet c || [' ', '"', '#', '<', '>'].contains c

def specialQuerySet : EncodeSet := fun c => querySet c || c == '\''

def pathSet : EncodeSet := fun c => fragmentSet c || ['#', '?', '\x7b', '\x7d'].contains c

def userinfoSet : EncodeSet := fun c =>
  pathSet c || ['/', ':', ';', '=', '@', '[', '\\', ']', '^', '|'].contains c

def upperHex (n : Nat) : Char := (Nat.digitChar n).toUpper

def encodeByte (b : UInt8) : List Char := ['%', upperHex (b.toNat / 16), upperHex (b.toNat % 16)]

def encodeChar (set : EncodeSet) (c : Char) : List Char :=
  if set c then (String.utf8EncodeChar c).flatMap encodeByte else [c]

def encode (set : EncodeSet) (s : List Char) : List Char := s.flatMap (encodeChar set)

def hexDigit? (c : Char) : Option Nat :=
  if Text.isDigit c then some (c.toNat - '0'.toNat)
  else if 'a' ≤ c.toLower && c.toLower ≤ 'f' then some (c.toLower.toNat - 'a'.toNat + 10)
  else none

/-- Replaces each `%` and two hexadecimal digits by the character of that code. -/
def decode : List Char → List Char
  | '%' :: a :: b :: s =>
    match hexDigit? a, hexDigit? b with
    | some m, some n => Char.ofNat (16 * m + n) :: decode s
    | _, _ => '%' :: decode (a :: b :: s)
  | c :: s => c :: decode s
  | [] => []

end HtmlToMarkdown.Url
