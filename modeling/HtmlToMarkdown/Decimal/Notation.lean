import HtmlToMarkdown.Decimal.Shortest

/-!
Two written forms of a float. `plain` is for numbers in attributes: whole numbers are written as
integers of 64 bits and others without an exponent. `compact` always shows that the number is a
float and turns to an exponent, with its sign, outside the range from `1e-5` to `1e16`.
-/

namespace HtmlToMarkdown.Decimal

def digitsOf (n : Nat) : List Char := Nat.toDigits 10 n

def signed (negative : Bool) (s : List Char) : String :=
  String.ofList (if negative then '-' :: s else s)

def placePoint (digits : List Char) (place : Int) : List Char :=
  if place ≤ 0 then ['0', '.'] ++ List.replicate (-place).toNat '0' ++ digits
  else digits.take place.toNat ++ ['.'] ++ digits.drop place.toNat

def Binary.toInt? (b : Binary) : Option Int :=
  let parts := Nat.pow 2 (-b.exponent).toNat
  if b.mantissa % parts == 0 then
    let n : Int := (b.mantissa / parts * Nat.pow 2 b.exponent.toNat : Nat)
    some (if b.negative then -n else n)
  else none

def clamp64 (n : Int) : Int := max (-(UInt64.size / 2 : Nat)) (min n (UInt64.size / 2 - 1 : Nat))

/-- The highest scale is left to the infinities and to what is no number. -/
def Binary.isFinite (b : Binary) : Bool := b.exponent < 972

def plain (x : Float) : String :=
  let b := Binary.ofFloat x
  if b.isFinite then
    match b.toInt? with
    | some n => toString (clamp64 n)
    | none =>
      let s := shortest .up b
      let digits := digitsOf s.digits
      signed b.negative (placePoint digits (digits.length + s.exponent))
  else if b.mantissa == fractionSize then signed b.negative ['i', 'n', 'f']
  else "NaN"

def compact (x : Float) : String :=
  let b := Binary.ofFloat x
  let s := shortest .toEven b
  let digits := digitsOf s.digits
  let place : Int := digits.length + s.exponent
  signed b.negative <|
    if b.mantissa == 0 then ['0', '.', '0']
    else if 0 ≤ s.exponent && place ≤ 16 then
      digits ++ List.replicate s.exponent.toNat '0' ++ ['.', '0']
    else if -5 < place && place ≤ 16 then placePoint digits place
    else
      let exponent := place - 1
      let mark := ['e', if exponent < 0 then '-' else '+'] ++ digitsOf exponent.natAbs
      match digits with
      | [d] => [d] ++ mark
      | digits => placePoint digits 1 ++ mark

end HtmlToMarkdown.Decimal
