/-!
The shortest decimal that reads back as a given float. A float is first taken apart into
`mantissa * 2 ^ exponent`; the reals that round to it form an interval, and the coarsest decimal
grid with a point in that interval gives the digits. The arithmetic is exact.
-/

namespace HtmlToMarkdown.Decimal

/-- The value `mantissa * 2 ^ exponent`, negated if `negative`. -/
structure Binary where
  negative : Bool
  mantissa : Nat
  exponent : Int
  deriving DecidableEq, Repr

def fractionSize : Nat := Nat.pow 2 52

def Binary.ofFloat (x : Float) : Binary :=
  let bits := x.toBits.toNat
  let fraction : Nat := bits % fractionSize
  let scale : Nat := bits / fractionSize % Nat.pow 2 11
  let negative := bits / Nat.pow 2 63 == 1
  if scale == 0 then ⟨negative, fraction, -1074⟩
  else ⟨negative, fraction + fractionSize, (scale : Int) - 1075⟩

/-- Which neighbour wins when both are equally near. -/
inductive Tie
  | up
  | toEven
  deriving DecidableEq, Repr

/-- The value `digits * 10 ^ exponent`. -/
structure Scaled where
  digits : Nat
  exponent : Int
  deriving DecidableEq, Repr

/-- An interval of rationals over one denominator with the value that it surrounds. -/
structure Interval where
  low : Nat
  value : Nat
  high : Nat
  denominator : Nat
  closed : Bool
  deriving Repr

/-- The reals that round to `b`. Below a power of two the neighbours are half as far apart. -/
def Binary.interval (b : Binary) : Interval :=
  let below := if b.mantissa == fractionSize && b.exponent > -1074 then 1 else 2
  let up := Nat.pow 2 (b.exponent - 2).toNat
  { low := (4 * b.mantissa - below) * up
    value := 4 * b.mantissa * up
    high := (4 * b.mantissa + 2) * up
    denominator := Nat.pow 2 (2 - b.exponent).toNat
    closed := b.mantissa % 2 == 0 }

def Interval.holds (i : Interval) (size parts n : Nat) : Bool :=
  let point := n * size * i.denominator
  if i.closed then i.low * parts ≤ point && point ≤ i.high * parts
  else i.low * parts < point && point < i.high * parts

def Interval.nearest (i : Interval) (tie : Tie) (size parts : Nat) : Option Nat :=
  let cell := size * i.denominator
  let n := i.value * parts / cell
  let past := i.value * parts % cell
  match i.holds size parts n, i.holds size parts (n + 1) with
  | false, false => none
  | true, false => some n
  | false, true => some (n + 1)
  | true, true =>
    if 2 * past < cell then some n
    else if cell < 2 * past then some (n + 1)
    else match tie with
      | .up => some (n + 1)
      | .toEven => some (if n % 2 == 0 then n else n + 1)

/-- Tries the grids of `10 ^ exponent` and then finer ones. -/
def Interval.search (i : Interval) (tie : Tie) : Nat → Int → Scaled
  | 0, exponent => ⟨0, exponent⟩
  | steps + 1, exponent =>
    match i.nearest tie (Nat.pow 10 exponent.toNat) (Nat.pow 10 (-exponent).toNat) with
    | some n => ⟨n, exponent⟩
    | none => i.search tie steps (exponent - 1)

def digitCount (n : Nat) : Nat := (Nat.toDigits 10 n).length

def Interval.start (i : Interval) : Int :=
  if i.denominator ≤ i.value then digitCount (i.value / i.denominator)
  else 1 - digitCount (i.denominator / i.value)

/-- Seventeen digits always suffice, so the search ends within its steps. -/
def shortest (tie : Tie) (b : Binary) : Scaled :=
  if b.mantissa == 0 then ⟨0, 0⟩
  else
    let i := b.interval
    i.search tie 20 (i.start + 1)

end HtmlToMarkdown.Decimal
