import HtmlToMarkdown.Json.Syntax
import HtmlToMarkdown.Json.Value
import HtmlToMarkdown.Text.Basic

/-!
Numbers in JSON text. Digits are gathered into a significand of 64 bits; a number with a point or
an exponent, or too large for 64 bits, becomes the float `significand * 10 ^ exponent`, computed
with one multiplication or division by a float power of ten.
-/

namespace HtmlToMarkdown.Json

open Text (isDigit digitValue ofDigits)

structure Numeral where
  negative : Bool
  whole : List Char
  fraction : List Char
  /-- The sign of the exponent and its digits. -/
  exponent : Option (Bool × List Char)
  deriving Repr

/-- Appends digits as long as the significand fits 64 bits; what is left over comes second. -/
def gather (significand : Nat) : List Char → Nat × List Char
  | [] => (significand, [])
  | c :: s =>
    let next := 10 * significand + digitValue c
    if next < UInt64.size then gather next s else (significand, c :: s)

def powerOfTen (n : Nat) : Float := Float.ofScientific 1 false n

/-- Divides by `10 ^ n`, in steps when that power is beyond the floats. -/
def divideByPower (x : Float) (n : Nat) : Float :=
  if n ≤ 308 then x / powerOfTen n
  else if x == 0 then x
  else divideByPower (x / powerOfTen 308) (n - 308)
termination_by n

def scale (significand : Nat) (exponent : Int) : Option Float :=
  let x := significand.toUInt64.toFloat
  if exponent < 0 then some (divideByPower x exponent.natAbs)
  else if exponent ≤ 308 then
    let y := x * powerOfTen exponent.natAbs
    if y.isInf then none else some y
  else if x == 0 then some x
  else none

def Numeral.exponentValue (n : Numeral) : Int :=
  match n.exponent with
  | none => 0
  | some (negative, digits) => if negative then -(ofDigits digits : Int) else ofDigits digits

def Numeral.value (n : Numeral) : Except SyntaxError Json :=
  let (head, dropped) := gather 0 n.whole
  if dropped.isEmpty && n.fraction.isEmpty && n.exponent.isNone &&
      (!n.negative || (0 < head && head ≤ Text.maxMagnitude + 1)) then
    .ok (.int (if n.negative then -head else head))
  else
    let (significand, ignored) := gather head n.fraction
    let places : Int := n.fraction.length - ignored.length
    match scale significand (dropped.length - places + n.exponentValue) with
    | none => .error .numberOutOfRange
    | some x => .ok (.float (if n.negative then -x else x))

/-- A digit must come: the text may not end here, nor go on with anything else. -/
def needDigit : List Char → Except SyntaxError Unit
  | [] => .error .endInValue
  | c :: _ => if isDigit c then .ok () else .error .invalidNumber

def readExponent : List Char → Except SyntaxError (Option (Bool × List Char) × List Char)
  | c :: s =>
    if c == 'e' || c == 'E' then
      let (negative, s) := Text.splitSign s
      do
        needDigit s
        return (some (negative, s.takeWhile isDigit), s.dropWhile isDigit)
    else .ok (none, c :: s)
  | [] => .ok (none, [])

def readFraction : List Char → Except SyntaxError (List Char × List Char)
  | '.' :: s => do
    needDigit s
    return (s.takeWhile isDigit, s.dropWhile isDigit)
  | s => .ok ([], s)

def readWhole : List Char → Except SyntaxError (List Char × List Char)
  | '0' :: s =>
    match s with
    | c :: _ => if isDigit c then .error .invalidNumber else .ok (['0'], s)
    | [] => .ok (['0'], [])
  | s => do
    needDigit s
    return (s.takeWhile isDigit, s.dropWhile isDigit)

def splitMinus : List Char → Bool × List Char
  | '-' :: s => (true, s)
  | s => (false, s)

def readNumber (s : List Char) : Except SyntaxError (Json × List Char) := do
  let (negative, s) := splitMinus s
  let (whole, s) ← readWhole s
  let (fraction, s) ← readFraction s
  let (exponent, s) ← readExponent s
  return (← Numeral.value ⟨negative, whole, fraction, exponent⟩, s)

theorem length_dropWhile_le (p : Char → Bool) (s : List Char) :
    (s.dropWhile p).length ≤ s.length := (List.dropWhile_suffix p).length_le

theorem length_dropWhile_lt {s : List Char} (h : needDigit s = .ok ()) :
    (s.dropWhile isDigit).length < s.length := by
  cases s with
  | nil => cases h
  | cons c s =>
    have : isDigit c := by
      by_cases hc : isDigit c
      · exact hc
      · simp [needDigit, hc] at h
    simpa [this] using Nat.lt_succ_of_le (length_dropWhile_le isDigit s)

theorem length_splitSign_le (s : List Char) : (Text.splitSign s).2.length ≤ s.length := by
  unfold Text.splitSign
  split <;> simp

theorem length_readExponent {s rest : List Char} {e : Option (Bool × List Char)}
    (h : readExponent s = .ok (e, rest)) : rest.length ≤ s.length := by
  cases s with
  | nil => simp_all [readExponent]
  | cons c s =>
    simp only [readExponent] at h
    split at h
    · cases hd : needDigit (Text.splitSign s).2 with
      | error e => simp [hd, bind, Except.bind] at h
      | ok u =>
        simp only [hd, bind, Except.bind, pure, Except.pure, Except.ok.injEq, Prod.mk.injEq] at h
        have := length_dropWhile_le isDigit (Text.splitSign s).2
        have := length_splitSign_le s
        simp [← h.2]
        omega
    · simp_all

theorem length_readFraction {s rest ds : List Char}
    (h : readFraction s = .ok (ds, rest)) : rest.length ≤ s.length := by
  unfold readFraction at h
  split at h
  · next s =>
    cases hd : needDigit s with
    | error e => simp [hd, bind, Except.bind] at h
    | ok u =>
      simp only [hd, bind, Except.bind, pure, Except.pure, Except.ok.injEq, Prod.mk.injEq] at h
      have := length_dropWhile_le isDigit s
      simp [← h.2]
      omega
  · simp_all

theorem length_readWhole {s rest ds : List Char}
    (h : readWhole s = .ok (ds, rest)) : rest.length < s.length := by
  unfold readWhole at h
  split at h
  · split at h
    · split at h <;> simp_all
    · simp [(Prod.mk.inj (Except.ok.inj h)).2.symm]
  · cases hd : needDigit s with
    | error e => simp [hd, bind, Except.bind] at h
    | ok u =>
      simp only [hd, bind, Except.bind, pure, Except.pure, Except.ok.injEq, Prod.mk.injEq] at h
      simpa [← h.2] using length_dropWhile_lt hd

theorem length_splitMinus_le (s : List Char) : (splitMinus s).2.length ≤ s.length := by
  unfold splitMinus
  split <;> simp

theorem length_readNumber {s rest : List Char} {v : Json}
    (h : readNumber s = .ok (v, rest)) : rest.length < s.length := by
  simp only [readNumber, bind, Except.bind, pure, Except.pure] at h
  split at h
  · cases h
  · next whole hw =>
    split at h
    · cases h
    · next fraction hf =>
      split at h
      · cases h
      · next exponent he =>
        split at h
        · cases h
        · have := length_splitMinus_le s
          have := length_readWhole hw
          have := length_readFraction hf
          have := length_readExponent he
          simp only [Except.ok.injEq, Prod.mk.injEq] at h
          simp only [← h.2]
          omega

end HtmlToMarkdown.Json
