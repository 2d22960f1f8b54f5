import HtmlToMarkdown.Text.Basic
import Mathlib.Data.List.Induction
import Mathlib.Data.List.TakeWhile
import Mathlib.Data.Nat.Digits.Defs

/-!
Integers at the start of an attribute. A text is cut into the white space in front, a sign, digits
and what is left, in one way only, and the integer is read off these parts. The same integer comes
out when the cuts are made between the bytes of the text and the number is held in a word of 64
bits: no cut is inside a character, and no negation overflows.
-/

namespace HtmlToMarkdown.Text

structure Numeral (blank : Char → Bool) (s : List Char) where
  skipped : List Char
  sign : List Char
  digits : List Char
  rest : List Char
  parts : s = skipped ++ (sign ++ (digits ++ rest))
  blanks : ∀ c ∈ skipped, blank c
  skips : ∀ c ∈ (sign ++ (digits ++ rest)).head?, ¬ blank c
  signed : sign = [] ∨ sign = ['-'] ∨ sign = ['+']
  takesSign : sign = [] → ∀ c ∈ (digits ++ rest).head?, c ≠ '-' ∧ c ≠ '+'
  numeric : ∀ c ∈ digits, isDigit c
  longest : ∀ c ∈ rest.head?, ¬ isDigit c

/-- The number that digits stand for in the decimal system, or the largest of 63 bits if it is
larger. -/
def cappedValue (digits : List Char) : Nat :=
  min (Nat.ofDigits 10 (digits.reverse.map digitValue)) 9223372036854775807

def Numeral.value {blank : Char → Bool} {s : List Char} (n : Numeral blank s) : Option Int :=
  if n.digits = [] then none
  else some (if n.sign = ['-'] then -(cappedValue n.digits : Int) else cappedValue n.digits)

def Reads (blank : Char → Bool) (s : List Char) (value : Option Int) : Prop :=
  ∃ n : Numeral blank s, n.value = value

section Parts

variable {p blank : Char → Bool} {s front back : List Char}

theorem takeWhile_of_stops (all : ∀ c ∈ front, p c) (stops : ∀ c ∈ back.head?, ¬ p c) :
    (front ++ back).takeWhile p = front ∧ (front ++ back).dropWhile p = back := by
  rw [List.takeWhile_append_of_pos all, List.dropWhile_append_of_pos all]
  cases back with
  | nil => exact ⟨List.append_nil front, rfl⟩
  | cons c back =>
      have stop := stops c rfl
      rw [List.takeWhile_cons_of_neg stop, List.dropWhile_cons_of_neg stop]
      exact ⟨List.append_nil front, rfl⟩

theorem forall_head_dropWhile (p : Char → Bool) (s : List Char) :
    ∀ c ∈ (s.dropWhile p).head?, ¬ p c := by
  intro c first
  have stops := List.head?_dropWhile_not p s
  rw [first] at stops
  simpa using stops

theorem ofDigits_eq (digits : List Char) :
    ofDigits digits = Nat.ofDigits 10 (digits.reverse.map digitValue) := by
  induction digits using List.reverseRecOn with
  | nil => rfl
  | append_singleton digits c ih =>
      rw [List.reverse_append, List.reverse_singleton, List.singleton_append, List.map_cons,
        Nat.ofDigits_cons, ← ih, ofDigits, List.foldl_append, Nat.add_comm]
      rfl

end Parts

section Rules

variable {blank : Char → Bool} {s : List Char} {c : Char}

def signedInteger (negative : Bool) (digits : List Char) : Option Int :=
  if digits = [] then none
  else some (if negative then -(cappedValue digits : Int) else cappedValue digits)

theorem splitSign_of_other (other : ∀ c ∈ s.head?, c ≠ '-' ∧ c ≠ '+') :
    splitSign s = (false, s) := by
  cases s with
  | nil => rfl
  | cons c s =>
      obtain ⟨minus, plus⟩ := other c rfl
      simp [splitSign, minus, plus]

theorem Numeral.splitSign_eq (n : Numeral blank s) :
    splitSign (s.dropWhile blank) = (decide (n.sign = ['-']), n.digits ++ n.rest) := by
  have remaining : s.dropWhile blank = n.sign ++ (n.digits ++ n.rest) := by
    conv_lhs => rw [n.parts]
    exact (takeWhile_of_stops n.blanks n.skips).2
  rw [remaining]
  rcases n.signed with unsigned | minus | plus
  · rw [unsigned, List.nil_append, splitSign_of_other (n.takesSign unsigned)]
    rfl
  · rw [minus]
    rfl
  · rw [plus]
    rfl

theorem Numeral.value_eq (n : Numeral blank s) :
    n.value = signedInteger (splitSign (s.dropWhile blank)).1
      ((splitSign (s.dropWhile blank)).2.takeWhile isDigit) := by
  rw [n.splitSign_eq, (takeWhile_of_stops n.numeric n.longest).1]
  simp only [Numeral.value, signedInteger, decide_eq_true_eq]

theorem sign_cases (s : List Char) : (∃ rest, s = '-' :: rest) ∨ (∃ rest, s = '+' :: rest) ∨
    ∀ c ∈ s.head?, c ≠ '-' ∧ c ≠ '+' := by
  cases s with
  | nil => exact .inr (.inr nofun)
  | cons c s =>
      by_cases minus : c = '-'
      · exact .inl ⟨s, by rw [minus]⟩
      · by_cases plus : c = '+'
        · exact .inr (.inl ⟨s, by rw [plus]⟩)
        · refine .inr (.inr fun d first => ?_)
          obtain rfl := Option.some.inj first
          exact ⟨minus, plus⟩

theorem exists_sign (s : List Char) : ∃ sign, s = sign ++ (splitSign s).2 ∧
    (sign = [] ∨ sign = ['-'] ∨ sign = ['+']) ∧
      (sign = [] → ∀ c ∈ (splitSign s).2.head?, c ≠ '-' ∧ c ≠ '+') := by
  obtain ⟨rest, rfl⟩ | ⟨rest, rfl⟩ | other := sign_cases s
  · exact ⟨['-'], rfl, .inr (.inl rfl), nofun⟩
  · exact ⟨['+'], rfl, .inr (.inr rfl), nofun⟩
  · rw [splitSign_of_other other]
    exact ⟨[], rfl, .inl rfl, fun _ => other⟩

theorem exists_numeral (blank : Char → Bool) (s : List Char) : Nonempty (Numeral blank s) := by
  obtain ⟨sign, parts, signed, takesSign⟩ := exists_sign (s.dropWhile blank)
  have digits := @List.takeWhile_append_dropWhile _ isDigit (splitSign (s.dropWhile blank)).2
  refine ⟨{
    skipped := s.takeWhile blank
    sign := sign
    digits := (splitSign (s.dropWhile blank)).2.takeWhile isDigit
    rest := (splitSign (s.dropWhile blank)).2.dropWhile isDigit
    parts := by rw [digits, ← parts, List.takeWhile_append_dropWhile]
    blanks := fun c member => List.all_eq_true.mp List.all_takeWhile c member
    skips := by
      rw [digits, ← parts]
      exact forall_head_dropWhile blank s
    signed := signed
    takesSign := by
      rw [digits]
      exact takesSign
    numeric := fun c member => List.all_eq_true.mp List.all_takeWhile c member
    longest := forall_head_dropWhile isDigit _ }⟩

theorem reads_iff {value : Option Int} : Reads blank s value ↔
    value = signedInteger (splitSign (s.dropWhile blank)).1
      ((splitSign (s.dropWhile blank)).2.takeWhile isDigit) := by
  constructor
  · rintro ⟨n, rfl⟩
    exact n.value_eq
  · rintro rfl
    obtain ⟨n⟩ := exists_numeral blank s
    exact ⟨n, n.value_eq⟩

theorem leadingInteger_eq (s : String) :
    leadingInteger s = signedInteger (splitSign (s.toList.dropWhile isBlank)).1
      ((splitSign (s.toList.dropWhile isBlank)).2.takeWhile isDigit) := by
  rw [leadingInteger, signedInteger]
  generalize splitSign (s.toList.dropWhile isBlank) = cut
  obtain ⟨negative, rest⟩ := cut
  dsimp only
  split
  next empty => rw [if_pos empty]
  next filled =>
    rw [if_neg filled, ofDigits_eq]
    rfl

theorem isBlank_of_isSpace (space : isSpace c) : isBlank c := by
  simp [isBlank, space]

theorem toNat_of_isBlank (white : isBlank c) : c.toNat ≤ 32 ∨ 133 ≤ c.toNat := by
  by_cases wide : '\u2000' ≤ c
  · exact .inr (le_trans (by decide) (UInt32.le_iff_toNat_le.mp (Char.le_def.mp wide)))
  · simp only [isBlank, isSpace, isTabOrSpace, isLineEnd, wide, decide_false, Bool.false_and,
      Bool.or_false, Bool.or_eq_true, beq_iff_eq, or_assoc] at white
    rcases white with rfl | rfl | rfl | rfl | rfl | rfl | rfl | rfl | rfl | rfl | rfl | rfl | rfl |
      rfl <;> decide

theorem not_isDigit_of_isBlank (white : isBlank c) : ¬ isDigit c ∧ c ≠ '-' ∧ c ≠ '+' := by
  have outside := toNat_of_isBlank white
  refine ⟨fun digit => ?_, ?_, ?_⟩
  · have bounds : '0' ≤ c ∧ c ≤ '9' := by simpa [isDigit] using digit
    have lower : 48 ≤ c.toNat := UInt32.le_iff_toNat_le.mp (Char.le_def.mp bounds.1)
    have upper : c.toNat ≤ 57 := UInt32.le_iff_toNat_le.mp (Char.le_def.mp bounds.2)
    omega
  · rintro rfl
    exact absurd outside (by decide)
  · rintro rfl
    exact absurd outside (by decide)

end Rules

section Spaces

variable {s : List Char} {value : Option Int}

theorem dropWhile_isSpace_of_head (dark : ∀ c ∈ (s.dropWhile isSpace).head?, ¬ isBlank c) :
    s.dropWhile isSpace = s.dropWhile isBlank := by
  have spaces : ∀ c ∈ s.takeWhile isSpace, isBlank c := fun c member =>
    isBlank_of_isSpace (List.all_eq_true.mp List.all_takeWhile c member)
  have stops := (takeWhile_of_stops spaces dark).2
  rw [List.takeWhile_append_dropWhile] at stops
  exact stops.symm

theorem reads_isSpace_iff : Reads isSpace s value ↔
    value = if (s.dropWhile isSpace).head?.any isBlank then none
      else signedInteger (splitSign (s.dropWhile isBlank)).1
        ((splitSign (s.dropWhile isBlank)).2.takeWhile isDigit) := by
  rw [reads_iff]
  cases stuck : (s.dropWhile isSpace).head?.any isBlank with
  | false =>
      have dark : ∀ c ∈ (s.dropWhile isSpace).head?, ¬ isBlank c := by
        intro c first white
        rw [Option.mem_def.mp first, Option.any_some, white] at stuck
        exact Bool.noConfusion stuck
      rw [dropWhile_isSpace_of_head dark, if_neg Bool.false_ne_true]
  | true =>
      -- The white space that is left over is no sign and no digit, so nothing is read behind it.
      obtain ⟨c, first, white⟩ : ∃ c, (s.dropWhile isSpace).head? = some c ∧ isBlank c := by
        simpa only [Option.any_eq_true] using stuck
      obtain ⟨digit, minus, plus⟩ := not_isDigit_of_isBlank white
      obtain ⟨rest, remaining⟩ := List.head?_eq_some_iff.mp first
      have unsigned : splitSign (s.dropWhile isSpace) = (false, s.dropWhile isSpace) := by
        apply splitSign_of_other
        rintro _ member
        obtain rfl := Option.some.inj (first.symm.trans member)
        exact ⟨minus, plus⟩
      rw [unsigned, remaining, List.takeWhile_cons_of_neg digit, if_pos rfl, signedInteger,
        if_pos rfl]

end Spaces

section Bytes

/-- `s` cut in two after `n` bytes of UTF-8; `none` behind the end and inside a character. -/
def cut? : List Char → Nat → Option (List Char × List Char)
  | s, 0 => some ([], s)
  | [], _ + 1 => none
  | c :: s, n + 1 =>
    if c.utf8Size ≤ n + 1 then
      (cut? s (n + 1 - c.utf8Size)).map fun cut => (c :: cut.1, cut.2)
    else none

def byteOffset (p : Char → Bool) : List Char → Nat
  | [] => 0
  | c :: s => if p c then c.utf8Size + byteOffset p s else 0

def firstByte? (s : List Char) : Option UInt8 := (s.flatMap String.utf8EncodeChar).head?

def negate? (n : Int64) : Option Int64 := if n = Int64.minValue then none else some (-n)

def magnitude (digits : List Char) : Int64 :=
  if ofDigits digits ≤ maxMagnitude then Int64.ofNat (ofDigits digits) else Int64.maxValue

/-- What is left behind a sign; `none` if the cut behind it is inside a character. -/
def unsigned? (s : List Char) : Option (List Char) :=
  if firstByte? s = some 0x2d ∨ firstByte? s = some 0x2b then (cut? s 1).map Prod.snd else some s

/-- The integer read from the bytes of the text into a word; the outer `none` is a cut inside a
character or a negation that overflows. -/
def readWord? (s : List Char) : Option (Option Int64) :=
  let trimmed := s.dropWhile isBlank
  (unsigned? trimmed).bind fun unsigned =>
    let stop := byteOffset isDigit unsigned
    if stop = 0 then some none
    else
      (cut? unsigned stop).bind fun cut =>
        if firstByte? trimmed = some 0x2d then (negate? (magnitude cut.1)).map some
        else some (some (magnitude cut.1))

example : cut? ['é'] 1 = none := by decide

variable {s : List Char} {p : Char → Bool} {c : Char}

theorem cut?_cons (c : Char) (s : List Char) (n : Nat) :
    cut? (c :: s) (c.utf8Size + n) = (cut? s n).map fun cut => (c :: cut.1, cut.2) := by
  obtain ⟨k, size⟩ := Nat.exists_eq_succ_of_ne_zero (Char.utf8Size_pos c).ne'
  have fits : c.utf8Size ≤ k + n + 1 := by omega
  have left : k + n + 1 - c.utf8Size = n := by omega
  rw [show c.utf8Size + n = k + n + 1 by omega, cut?, if_pos fits, left]

theorem cut?_byteOffset (p : Char → Bool) (s : List Char) :
    cut? s (byteOffset p s) = some (s.takeWhile p, s.dropWhile p) := by
  induction s with
  | nil => rfl
  | cons c s ih =>
      by_cases holds : p c
      · rw [byteOffset, if_pos holds, cut?_cons, ih, List.takeWhile_cons_of_pos holds,
          List.dropWhile_cons_of_pos holds]
        rfl
      · rw [byteOffset, if_neg holds, List.takeWhile_cons_of_neg holds,
          List.dropWhile_cons_of_neg holds, cut?]

theorem byteOffset_eq_zero_iff : byteOffset p s = 0 ↔ s.takeWhile p = [] := by
  cases s with
  | nil => exact iff_of_true rfl rfl
  | cons c s =>
      have size := Char.utf8Size_pos c
      by_cases holds : p c
      · rw [byteOffset, if_pos holds, List.takeWhile_cons_of_pos holds]
        exact iff_of_false (by omega) (List.cons_ne_nil _ _)
      · rw [byteOffset, if_neg holds, List.takeWhile_cons_of_neg holds]
        exact iff_of_true rfl rfl

/-- The bytes of a character that is not ASCII are all larger than the ASCII ones. -/
theorem firstByte?_eq_some_iff {d : Char} (ascii : d.toNat ≤ 127) :
    firstByte? (c :: s) = some (UInt8.ofNat d.toNat) ↔ c = d := by
  have word (n : Nat) : UInt8.ofNat n = UInt8.ofNat d.toNat ↔ n % 256 = d.toNat % 256 := by
    rw [← UInt8.toNat_inj, UInt8.toNat_ofNat', UInt8.toNat_ofNat']
  have code : c.toNat = c.val.toNat := rfl
  rw [firstByte?, List.flatMap_cons, ← Char.toNat_inj, code]
  fun_cases String.utf8EncodeChar c <;>
    simp only [List.cons_append, List.head?_cons, Option.some.injEq, word] <;> omega

theorem firstByte?_of_other (other : ∀ c ∈ s.head?, c ≠ '-' ∧ c ≠ '+') :
    firstByte? s ≠ some 0x2d ∧ firstByte? s ≠ some 0x2b := by
  cases s with
  | nil => exact ⟨nofun, nofun⟩
  | cons c s =>
      obtain ⟨minus, plus⟩ := other c rfl
      exact ⟨fun first => minus ((firstByte?_eq_some_iff (d := '-') (by decide)).mp first),
        fun first => plus ((firstByte?_eq_some_iff (d := '+') (by decide)).mp first)⟩

theorem cut?_one (size : c.utf8Size = 1) (s : List Char) : cut? (c :: s) 1 = some ([c], s) := by
  have behind := cut?_cons c s 0
  rwa [size, cut?] at behind

theorem unsigned?_eq (s : List Char) : unsigned? s = some (splitSign s).2 := by
  obtain ⟨rest, rfl⟩ | ⟨rest, rfl⟩ | other := sign_cases s
  · rw [unsigned?, if_pos (.inl rfl), cut?_one rfl]
    rfl
  · rw [unsigned?, if_pos (.inr rfl), cut?_one rfl]
    rfl
  · obtain ⟨minus, plus⟩ := firstByte?_of_other other
    rw [unsigned?, if_neg (not_or_intro minus plus), splitSign_of_other other]

theorem negative_iff (s : List Char) : firstByte? s = some 0x2d ↔ (splitSign s).1 := by
  obtain ⟨rest, rfl⟩ | ⟨rest, rfl⟩ | other := sign_cases s
  · exact iff_of_true rfl rfl
  · refine iff_of_false (fun first => ?_) Bool.false_ne_true
    exact absurd (Option.some.inj first) (by decide)
  · rw [splitSign_of_other other]
    exact iff_of_false (firstByte?_of_other other).1 Bool.false_ne_true

theorem toInt_magnitude (digits : List Char) : (magnitude digits).toInt = cappedValue digits := by
  have largest : maxMagnitude = 9223372036854775807 := rfl
  rw [magnitude, cappedValue, ← ofDigits_eq]
  split
  next fits =>
    rw [Int64.toInt_ofNat_of_lt (by omega)]
    omega
  next large =>
    rw [Int64.toInt_maxValue]
    omega

/-- A magnitude is no smallest word, so its negation does not overflow. -/
theorem exists_negate? (digits : List Char) :
    ∃ word, negate? (magnitude digits) = some word ∧ word.toInt = -(cappedValue digits : Int) := by
  have value := toInt_magnitude digits
  have positive : magnitude digits ≠ Int64.minValue := by
    intro least
    rw [least, Int64.toInt_minValue] at value
    omega
  have bound : cappedValue digits ≤ 9223372036854775807 := Nat.min_le_right _ _
  refine ⟨-magnitude digits, if_neg positive, ?_⟩
  rw [Int64.toInt_neg, value, Int.bmod_eq_of_le (by omega) (by omega)]

theorem exists_readWord? (s : String) :
    ∃ word, readWord? s.toList = some word ∧ word.map Int64.toInt = leadingInteger s := by
  rw [leadingInteger_eq, signedInteger]
  simp only [readWord?, unsigned?_eq, Option.bind_some, byteOffset_eq_zero_iff, cut?_byteOffset,
    negative_iff]
  generalize (splitSign (s.toList.dropWhile isBlank)).2.takeWhile isDigit = digits
  by_cases empty : digits = []
  · rw [if_pos empty, if_pos empty]
    exact ⟨none, rfl, rfl⟩
  · rw [if_neg empty, if_neg empty]
    cases (splitSign (s.toList.dropWhile isBlank)).1 with
    | false => exact ⟨some (magnitude digits), rfl, congrArg some (toInt_magnitude digits)⟩
    | true =>
        obtain ⟨word, negated, value⟩ := exists_negate? digits
        exact ⟨some word, congrArg (Option.map some) negated, congrArg some value⟩

end Bytes

/-- The integer of a text is the one that the rules read behind white space of any kind, and it is
read between characters and without overflow. Behind the five characters of `isSpace` alone the
rules read the same integer, but none where other white space follows them. -/
theorem reads_leadingInteger (s : String) :
    (∀ value, Reads isBlank s.toList value ↔ value = leadingInteger s) ∧
      (∃ word, readWord? s.toList = some word ∧ word.map Int64.toInt = leadingInteger s) ∧
      ∀ value, Reads isSpace s.toList value ↔
        value = if (s.toList.dropWhile isSpace).head?.any isBlank then none
          else leadingInteger s := by
  refine ⟨fun value => ?_, exists_readWord? s, fun value => ?_⟩
  · rw [leadingInteger_eq]
    exact reads_iff
  · rw [leadingInteger_eq]
    exact reads_isSpace_iff

example : leadingInteger "\xa05" = some 5 := by decide

end HtmlToMarkdown.Text
