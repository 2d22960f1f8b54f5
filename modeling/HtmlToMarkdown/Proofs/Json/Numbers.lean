import HtmlToMarkdown.Json.Printer
import HtmlToMarkdown.Json.Token
import Mathlib.Data.List.TakeWhile

namespace HtmlToMarkdown.Json

open Text (isDigit digitValue)

theorem exists_of_bind {ε α β : Type} {x : Except ε α} {f : α → Except ε β} {b : β}
    (result : x >>= f = .ok b) : ∃ a, x = .ok a ∧ f a = .ok b := by
  cases x with
  | error e => cases result
  | ok a => exact ⟨a, rfl, result⟩

-- The parentheses keep `simp` from using this by definition, which leaves the kernel to compare
-- everything that is bound.
@[simp] theorem ok_bind {ε α β : Type} (a : α) (f : α → Except ε β) :
    (Except.ok a >>= f) = f a := (rfl)

def EndsNumber (rest : List Char) : Prop :=
  ∀ c ∈ rest.head?, ¬ isDigit c ∧ c ≠ '.' ∧ c ≠ 'e' ∧ c ≠ 'E'

theorem endsNumber_nil : EndsNumber [] := fun _ absent => nomatch absent

theorem endsNumber_cons {c : Char} (rest : List Char)
    (apart : ¬ isDigit c ∧ c ≠ '.' ∧ c ≠ 'e' ∧ c ≠ 'E') : EndsNumber (c :: rest) := by
  rintro d ⟨⟩
  exact apart

section Append

variable {s t rest : List Char}

theorem takeWhile_isDigit_append (s : List Char) (ends : EndsNumber rest) :
    (s ++ rest).takeWhile isDigit = s.takeWhile isDigit := by
  induction s with
  | nil =>
      cases rest with
      | nil => rfl
      | cons c rest => exact List.takeWhile_cons_of_neg (ends c rfl).1
  | cons c s ih => rw [List.cons_append, List.takeWhile_cons, List.takeWhile_cons, ih]

theorem dropWhile_isDigit_append (s : List Char) (ends : EndsNumber rest) :
    (s ++ rest).dropWhile isDigit = s.dropWhile isDigit ++ rest := by
  induction s with
  | nil =>
      cases rest with
      | nil => rfl
      | cons c rest => exact List.dropWhile_cons_of_neg (ends c rfl).1
  | cons c s ih =>
      rw [List.cons_append, List.dropWhile_cons, List.dropWhile_cons, ih]
      split <;> rfl

theorem needDigit_append (given : needDigit s = .ok ()) (rest : List Char) :
    needDigit (s ++ rest) = .ok () := by
  cases s with
  | nil => cases given
  | cons c s => exact given

theorem splitMinus_append (filled : s ≠ []) (rest : List Char) :
    splitMinus (s ++ rest) = ((splitMinus s).1, (splitMinus s).2 ++ rest) := by
  cases s with
  | nil => exact absurd rfl filled
  | cons c s =>
      by_cases minus : c = '-'
      · subst minus
        rfl
      · simp [splitMinus, minus]

theorem splitSign_append (filled : s ≠ []) (rest : List Char) :
    Text.splitSign (s ++ rest) = ((Text.splitSign s).1, (Text.splitSign s).2 ++ rest) := by
  cases s with
  | nil => exact absurd rfl filled
  | cons c s =>
      by_cases minus : c = '-'
      · subst minus
        rfl
      · by_cases plus : c = '+'
        · subst plus
          rfl
        · simp [Text.splitSign, minus, plus]

theorem readWhole_of_nonzero {c : Char} (nonzero : c ≠ '0') (s : List Char) :
    readWhole (c :: s) = do
      needDigit (c :: s)
      return ((c :: s).takeWhile isDigit, (c :: s).dropWhile isDigit) := by
  rw [readWhole]
  rintro s ⟨⟩
  exact nonzero rfl

theorem readFraction_of_other {c : Char} (other : c ≠ '.') (s : List Char) :
    readFraction (c :: s) = .ok ([], c :: s) := by
  rw [readFraction]
  rintro s ⟨⟩
  exact other rfl

theorem readWhole_append {digits : List Char} (ends : EndsNumber rest)
    (read : readWhole s = .ok (digits, t)) : readWhole (s ++ rest) = .ok (digits, t ++ rest) := by
  cases s with
  | nil => cases read
  | cons c s =>
      rw [List.cons_append]
      by_cases zero : c = '0'
      · -- Nothing but the end of the number may follow a zero in front.
        subst zero
        cases s with
        | nil =>
            cases read
            cases rest with
            | nil => rfl
            | cons c rest => simp [readWhole, (ends c rfl).1]
        | cons c s =>
            simp only [readWhole] at read
            split at read
            · cases read
            next other =>
              cases read
              simp [readWhole, other]
      · rw [readWhole_of_nonzero zero] at read ⊢
        rcases exists_of_bind read with ⟨_, digit, same⟩
        cases same
        have again : needDigit (c :: (s ++ rest)) = .ok () := digit
        rw [again, ← List.cons_append, takeWhile_isDigit_append _ ends,
          dropWhile_isDigit_append _ ends]
        rfl

theorem readFraction_append {digits : List Char} (ends : EndsNumber rest)
    (read : readFraction s = .ok (digits, t)) :
    readFraction (s ++ rest) = .ok (digits, t ++ rest) := by
  cases s with
  | nil =>
      cases read
      cases rest with
      | nil => rfl
      | cons c rest => exact readFraction_of_other (ends c rfl).2.1 rest
  | cons c s =>
      rw [List.cons_append]
      by_cases point : c = '.'
      · subst point
        rcases exists_of_bind read with ⟨_, digit, same⟩
        cases same
        simp only [readFraction, needDigit_append digit, takeWhile_isDigit_append _ ends,
          dropWhile_isDigit_append _ ends]
        rfl
      · rw [readFraction_of_other point] at read ⊢
        cases read
        rfl

theorem readExponent_append {exponent : Option (Bool × List Char)} (ends : EndsNumber rest)
    (read : readExponent s = .ok (exponent, t)) :
    readExponent (s ++ rest) = .ok (exponent, t ++ rest) := by
  cases s with
  | nil =>
      cases read
      cases rest with
      | nil => rfl
      | cons c rest =>
          rcases (ends c rfl).2.2 with ⟨small, capital⟩
          simp [readExponent, small, capital]
  | cons c s =>
      simp only [readExponent, List.cons_append] at read ⊢
      split at read
      next letter =>
        rcases exists_of_bind read with ⟨_, digit, same⟩
        cases same
        have filled : s ≠ [] := by
          rintro rfl
          cases digit
        rw [if_pos letter, splitSign_append filled]
        simp only [needDigit_append digit, takeWhile_isDigit_append _ ends,
          dropWhile_isDigit_append _ ends]
        rfl
      next other =>
        cases read
        rw [if_neg other]
        rfl

theorem readNumber_eq (s : List Char) :
    readNumber s = do
      let (whole, afterWhole) ← readWhole (splitMinus s).2
      let (fraction, afterFraction) ← readFraction afterWhole
      let (exponent, afterExponent) ← readExponent afterFraction
      return (← Numeral.value ⟨(splitMinus s).1, whole, fraction, exponent⟩, afterExponent) := rfl

theorem readNumber_append {v : Json} (ends : EndsNumber rest) (read : readNumber s = .ok (v, t)) :
    readNumber (s ++ rest) = .ok (v, t ++ rest) := by
  rw [readNumber_eq] at read
  rcases exists_of_bind read with ⟨⟨whole, afterWhole⟩, isWhole, read⟩
  rcases exists_of_bind read with ⟨⟨fraction, afterFraction⟩, isFraction, read⟩
  rcases exists_of_bind read with ⟨⟨exponent, afterExponent⟩, isExponent, read⟩
  rcases exists_of_bind read with ⟨value, isValue, same⟩
  cases same
  have filled : s ≠ [] := by
    rintro rfl
    cases isWhole
  simp only [readNumber_eq, splitMinus_append filled, readWhole_append ends isWhole,
    readFraction_append ends isFraction, readExponent_append ends isExponent, isValue, bind,
    Except.bind, pure, Except.pure]

end Append

section Integers

theorem le_ofDigitChars (s : List Char) (n : Nat) : n ≤ Nat.ofDigitChars 10 s n := by
  induction s generalizing n with
  | nil => exact Nat.le_refl n
  | cons c s ih =>
      rw [Nat.ofDigitChars_cons]
      have step := ih (10 * n + (c.toNat - '0'.toNat))
      omega

/-- Digits of a number of 64 bits all go into the significand. -/
theorem gather_eq {s : List Char} {n : Nat} (small : Nat.ofDigitChars 10 s n < UInt64.size) :
    gather n s = (Nat.ofDigitChars 10 s n, []) := by
  induction s generalizing n with
  | nil => rfl
  | cons c s ih =>
      rw [Nat.ofDigitChars_cons] at small ⊢
      have next : 10 * n + digitValue c < UInt64.size :=
        Nat.lt_of_le_of_lt (le_ofDigitChars s _) small
      rw [gather]
      simp only [next, if_true]
      exact ih small

theorem isDigit_of_mem_toDigits {n : Nat} {c : Char} (member : c ∈ Nat.toDigits 10 n) :
    isDigit c := by
  have digit : c.isDigit := Nat.isDigit_of_mem_toDigits (by decide) (by decide) member
  simpa [Char.isDigit, isDigit, Char.le_def] using digit

theorem head_toDigits {n : Nat} (positive : n ≠ 0) : (Nat.toDigits 10 n).head? ≠ some '0' := by
  induction n using Nat.strongRecOn with
  | ind n ih =>
      by_cases small : n < 10
      · rw [Nat.toDigits_of_lt_base small]
        simpa using positive
      · have front := ih (n / 10) (by omega) (by omega)
        rw [Nat.toDigits_of_base_le (by decide) (by omega)]
        cases digits : Nat.toDigits 10 (n / 10) with
        | nil => exact absurd digits Nat.toDigits_ne_nil
        | cons c s =>
            rw [digits] at front
            exact front

theorem readWhole_toDigits (n : Nat) :
    readWhole (Nat.toDigits 10 n) = .ok (Nat.toDigits 10 n, []) := by
  by_cases zero : n = 0
  · subst zero
    rfl
  · have digits : ∀ c ∈ Nat.toDigits 10 n, isDigit c := fun c => isDigit_of_mem_toDigits
    have front := head_toDigits zero
    have filled : Nat.toDigits 10 n ≠ [] := Nat.toDigits_ne_nil
    generalize Nat.toDigits 10 n = s at digits front filled
    cases s with
    | nil => exact absurd rfl filled
    | cons c s =>
        have first : needDigit (c :: s) = .ok () := if_pos (digits c List.mem_cons_self)
        rw [readWhole_of_nonzero (by simpa using front), first,
          List.takeWhile_eq_self_iff.mpr digits, List.dropWhile_eq_nil_iff.mpr digits]
        rfl

theorem splitMinus_toDigits (n : Nat) :
    splitMinus (Nat.toDigits 10 n) = (false, Nat.toDigits 10 n) := by
  have digits : ∀ c ∈ Nat.toDigits 10 n, isDigit c := fun c => isDigit_of_mem_toDigits
  unfold splitMinus
  split
  next same => exact absurd (digits '-' (same ▸ List.mem_cons_self)) (by decide)
  next => rfl

theorem value_toDigits {n : Nat} (negative : Bool) (small : n < UInt64.size)
    (fits : negative → 0 < n ∧ n ≤ UInt64.size / 2) :
    Numeral.value ⟨negative, Nat.toDigits 10 n, [], none⟩ =
      .ok (.int (if negative then -n else n)) := by
  have gathered : gather 0 (Nat.toDigits 10 n) = (n, []) := by
    have all := @gather_eq (Nat.toDigits 10 n) 0
    rw [Nat.ofDigitChars_ten_toDigits] at all
    exact all small
  have bound : Text.maxMagnitude + 1 = UInt64.size / 2 := rfl
  cases negative with
  | false => simp [Numeral.value, gathered]
  | true =>
      simp [Numeral.value, gathered, bound, fits rfl]

theorem readNumber_repr {n : Int} (low : -(UInt64.size / 2 : Nat) ≤ n) (high : n < UInt64.size) :
    readNumber (toString n).toList = .ok (.int n, []) := by
  have half : UInt64.size / 2 ≤ UInt64.size := Nat.div_le_self _ _
  rw [Int.toString_eq_repr, Int.repr_eq_if, readNumber_eq]
  split
  next positive =>
    have value := @value_toDigits n.toNat false (by omega) nofun
    rw [Nat.toList_repr, splitMinus_toDigits, readWhole_toDigits]
    simp only [readFraction, readExponent, bind, Except.bind, value, pure, Except.pure]
    simp [Int.toNat_of_nonneg positive]
  next negative =>
    have value := @value_toDigits (-n).toNat true (by omega) (by omega)
    have minus :
        splitMinus ("-" ++ (-n).toNat.repr).toList = (true, Nat.toDigits 10 (-n).toNat) := by
      simp [splitMinus, String.toList_append, Nat.toList_repr]
    rw [minus, readWhole_toDigits]
    simp only [readFraction, readExponent, bind, Except.bind, value, pure, Except.pure]
    simp [Int.toNat_of_nonneg (a := -n) (by omega)]

end Integers

section Tenths

theorem digitValue_lt {c : Char} (digit : isDigit c) : digitValue c < 10 := by
  have bounds : '0' ≤ c ∧ c ≤ '9' := by simpa [isDigit] using digit
  have low : '0'.toNat ≤ c.toNat := bounds.1
  have high : c.toNat ≤ '9'.toNat := bounds.2
  have nine : '9'.toNat = '0'.toNat + 9 := rfl
  unfold digitValue
  omega

/-- A float with one digit before its point and one after it is a number of tenths. -/
theorem readNumber_tenths {whole tenth : Char} (first : isDigit whole) (nonzero : whole ≠ '0')
    (second : isDigit tenth) :
    readNumber [whole, '.', tenth] =
      .ok (.float ((10 * digitValue whole + digitValue tenth).toUInt64.toFloat / powerOfTen 1),
        []) := by
  have small : digitValue whole < UInt64.size :=
    Nat.lt_trans (digitValue_lt first) (by decide)
  have few : 10 * digitValue whole + digitValue tenth < UInt64.size := by
    have left := digitValue_lt first
    have right := digitValue_lt second
    have size : 100 ≤ UInt64.size := by decide
    omega
  have unsigned : splitMinus [whole, '.', tenth] = (false, [whole, '.', tenth]) := by
    have other : whole ≠ '-' := by
      rintro rfl
      cases first
    simp [splitMinus, other]
  have isWhole : readWhole [whole, '.', tenth] = .ok ([whole], ['.', tenth]) := by
    have point : isDigit '.' = false := rfl
    rw [readWhole_of_nonzero nonzero]
    simp [needDigit, first, point]
  have isFraction : readFraction ['.', tenth] = .ok ([tenth], []) := by
    simp [readFraction, needDigit, second]
  have value : Numeral.value ⟨false, [whole], [tenth], none⟩ =
      .ok (.float
        ((10 * digitValue whole + digitValue tenth).toUInt64.toFloat / powerOfTen 1)) := by
    simp [Numeral.value, gather, small, few, Numeral.exponentValue, scale, divideByPower]
  simp only [readNumber_eq, unsigned, isWhole, isFraction, readExponent, ok_bind, value]
  rfl

end Tenths

end HtmlToMarkdown.Json
