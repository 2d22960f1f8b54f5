import HtmlToMarkdown.Json.Printer
import HtmlToMarkdown.Json.Token
import HtmlToMarkdown.Proofs.Json.Numbers

namespace HtmlToMarkdown.Json

open Text (isDigit)

section Strings

theorem hexUnit_hex4 : ∀ n < 0x20, hex4 n = ['0', '0', (n / 16).digitChar, (n % 16).digitChar] ∧
    hexUnit '0' '0' (n / 16).digitChar (n % 16).digitChar = some n := by
  decide

def shortEscaped : List Char := ['"', '\\', '\x08', '\x0c', '\n', '\r', '\t']

theorem readString_plain {c : Char} (plain : c ∉ shortEscaped) (visible : ¬ c.toNat < 0x20)
    (s : List Char) : readString (c :: s) = withChar c (readString s) := by
  simp only [shortEscaped, List.mem_cons, not_or] at plain
  rw [readString.eq_def]
  split
  next same => cases same
  next same => exact absurd (List.cons.inj same).1 plain.1
  next same => exact absurd (List.cons.inj same).1 plain.2.1
  next same => exact absurd (List.cons.inj same).1 plain.2.1
  next same => exact absurd (List.cons.inj same).1 plain.2.1
  next same => exact absurd (List.cons.inj same).1 plain.2.1
  next same =>
    rcases List.cons.inj same with ⟨rfl, rfl⟩
    exact if_neg visible

theorem readString_escape (c : Char) (s : List Char) :
    readString (escape c ++ s) = withChar c (readString s) := by
  by_cases short : c ∈ shortEscaped
  · simp only [shortEscaped, List.mem_cons, List.not_mem_nil, or_false] at short
    rcases short with rfl | rfl | rfl | rfl | rfl | rfl | rfl <;> rfl
  · have other : escape c = if c.toNat < 0x20 then ['\\', 'u'] ++ hex4 c.toNat else [c] := by
      simp_all [escape, shortEscaped]
    rw [other]
    split
    next control =>
      rcases hexUnit_hex4 c.toNat control with ⟨digits, unit⟩
      have low : isLowSurrogate c.toNat = false := by simp [isLowSurrogate]; omega
      have high : isHighSurrogate c.toNat = false := by simp [isHighSurrogate]; omega
      rw [digits]
      simp [readString, unit, low, high]
    next visible => exact readString_plain short visible s

theorem readString_escaped (s rest : List Char) :
    readString (s.flatMap escape ++ '"' :: rest) = .ok (s, rest) := by
  induction s with
  | nil => rfl
  | cons c s ih =>
      rw [List.flatMap_cons, List.append_assoc, readString_escape, ih]
      rfl

theorem scan_renderString (s : String) (rest : List Char) :
    scan (renderString s ++ rest) = .string s :: scan rest := by
  have read := readString_escaped s.toList rest
  have text : renderString s ++ rest = '"' :: (s.toList.flatMap escape ++ '"' :: rest) := by
    simp [renderString]
  have notMark : punctuation? '"' = none := rfl
  rw [text, scan, if_neg (by decide), notMark]
  dsimp only
  rw [if_pos (by decide)]
  split
  next found =>
    rcases Prod.mk.inj (Except.ok.inj (read.symm.trans found)) with ⟨rfl, rfl⟩
    rw [String.ofList_toList]
  next failed => cases read.symm.trans failed

end Strings

section Scalars

theorem scan_scalar {c : Char} {s rest : List Char} {v : Json}
    (read : readScalar c s = .ok (v, rest)) : scan (c :: s) = .scalar v :: scan rest := by
  -- No value begins with a gap, a mark or a quote.
  have apart : ∀ d, readScalar d s = .error .expectedValue → c ≠ d := by
    rintro d failed rfl
    cases read.symm.trans failed
  have notGap : ¬ isGap c := by
    simp [isGap, apart ' ' rfl, apart '\n' rfl, apart '\t' rfl, apart '\r' rfl]
  have notMark : punctuation? c = none := by
    unfold punctuation?
    split
    next => exact absurd rfl (apart '{' rfl)
    next => exact absurd rfl (apart '}' rfl)
    next => exact absurd rfl (apart '[' rfl)
    next => exact absurd rfl (apart ']' rfl)
    next => exact absurd rfl (apart ',' rfl)
    next => exact absurd rfl (apart ':' rfl)
    next => rfl
  have notQuote : ¬ (c == '"') := by simp [apart '"' rfl]
  rw [scan, if_neg notGap, notMark]
  dsimp only
  rw [if_neg notQuote]
  split
  next found =>
    rcases Prod.mk.inj (Except.ok.inj (read.symm.trans found)) with ⟨rfl, rfl⟩
    rfl
  next failed => cases read.symm.trans failed

theorem scan_mark {c : Char} {token : Token} (mark : punctuation? c = some token) (s : List Char) :
    scan (c :: s) = token :: scan s := by
  have notGap : ¬ isGap c := by
    unfold punctuation? at mark
    split at mark
    next => decide
    next => decide
    next => decide
    next => decide
    next => decide
    next => decide
    next => cases mark
  rw [scan, if_neg notGap, mark]

theorem readScalar_of_readNumber {c : Char} {s rest : List Char} {v : Json}
    (read : readNumber (c :: s) = .ok (v, rest)) : readScalar c s = .ok (v, rest) := by
  have starts : c == '-' || isDigit c := by
    by_cases minus : c = '-'
    · simp [minus]
    · by_cases zero : c = '0'
      · simp [zero, isDigit]
      · have whole : splitMinus (c :: s) = (false, c :: s) := by simp [splitMinus, minus]
        rw [readNumber_eq, whole, readWhole_of_nonzero zero] at read
        rcases exists_of_bind read with ⟨_, digits, -⟩
        rcases exists_of_bind digits with ⟨_, digit, -⟩
        by_cases isOne : isDigit c
        · simp [isOne]
        · cases (if_neg isOne).symm.trans digit
  unfold readScalar
  split
  next => cases starts
  next => cases starts
  next => cases starts
  next => rwa [if_pos starts]

end Scalars

def NumberReadsBack (v : Json) : Prop := readNumber (render v) = .ok (v, [])

mutual

def ReadsBack : Json → Prop
  | .int n => NumberReadsBack (.int n)
  | .float x => NumberReadsBack (.float x)
  | .array items => AllReadBack items
  | .object entries => EntriesReadBack entries
  | .null => True
  | .bool _ => True
  | .string _ => True

def AllReadBack : List Json → Prop
  | [] => True
  | v :: vs => v.ReadsBack ∧ AllReadBack vs

def EntriesReadBack : List (String × Json) → Prop
  | [] => True
  | (_, v) :: entries => v.ReadsBack ∧ EntriesReadBack entries

end

mutual

def tokens : Json → List Token
  | .string s => [.string s]
  | .array items => .openArray :: (itemTokens items ++ [.closeArray])
  | .object entries => .openObject :: (entryTokens entries ++ [.closeObject])
  | v => [.scalar v]

def itemTokens : List Json → List Token
  | [] => []
  | [v] => tokens v
  | v :: vs => tokens v ++ .comma :: itemTokens vs

def entryTokens : List (String × Json) → List Token
  | [] => []
  | [(k, v)] => .string k :: .colon :: tokens v
  | (k, v) :: entries => .string k :: .colon :: (tokens v ++ .comma :: entryTokens entries)

end

theorem scan_number {v : Json} (readsBack : NumberReadsBack v) {rest : List Char}
    (ends : EndsNumber rest) : scan (render v ++ rest) = .scalar v :: scan rest := by
  have read := readNumber_append ends readsBack
  cases text : render v with
  | nil =>
      rw [NumberReadsBack, text] at readsBack
      cases readsBack
  | cons c s =>
      rw [text] at read
      exact scan_scalar (readScalar_of_readNumber read)

mutual

theorem scan_render {v : Json} (readsBack : v.ReadsBack) {rest : List Char}
    (ends : EndsNumber rest) : scan (render v ++ rest) = v.tokens ++ scan rest := by
  match v with
  | .null => exact scan_scalar rfl
  | .bool true => exact scan_scalar rfl
  | .bool false => exact scan_scalar rfl
  | .int n => exact scan_number readsBack ends
  | .float x => exact scan_number readsBack ends
  | .string s => exact scan_renderString s rest
  | .array items =>
      have inside := scan_renderItems readsBack (endsNumber_cons rest (c := ']') (by decide))
      simp only [render, tokens, List.append_assoc, List.cons_append, List.nil_append]
      rw [scan_mark rfl, inside, scan_mark rfl]
  | .object entries =>
      have inside := scan_renderEntries readsBack (endsNumber_cons rest (c := '}') (by decide))
      simp only [render, tokens, List.append_assoc, List.cons_append, List.nil_append]
      rw [scan_mark rfl, inside, scan_mark rfl]

theorem scan_renderItems {vs : List Json} (readBack : AllReadBack vs) {rest : List Char}
    (ends : EndsNumber rest) : scan (renderItems vs ++ rest) = itemTokens vs ++ scan rest := by
  match vs with
  | [] => rfl
  | [v] => exact scan_render readBack.1 ends
  | v :: w :: vs =>
      have first := scan_render readBack.1
        (endsNumber_cons (renderItems (w :: vs) ++ rest) (c := ',') (by decide))
      have others := scan_renderItems readBack.2 ends
      simp only [renderItems, itemTokens, List.append_assoc, List.cons_append]
      rw [first, scan_mark rfl, others]

theorem scan_renderEntries {entries : List (String × Json)} (readBack : EntriesReadBack entries)
    {rest : List Char} (ends : EndsNumber rest) :
    scan (renderEntries entries ++ rest) = entryTokens entries ++ scan rest := by
  match entries with
  | [] => rfl
  | [(k, v)] =>
      have value := scan_render readBack.1 ends
      simp only [renderEntries, entryTokens, List.append_assoc, List.cons_append]
      rw [scan_renderString, scan_mark rfl, value]
  | (k, v) :: entry :: entries =>
      have value := scan_render readBack.1
        (endsNumber_cons (renderEntries (entry :: entries) ++ rest) (c := ',') (by decide))
      have others := scan_renderEntries readBack.2 ends
      simp only [renderEntries, entryTokens, List.append_assoc, List.cons_append]
      rw [scan_renderString, scan_mark rfl, value, scan_mark rfl, others]

end

end HtmlToMarkdown.Json
