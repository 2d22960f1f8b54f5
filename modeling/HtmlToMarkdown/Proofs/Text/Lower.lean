import HtmlToMarkdown.Text.Lowercase

namespace HtmlToMarkdown.Text

/-- An ASCII character that no other character becomes. -/
def Proper (c : Char) : Prop := c.toNat < 128 ∧ c ≠ 'k'

instance : DecidablePred Proper := fun c =>
  inferInstanceAs (Decidable (c.toNat < 128 ∧ c ≠ 'k'))

theorem toNat_ofNat {n : Nat} (valid : n.isValidChar) : (Char.ofNat n).toNat = n := by
  rw [Char.ofNat, dif_pos valid]
  rfl

set_option maxRecDepth 4000 in
theorem lowercaseRanges_target : ∀ entry ∈ lowercaseRanges,
    entry = (0x212A, 0x212A, 1, 0x6B) ∨
      128 ≤ entry.2.2.2 ∧ (entry.2.2.2 + (entry.2.1 - entry.1) < 0xD800 ∨
        0xDFFF < entry.2.2.2 ∧ entry.2.2.2 + (entry.2.1 - entry.1) < 0x110000) := by
  decide +kernel

theorem not_proper_of_mem_ranges {c : Char} {first last step target : Nat}
    (entry : (first, last, step, target) ∈ lowercaseRanges)
    (inside : first ≤ c.toNat ∧ c.toNat ≤ last) :
    ¬ Proper (Char.ofNat (target + (c.toNat - first))) := by
  rintro ⟨ascii, notK⟩
  rcases lowercaseRanges_target _ entry with kelvin | ⟨high, valid⟩
  · simp only [Prod.mk.injEq] at kelvin
    obtain ⟨rfl, rfl, -, rfl⟩ := kelvin
    have here : c.toNat = 0x212A := by omega
    rw [here] at notK
    exact notK rfl
  · have known : (target + (c.toNat - first)).isValidChar := by
      dsimp only at valid
      unfold Nat.isValidChar
      omega
    rw [toNat_ofNat known] at ascii
    exact absurd ascii (by simp only at high; omega)

theorem lowerChar_eq {c : Char} (lowered : c.toLower = c) (proper : ∀ d ∈ lowerChar c, Proper d) :
    lowerChar c = [c] := by
  unfold lowerChar at proper ⊢
  split at proper
  next ascii => rw [if_pos ascii, lowered]
  next high =>
    split at proper
    next dotted =>
      exfalso
      have dot := proper '\u0307' (by simp)
      exact absurd dot.1 (by decide)
    next =>
      split at proper
      next first last step target found =>
        exfalso
        have inside := List.find?_some found
        simp only [Bool.and_eq_true, decide_eq_true_eq] at inside
        exact not_proper_of_mem_ranges (List.mem_of_find?_eq_some found) inside.1
          (List.forall_mem_singleton.mp proper)
      next => exact absurd (List.forall_mem_singleton.mp proper).1 high

theorem lowerFrom_eq {before s : List Char} (lowered : ∀ c ∈ s, c.toLower = c)
    (proper : ∀ c ∈ lowerFrom before s, Proper c) : lowerFrom before s = s := by
  induction s generalizing before with
  | nil => rfl
  | cons c s ih =>
      rw [lowerFrom] at proper ⊢
      obtain ⟨here, rest⟩ := List.forall_mem_append.mp proper
      rw [ih (fun d member => lowered d (List.mem_cons_of_mem _ member)) rest]
      by_cases sigma : c == 'Σ'
      · exfalso
        rw [if_pos sigma] at here
        split at here
        · exact absurd (List.forall_mem_singleton.mp here).1 (by decide)
        · exact absurd (List.forall_mem_singleton.mp here).1 (by decide)
      · rw [if_neg sigma] at here ⊢
        rw [lowerChar_eq (lowered c List.mem_cons_self) here]
        rfl

/-- A text in ASCII lower case whose full lower case is proper ASCII is that itself. -/
theorem eq_of_lower_eq {tag key : String} (lowered : asciiLower tag = tag)
    (same : lower tag = key) (proper : key.toList.all (Proper ·)) : tag = key := by
  have each : ∀ c ∈ tag.toList, c.toLower = c := by
    have mapped : tag.toList.map Char.toLower = tag.toList := by
      rw [← String.toList_ofList (l := tag.toList.map Char.toLower)]
      exact congrArg String.toList lowered
    exact List.map_eq_map_iff.mp (mapped.trans (List.map_id _).symm)
  have kept : lowerFrom [] tag.toList = tag.toList := by
    apply lowerFrom_eq each
    rw [← same, lower, String.toList_ofList] at proper
    simpa using proper
  rw [← same, lower, kept, String.ofList_toList]

end HtmlToMarkdown.Text
