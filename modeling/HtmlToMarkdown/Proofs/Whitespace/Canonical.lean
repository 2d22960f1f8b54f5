import HtmlToMarkdown.Proofs.Whitespace.Settle
import HtmlToMarkdown.Proofs.Whitespace.Thinning

/-!
The white space that a browser would show. Minification leaves one space wherever white space stands
between two characters of a line, and none at the start or the end of a line, however the white
space was spread over texts and inline elements.
-/

namespace HtmlToMarkdown.Html

namespace Mark

def isSpace : Mark → Bool
  | char c => isWhite c
  | _ => false

/-- Marks that a minified tree still has: all but white characters and empty texts. -/
def isSolid : Mark → Bool
  | char c => !isWhite c
  | fixed _ empty => !empty
  | _ => true

/-- What may stand between characters of a line without being seen: white space, comments and the
tags of elements that are no blocks and show nothing by themselves. -/
def isPassable : Mark → Bool
  | char c => isWhite c
  | opening tag => !isBlockTag tag && !contentTags.contains tag
  | closing tag => !isBlockTag tag && !contentTags.contains tag
  | remark => true
  | _ => false

/-- The start or the end of a line. -/
def isEdge : Mark → Bool
  | opening tag => isBlockTag tag && !contentTags.contains tag
  | closing tag => isBlockTag tag && !contentTags.contains tag
  | lineBreak => true
  | bound => true
  | _ => false

end Mark

/-- In the result, `middle` stands where the source has what is between `front` and `back`. -/
def Replaced (front back result middle : List Mark) : Prop :=
  ∃ before after, result = before ++ middle ++ after ∧
    before.filter Mark.isSolid = front.filter Mark.isSolid ∧
    after.filter Mark.isSolid = back.filter Mark.isSolid

/-- The white space between two characters of a line has become one space, and that between a
character and the edge of its line is gone. -/
structure Canonical (source result : List Mark) : Prop where
  between {front gap back : List Mark} {c d : Char} (left : ¬ isWhite c) (right : ¬ isWhite d)
    (passable : ∀ m ∈ gap, m.isPassable)
    (split : source = front ++ (.char c :: gap ++ [.char d]) ++ back) :
    ∃ kept, Replaced front back result (.char c :: kept ++ [.char d]) ∧
      kept.filter (!·.isSpace) = gap.filter (!·.isSpace) ∧
      kept.filter Mark.isSpace = if gap.any Mark.isSpace then [.char ' '] else []
  afterEdge {front gap back : List Mark} {edge : Mark} {c : Char} (isEdge : edge.isEdge)
    (right : ¬ isWhite c) (passable : ∀ m ∈ gap, m.isPassable)
    (split : source = front ++ (edge :: gap ++ [.char c]) ++ back) :
    Replaced front back result (edge :: gap.filter (!·.isSpace) ++ [.char c])
  beforeEdge {front gap back : List Mark} {edge : Mark} {c : Char} (left : ¬ isWhite c)
    (isEdge : edge.isEdge) (passable : ∀ m ∈ gap, m.isPassable)
    (split : source = front ++ (.char c :: gap ++ [edge]) ++ back) :
    Replaced front back result (.char c :: gap.filter (!·.isSpace) ++ [edge])

section Settling

variable (after before : Bool)

theorem filter_isSolid_settle (ms : List Mark) :
    (settle after before ms).1.filter Mark.isSolid = ms.filter Mark.isSolid := by
  induction ms generalizing before with
  | nil => rfl
  | cons m ms ih =>
      rw [settle, List.filter_append, ih, ← List.singleton_append (l := ms), List.filter_append]
      congr 1
      cases m with
      | char c =>
          by_cases white : isWhite c
          · cases before <;> cases (ahead ms).getD after <;>
              simp [Mark.settle, white, Mark.isSolid, show isWhite ' ' from rfl]
          · simp [Mark.settle, white]
      | fixed ink empty => cases empty <;> rfl
      | _ => rfl

theorem Mark.settle_of_isSpace {m : Mark} (space : m.isSpace) :
    m.settle before after = if before || after then ([], before) else ([.char ' '], true) := by
  cases m with
  | char c => exact if_pos space
  | _ => cases space

theorem not_isBlockTag_of_passable {tag : String}
    (passable : !isBlockTag tag && !contentTags.contains tag) :
    isBlockTag tag = false ∧ contentTags.contains tag = false := by
  obtain ⟨inline, plain⟩ := Bool.and_eq_true_iff.mp passable
  exact ⟨by simpa using inline, by simpa using plain⟩

/-- What else is not seen stays, and white space after it may go no sooner than before it. -/
theorem Mark.settle_of_isPassable {m : Mark} (passable : m.isPassable) (visible : ¬ m.isSpace) :
    m.settle before after = ([m], before) ∨ m.settle before after = ([m], before || after) := by
  cases m with
  | char c => exact absurd passable visible
  | opening tag =>
      obtain ⟨inline, -⟩ := not_isBlockTag_of_passable passable
      exact .inl (by rw [settle, inline, Bool.or_false])
  | closing tag =>
      obtain ⟨inline, plain⟩ := not_isBlockTag_of_passable passable
      exact .inr (by rw [settle, inline, plain, Bool.false_or, Bool.not_false, Bool.true_and])
  | remark => exact .inl rfl
  | _ => cases passable

theorem Mark.announces_of_isPassable {m : Mark} (passable : m.isPassable) : m.announces = none := by
  cases m with
  | char c => exact if_pos passable
  | opening tag =>
      obtain ⟨inline, plain⟩ := not_isBlockTag_of_passable passable
      rw [announces, inline, plain]
      rfl
  | closing tag =>
      rw [announces, (not_isBlockTag_of_passable passable).1]
      rfl
  | remark => rfl
  | _ => cases passable

variable {gap : List Mark}

theorem ahead_gap (passable : ∀ m ∈ gap, m.isPassable) : ahead gap = none := by
  rw [ahead, List.findSome?_eq_none_iff]
  intro m member
  exact Mark.announces_of_isPassable (passable m member)

theorem settle_gap_after (passable : ∀ m ∈ gap, m.isPassable) :
    settle after true gap = (gap.filter (!·.isSpace), true) := by
  induction gap with
  | nil => rfl
  | cons m gap ih =>
      obtain ⟨here, rest⟩ := List.forall_mem_cons.mp passable
      by_cases space : m.isSpace
      · simp [settle, Mark.settle_of_isSpace _ _ space, ih rest, space]
      · have stays : m.settle true ((ahead gap).getD after) = ([m], true) := by
          simpa using Mark.settle_of_isPassable ((ahead gap).getD after) true here space
        simp [settle, stays, ih rest, space]

theorem settle_gap_before (passable : ∀ m ∈ gap, m.isPassable) :
    (settle true before gap).1 = gap.filter (!·.isSpace) := by
  induction gap generalizing before with
  | nil => rfl
  | cons m gap ih =>
      obtain ⟨here, rest⟩ := List.forall_mem_cons.mp passable
      have next : (ahead gap).getD true = true := by simp [ahead_gap rest]
      by_cases space : m.isSpace
      · simp [settle, next, Mark.settle_of_isSpace _ _ space, ih _ rest, space]
      · have stays : (m.settle before true).1 = [m] := by
          rcases Mark.settle_of_isPassable true before here space with same | same <;> rw [same]
        simp [settle, next, stays, ih _ rest, space]

theorem settle_gap_between (passable : ∀ m ∈ gap, m.isPassable) :
    (settle false false gap).1.filter (!·.isSpace) = gap.filter (!·.isSpace) ∧
      (settle false false gap).1.filter Mark.isSpace =
        if gap.any Mark.isSpace then [.char ' '] else [] := by
  induction gap with
  | nil => exact ⟨rfl, rfl⟩
  | cons m gap ih =>
      obtain ⟨here, rest⟩ := List.forall_mem_cons.mp passable
      have next : (ahead gap).getD false = false := by simp [ahead_gap rest]
      by_cases space : m.isSpace
      · have blank : (Mark.char ' ').isSpace = true := rfl
        simp [settle, next, Mark.settle_of_isSpace _ _ space, settle_gap_after false rest, space,
          blank]
      · have stays : m.settle false false = ([m], false) := by
          simpa using Mark.settle_of_isPassable false false here space
        simp [settle, next, stays, ih rest, space]

theorem Mark.settle_of_isEdge {edge : Mark} (isEdge : edge.isEdge) :
    edge.settle before after = ([edge], true) ∧ edge.announces = some true := by
  cases edge with
  | opening tag =>
      have block : isBlockTag tag = true := (Bool.and_eq_true_iff.mp isEdge).1
      simp [settle, announces, block]
  | closing tag =>
      obtain ⟨block, plain⟩ := Bool.and_eq_true_iff.mp isEdge
      simp only [settle, announces, block, plain]
      simp
  | lineBreak => exact ⟨rfl, rfl⟩
  | bound => exact ⟨rfl, rfl⟩
  | _ => cases isEdge

end Settling

/-- Settling part of a reading gives the part that stands there in the result. -/
theorem replaced_settle (after before : Bool) (front inner back : List Mark) :
    ∃ next first, Replaced front back (settle after before (front ++ inner ++ back)).1
      (settle next first inner).1 := by
  simp only [List.append_assoc, settle_append]
  refine ⟨_, _, _, _, (List.append_assoc _ _ _).symm, ?_, ?_⟩
  · exact filter_isSolid_settle _ _ front
  · exact filter_isSolid_settle _ _ back

theorem Mark.settle_of_ink {c : Char} (ink : ¬ isWhite c) (before after : Bool) :
    (char c).settle before after = ([char c], false) ∧ (char c).announces = some false := by
  simp [settle, announces, ink]

/-- What settles between two marks, of which the second decides about the white space before it. -/
theorem settle_enclosed {first last : Mark} {strips ends : Bool} (gap : List Mark)
    (opens : ∀ before after, first.settle before after = ([first], strips))
    (closes : ∀ before after, (last.settle before after).1 = [last])
    (decides : last.announces = some ends) (after before : Bool) :
    (settle after before (first :: gap ++ [last])).1 =
      first :: (settle ends strips gap).1 ++ [last] := by
  simp [settle, settle_append, opens, closes, decides]

theorem canonical_settle (after before : Bool) (source : List Mark) :
    Canonical source (settle after before source).1 where
  between := by
    rintro front gap back c d left right passable rfl
    -- Both characters stay, and the second one decides about the white space before it.
    obtain ⟨next, first, replaced⟩ :=
      replaced_settle after before front (.char c :: gap ++ [.char d]) back
    rw [settle_enclosed gap (fun _ _ => (Mark.settle_of_ink left _ _).1)
      (fun _ _ => congrArg Prod.fst (Mark.settle_of_ink right _ _).1)
      (Mark.settle_of_ink right false false).2] at replaced
    exact ⟨_, replaced, settle_gap_between passable⟩
  afterEdge := by
    rintro front gap back edge c isEdge right passable rfl
    obtain ⟨next, first, replaced⟩ :=
      replaced_settle after before front (edge :: gap ++ [.char c]) back
    rw [settle_enclosed gap (fun _ _ => (Mark.settle_of_isEdge _ _ isEdge).1)
      (fun _ _ => congrArg Prod.fst (Mark.settle_of_ink right _ _).1)
      (Mark.settle_of_ink right false false).2, settle_gap_after false passable] at replaced
    exact replaced
  beforeEdge := by
    rintro front gap back edge c left isEdge passable rfl
    obtain ⟨next, first, replaced⟩ :=
      replaced_settle after before front (.char c :: gap ++ [edge]) back
    rw [settle_enclosed gap (fun _ _ => (Mark.settle_of_ink left _ _).1)
      (fun _ _ => congrArg Prod.fst (Mark.settle_of_isEdge _ _ isEdge).1)
      (Mark.settle_of_isEdge false false isEdge).2, settle_gap_before false passable] at replaced
    exact replaced

/-- Minification changes texts only, and leaves the white space that a browser would show. -/
theorem canonical_minify {n : Node} (rooted : ∀ m ∈ n.children, m.Throughout (¬ ·.IsRoot))
    (shown : n.Throughout Node.Shown) :
    (n.minify false).withoutTexts = n.withoutTexts ∧ Thinned n (n.minify false) ∧
      Canonical (n.marks .normal) ((n.minify false).marks .normal) := by
  have thinned := thinned_minify false n
  refine ⟨thinned.withoutTexts, thinned, ?_⟩
  rw [marks_minify rooted shown]
  exact canonical_settle false false (n.marks .normal)

def spacedPage : Node :=
  let element (tag : String) (children : List Node) : Node :=
    .element tag OrderedMap.empty children none
  .root [
    element "p" [
      .text " a " none, element "em" [.text "\n" none, .text "b" none], .comment "x" none,
      .text "\t" none],
    .text "  " none,
    element "pre" [.text " c" none]] none

theorem canonical_minify_spacedPage :
    (∀ m ∈ spacedPage.children, m.Throughout (¬ ·.IsRoot)) ∧
      spacedPage.Throughout Node.Shown ∧
      Canonical (spacedPage.marks .normal) [
        .bound, .opening "p", .char 'a', .char ' ', .opening "em", .char 'b', .closing "em",
        .remark, .closing "p", .opening "pre", .fixed ['c'] false, .closing "pre", .bound] := by
  have rooted : ∀ m ∈ spacedPage.children, m.Throughout (¬ ·.IsRoot) := by
    simp [spacedPage, Node.children, Node.children?, Node.Throughout, ThroughoutAll, Node.IsRoot]
  have shown : spacedPage.Throughout Node.Shown := by
    have visible : ∀ tag children, ¬ (Element.mk tag OrderedMap.empty children none).hasFlag
        "hidden" := fun _ _ => Bool.false_ne_true
    simp [spacedPage, Node.Throughout, ThroughoutAll, Node.Shown, visible]
  have reading : (spacedPage.minify false).marks .normal = [
      .bound, .opening "p", .char 'a', .char ' ', .opening "em", .char 'b', .closing "em",
      .remark, .closing "p", .opening "pre", .fixed ['c'] false, .closing "pre", .bound] := by
    decide +kernel
  exact ⟨rooted, shown, reading ▸ (canonical_minify rooted shown).2.2⟩

end HtmlToMarkdown.Html
