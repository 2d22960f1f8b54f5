import HtmlToMarkdown.Markdown.Normalize
import Mathlib.Data.List.Chain
import Mathlib.Data.List.DropRight

namespace HtmlToMarkdown.Markdown

open Text (isLineEnd isTabOrSpace)

def touches (edge : Bool) (s : List Char) : Bool :=
  match s.dropWhile isTabOrSpace with
  | [] => edge
  | c :: _ => isLineEnd c

/-- Drops each tab and space whose run touches a line ending or an edge. `before` are the
characters before the rest, the latest first. -/
def prune (first last : Bool) (before : List Char) : List Char → List Char
  | [] => []
  | c :: s =>
    if isTabOrSpace c && (touches first before || touches last s) then
      prune first last (c :: before) s
    else c :: prune first last (c :: before) s

def Beside (a b : Char) : Prop :=
  ¬ (isTabOrSpace a ∧ isLineEnd b) ∧ ¬ (isLineEnd a ∧ isTabOrSpace b)

/-- A text in normal form; `first` and `last` say which of its ends are edges. -/
structure Tidied (first last : Bool) (value : String) : Prop where
  filled : value ≠ ""
  lines : value.toList.IsChain Beside
  front : first → ∀ c ∈ value.toList.head?, ¬ isTabOrSpace c
  back : last → ∀ c ∈ value.toList.getLast?, ¬ isTabOrSpace c

theorem not_isLineEnd {c : Char} (blank : isTabOrSpace c) : ¬ isLineEnd c := by
  simp only [isTabOrSpace, Bool.or_eq_true, beq_iff_eq] at blank
  rcases blank with rfl | rfl <;> decide

section Touches

variable {c : Char} {s : List Char} {edge : Bool}

theorem touches_cons_of_blank (blank : isTabOrSpace c) :
    touches edge (c :: s) = touches edge s := by
  rw [touches, List.dropWhile_cons_of_pos blank, touches]

theorem touches_cons_of_other (other : ¬ isTabOrSpace c) :
    touches edge (c :: s) = isLineEnd c := by
  rw [touches, List.dropWhile_cons_of_neg other]

theorem touches_of_blanks (blanks : ∀ c ∈ s, isTabOrSpace c) : touches edge s = edge := by
  rw [touches, List.dropWhile_eq_nil_iff.mpr blanks]

/-- Where other characters follow it makes no difference what the end is. -/
theorem touches_of_other (filled : ∃ c ∈ s, ¬ isTabOrSpace c) (edge other : Bool) :
    touches edge s = touches other s := by
  rw [touches, touches]
  split
  next none =>
    rcases filled with ⟨c, member, notBlank⟩
    exact absurd (List.dropWhile_eq_nil_iff.mp none c member) notBlank
  next => rfl

end Touches

section Prune

variable {first last : Bool} {before s : List Char} {c : Char}

theorem prune_cons_of_other (other : ¬ isTabOrSpace c) :
    prune first last before (c :: s) = c :: prune first last (c :: before) s := by
  rw [prune, Bool.eq_false_iff.mpr other, Bool.false_and]
  rfl

theorem prune_sublist (first last : Bool) (before s : List Char) :
    (prune first last before s).Sublist s := by
  fun_induction prune first last before s with
  | case1 => exact .slnil
  | case2 before c s dropped ih => exact .cons c ih
  | case3 before c s kept ih => exact .cons_cons c ih

theorem mem_prune (member : c ∈ s) (other : ¬ isTabOrSpace c) : c ∈ prune first last before s := by
  fun_induction prune first last before s with
  | case1 => exact member
  | case2 before d s dropped ih =>
      rcases List.mem_cons.mp member with rfl | later
      · exact absurd (Bool.and_eq_true_iff.mp dropped).1 other
      · exact ih later
  | case3 before d s kept ih =>
      rcases List.mem_cons.mp member with rfl | later
      · exact List.mem_cons_self
      · exact List.mem_cons_of_mem d (ih later)

/-- Line endings are joined to their neighbours by dropping the runs that touch one. The `held`
characters are given back unless their run goes on to the next line ending. -/
theorem joinLinesFrom_eq (held before s : List Char) :
    (touches false before → joinLinesFrom true [] s = prune false false before s) ∧
    (¬ touches false before → joinLinesFrom false held s =
      (if touches false s then [] else held.reverse) ++ prune false false before s) := by
  induction s generalizing held before with
  | nil => simp [joinLinesFrom, prune, touches]
  | cons c s ih =>
      by_cases blank : isTabOrSpace c
      · have same : touches false (c :: before) = touches false before :=
          touches_cons_of_blank blank
        constructor
        · intro after
          have rest := (ih [] (c :: before)).1 (same ▸ after)
          rw [joinLinesFrom, if_pos blank, if_pos rfl, rest, prune, blank, after]
          rfl
        · intro apart
          have rest := (ih (c :: held) (c :: before)).2 (same ▸ apart)
          rw [joinLinesFrom, if_pos blank, if_neg Bool.false_ne_true, rest,
            touches_cons_of_blank blank, prune, blank, Bool.eq_false_iff.mpr apart, Bool.false_or,
            Bool.true_and]
          split
          · rfl
          · rw [List.reverse_cons, List.append_assoc, List.singleton_append]
      · have own : touches false (c :: before) = isLineEnd c := touches_cons_of_other blank
        rw [prune_cons_of_other blank, touches_cons_of_other blank]
        simp only [joinLinesFrom, if_neg blank]
        by_cases lineEnd : isLineEnd c
        · have rest := (ih [] (c :: before)).1 (own ▸ lineEnd)
          simp [if_pos lineEnd, rest]
        · have rest := (ih [] (c :: before)).2 (own ▸ lineEnd)
          simp only [if_neg lineEnd, rest]
          simp

theorem joinLines_eq (s : List Char) : joinLines s = prune false false [] s := by
  have joined := (joinLinesFrom_eq [] [] s).2 Bool.false_ne_true
  rw [joinLines, joined]
  split <;> rfl

theorem prune_first (blanks : ∀ c ∈ before, isTabOrSpace c) :
    prune true last before s = (prune false last before s).dropWhile isTabOrSpace := by
  have elsewhere : ∀ before s, touches true before = touches false before →
      prune true last before s = prune false last before s := by
    intro before s same
    induction s generalizing before with
    | nil => rfl
    | cons c s ih =>
        have next : touches true (c :: before) = touches false (c :: before) := by
          by_cases blank : isTabOrSpace c
          · rw [touches_cons_of_blank blank, touches_cons_of_blank blank, same]
          · rw [touches_cons_of_other blank, touches_cons_of_other blank]
        rw [prune, prune, same, ih _ next]
  induction s generalizing before with
  | nil => rfl
  | cons c s ih =>
      by_cases blank : isTabOrSpace c
      · have rest := ih (List.forall_mem_cons.mpr ⟨blank, blanks⟩)
        rw [prune, prune, blank, touches_of_blanks blanks, Bool.true_or, Bool.and_true, if_pos rfl,
          rest]
        split
        · rfl
        · rw [List.dropWhile_cons_of_pos blank]
      · have same : touches true (c :: before) = touches false (c :: before) := by
          rw [touches_cons_of_other blank, touches_cons_of_other blank]
        rw [prune_cons_of_other blank, prune_cons_of_other blank, List.dropWhile_cons_of_neg blank,
          elsewhere _ s same]

theorem rdropWhile_cons {p : Char → Bool} {r : List Char} (some : ∃ d ∈ c :: r, ¬ p d) :
    (c :: r).rdropWhile p = c :: r.rdropWhile p := by
  simp only [List.rdropWhile, List.reverse_cons, List.dropWhile_append]
  split
  next none =>
    have blanks := List.dropWhile_eq_nil_iff.mp (List.isEmpty_iff.mp none)
    have here : ¬ p c := by
      rcases some with ⟨d, member, holds⟩
      rcases List.mem_cons.mp member with rfl | later
      · exact holds
      · exact absurd (blanks d (List.mem_reverse.mpr later)) holds
    rw [List.dropWhile_cons_of_neg here, List.isEmpty_iff.mp none]
    rfl
  next => rw [List.reverse_append, List.reverse_singleton, List.singleton_append]

theorem prune_last :
    prune first true before s = (prune first false before s).rdropWhile isTabOrSpace := by
  induction s generalizing before with
  | nil => rfl
  | cons c s ih =>
      by_cases blank : isTabOrSpace c
      · by_cases blanks : ∀ d ∈ s, isTabOrSpace d
        · have whole : ∀ d ∈ c :: s, isTabOrSpace d := List.forall_mem_cons.mpr ⟨blank, blanks⟩
          have all : ∀ d ∈ prune first false before (c :: s), isTabOrSpace d := fun d member =>
            whole d ((prune_sublist _ _ _ _).subset member)
          have none : ∀ d ∈ prune first false (c :: before) s, isTabOrSpace d := fun d member =>
            blanks d ((prune_sublist _ _ _ _).subset member)
          rw [List.rdropWhile_eq_nil_iff.mpr all, prune, blank, touches_of_blanks blanks,
            Bool.or_true, Bool.and_true, if_pos rfl, ih, List.rdropWhile_eq_nil_iff.mpr none]
        · push Not at blanks
          have some : ∃ d ∈ s, ¬ isTabOrSpace d := by simpa using blanks
          rw [prune, prune, touches_of_other some true false]
          split
          · exact ih
          · rcases some with ⟨d, member, other⟩
            have kept := @mem_prune first false (c :: before) _ _ member other
            rw [rdropWhile_cons ⟨d, List.mem_cons_of_mem c kept, other⟩, ih]
      · rw [prune_cons_of_other blank, prune_cons_of_other blank,
          rdropWhile_cons ⟨c, List.mem_cons_self, blank⟩, ih]

theorem tidy_eq (first last : Bool) (value : String) :
    tidy first last value = String.ofList (prune first last [] value.toList) := by
  have none : ∀ c ∈ ([] : List Char), isTabOrSpace c := fun c member => nomatch member
  unfold tidy
  rw [joinLines_eq]
  cases first <;> cases last
  · rfl
  · rw [prune_last]
    rfl
  · rw [prune_first none]
    rfl
  · rw [prune_last, prune_first none]
    rfl

example : tidy true false " \t a \r\n\t b " = "a\r\nb " := by decide

end Prune

section Tidied

variable {first last : Bool} {s held : List Char}

theorem beside_of_blank {c d : Char} (blank : isTabOrSpace c) (same : ¬ isLineEnd d) :
    Beside c d :=
  ⟨fun both => same both.2, fun both => not_isLineEnd blank both.1⟩

theorem beside_of_lineEnd {c d : Char} (lineEnd : isLineEnd c) (other : ¬ isTabOrSpace d) :
    Beside c d :=
  ⟨fun both => not_isLineEnd both.1 lineEnd, fun both => other both.2⟩

theorem beside_of_other {c : Char} (notBlank : ¬ isTabOrSpace c) (notLine : ¬ isLineEnd c)
    (d : Char) : Beside c d ∧ Beside d c :=
  ⟨⟨fun both => notBlank both.1, fun both => notLine both.1⟩,
    ⟨fun both => notLine both.2, fun both => notBlank both.2⟩⟩

/-- Nothing is to be dropped after a line ending any more. -/
theorem head_joinLinesFrom (s : List Char) :
    ∀ c ∈ (joinLinesFrom true [] s).head?, ¬ isTabOrSpace c := by
  induction s with
  | nil => exact fun c member => nomatch member
  | cons c s ih =>
      rw [joinLinesFrom]
      split
      next => exact ih
      next notBlank =>
        have here : ∀ d ∈ some c, ¬ isTabOrSpace d := by
          intro d same
          rw [← Option.some.inj same]
          exact notBlank
        split <;> exact here

theorem isChain_blanks (blanks : ∀ c ∈ s, isTabOrSpace c) : s.IsChain Beside := by
  apply List.Pairwise.isChain
  apply List.pairwise_of_forall_mem_list
  intro c inside d member
  exact beside_of_blank (blanks c inside) (not_isLineEnd (blanks d member))

theorem isChain_joinLinesFrom {afterLine : Bool} (blanks : ∀ c ∈ held, isTabOrSpace c) :
    (joinLinesFrom afterLine held s).IsChain Beside := by
  have reversed : ∀ c ∈ held.reverse, isTabOrSpace c := fun c member =>
    blanks c (List.mem_reverse.mp member)
  have none : ∀ c ∈ ([] : List Char), isTabOrSpace c := fun c member => nomatch member
  fun_induction joinLinesFrom afterLine held s with
  | case1 held => exact isChain_blanks reversed
  | case2 held c s blank ih => exact ih none (by simp)
  | case3 afterLine held c s blank =>
      rename_i ih
      have more : ∀ d ∈ c :: held, isTabOrSpace d := List.forall_mem_cons.mpr ⟨blank, blanks⟩
      exact ih more fun d member => more d (List.mem_reverse.mp member)
  | case4 afterLine held c s blank lineEnd ih =>
      rw [List.isChain_cons]
      constructor
      · intro d member
        exact beside_of_lineEnd lineEnd (head_joinLinesFrom s d member)
      · exact ih none (by simp)
  | case5 afterLine held c s notBlank notLine ih =>
      rw [List.isChain_append]
      refine ⟨isChain_blanks reversed, ?_, ?_⟩
      · rw [List.isChain_cons]
        exact ⟨fun d _ => (beside_of_other notBlank notLine d).1, ih none (by simp)⟩
      · intro d _ e same
        rw [← Option.some.inj same]
        exact (beside_of_other notBlank notLine d).2

theorem joinLinesFrom_of_isChain (blanks : ∀ c ∈ held, isTabOrSpace c)
    (chain : (held.reverse ++ s).IsChain Beside) :
    joinLinesFrom false held s = held.reverse ++ s ∧
      ((∀ c ∈ s.head?, ¬ isTabOrSpace c) → joinLinesFrom true [] s = s) := by
  have none : ∀ c ∈ ([] : List Char), isTabOrSpace c := fun c member => nomatch member
  induction s generalizing held with
  | nil => simp [joinLinesFrom]
  | cons c s ih =>
      have after : (c :: s).IsChain Beside := (List.isChain_append.mp chain).2.1
      have rest := @ih [] none (List.isChain_cons.mp after).2
      by_cases blank : isTabOrSpace c
      · have more : ∀ d ∈ c :: held, isTabOrSpace d := List.forall_mem_cons.mpr ⟨blank, blanks⟩
        have same : (c :: held).reverse ++ s = held.reverse ++ c :: s := by simp
        constructor
        · rw [joinLinesFrom, if_pos blank, if_neg Bool.false_ne_true, (ih more (same ▸ chain)).1,
            same]
        · exact fun other => absurd blank (other c rfl)
      · by_cases lineEnd : isLineEnd c
        · have bare : held = [] := by
            cases held with
            | nil => rfl
            | cons d held =>
                have beside := (List.isChain_append.mp chain).2.2 d (by simp) c rfl
                exact absurd ⟨blanks d List.mem_cons_self, lineEnd⟩ beside.1
          have next : ∀ d ∈ s.head?, ¬ isTabOrSpace d := fun d member both =>
            ((List.isChain_cons.mp after).1 d member).2 ⟨lineEnd, both⟩
          simp [joinLinesFrom, blank, lineEnd, bare, rest.2 next]
        · have same := rest.1
          rw [List.reverse_nil, List.nil_append] at same
          simp [joinLinesFrom, blank, lineEnd, same]

theorem head_dropWhile_blank (s : List Char) :
    ∀ c ∈ (s.dropWhile isTabOrSpace).head?, ¬ isTabOrSpace c := by
  intro c member blank
  have other := List.head?_dropWhile_not isTabOrSpace s
  rw [Option.mem_def.mp member] at other
  exact absurd blank (by simpa using other)

theorem getLast_rdropWhile_blank (s : List Char) :
    ∀ c ∈ (s.rdropWhile isTabOrSpace).getLast?, ¬ isTabOrSpace c := by
  intro c member
  rcases List.getLast?_eq_some_iff.mp member with ⟨front, same⟩
  have some : s.rdropWhile isTabOrSpace ≠ [] := by simp [same]
  have last := List.rdropWhile_last_not isTabOrSpace s some
  simp only [same, List.getLast_append_singleton] at last
  exact last

theorem tidied_tidy {value : String} (filled : tidy first last value ≠ "") :
    Tidied first last (tidy first last value) := by
  let joined := joinLines value.toList
  let front := if first then joined.dropWhile isTabOrSpace else joined
  let whole := if last then front.rdropWhile isTabOrSpace else front
  have same : tidy first last value = String.ofList whole := rfl
  have cut : front <:+ joined := by
    unfold front
    split
    · exact List.dropWhile_suffix _
    · exact List.suffix_rfl
  have trimmed : whole <+: front := by
    unfold whole
    split
    · exact List.rdropWhile_prefix _ _
    · exact List.prefix_rfl
  have some : whole ≠ [] := by
    rintro none
    exact filled (by rw [same, none])
  rw [same]
  refine ⟨same ▸ filled, ?_, ?_, ?_⟩
  · rw [String.toList_ofList]
    -- Trimming takes away at the ends only: what stands side by side did so in the joined lines.
    have chain : joined.IsChain Beside := isChain_joinLinesFrom fun c member => nomatch member
    rcases trimmed with ⟨rest, split⟩
    have part := chain.suffix cut
    rw [← split] at part
    exact (List.isChain_append.mp part).1
  · intro isFirst c member
    have dropped : front = joined.dropWhile isTabOrSpace := if_pos isFirst
    rw [String.toList_ofList, Option.mem_def] at member
    have head : c ∈ front.head? := by
      rcases trimmed with ⟨rest, split⟩
      rw [← split, Option.mem_def, List.head?_append, member]
      rfl
    rw [dropped] at head
    exact head_dropWhile_blank joined c head
  · intro isLast c member
    have dropped : whole = front.rdropWhile isTabOrSpace := if_pos isLast
    rw [String.toList_ofList, dropped] at member
    exact getLast_rdropWhile_blank front c member

theorem tidy_of_tidied {value : String} (tidied : Tidied first last value) :
    tidy first last value = value := by
  have joined : joinLines value.toList = value.toList :=
    (@joinLinesFrom_of_isChain _ [] (fun c member => nomatch member) tidied.lines).1
  have front : first → value.toList.dropWhile isTabOrSpace = value.toList := by
    intro isFirst
    rw [List.dropWhile_eq_self_iff]
    intro some
    exact tidied.front isFirst _ (List.head?_eq_getElem? ▸ List.getElem?_eq_getElem some)
  have back : last → Text.dropRightWhile isTabOrSpace value.toList = value.toList := by
    intro isLast
    apply List.rdropWhile_eq_self_iff.mpr
    intro some
    exact tidied.back isLast _ (List.getLast?_eq_some_getLast some)
  have kept : (if first then value.toList.dropWhile isTabOrSpace else value.toList) =
      value.toList := by
    split
    next isFirst => exact front isFirst
    next => rfl
  simp only [tidy, joined, kept]
  split
  next isLast => rw [back isLast, String.ofList_toList]
  next => rw [String.ofList_toList]

end Tidied

end HtmlToMarkdown.Markdown
