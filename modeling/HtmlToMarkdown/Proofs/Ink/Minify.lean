import HtmlToMarkdown.Html.Whitespace
import HtmlToMarkdown.Proofs.Ink.Markdown

namespace HtmlToMarkdown.Html

open Node (textOf)

theorem isWhite_of_isRemovable {c : Char} (removable : isRemovable c) : isWhite c := by
  have either : c = ' ' ∨ c = '\n' := by simpa [isRemovable] using removable
  rcases either with rfl | rfl <;> rfl

theorem all_isWhite_iff {value : String} : value.toList.all isWhite ↔ ink value = [] := by
  simp [ink, inkOf, List.filter_eq_nil_iff]

theorem inkOf_firstLineEnd {s lineEnd : List Char} (found : firstLineEnd s = some lineEnd) :
    inkOf lineEnd = [] := by
  fun_induction firstLineEnd s with
  | case1 => cases found
  | case2 => cases found; rfl
  | case3 => cases found; rfl
  | case4 => cases found; rfl
  | case5 => rename_i ih; exact ih found

theorem inkOf_collapsedRun (newlines : Bool) (run : List Char) :
    inkOf (collapsedRun newlines run) = [] := by
  unfold collapsedRun
  split
  · cases found : firstLineEnd run with
    | none => rfl
    | some lineEnd => exact inkOf_firstLineEnd found
  · rfl

theorem inkOf_collapseFrom (newlines : Bool) (run s : List Char) :
    inkOf (collapseFrom newlines run s) = inkOf s := by
  have before : ∀ run : List Char,
      inkOf (if run.isEmpty then [] else collapsedRun newlines run.reverse) = [] := by
    intro run
    split
    · rfl
    · exact inkOf_collapsedRun newlines _
  induction s generalizing run with
  | nil => exact before run
  | cons c s ih =>
      rw [collapseFrom]
      split
      next white => rw [ih, inkOf_cons_of_white white]
      next => rw [inkOf_append, before, List.nil_append, inkOf, inkOf, List.filter_cons,
          List.filter_cons, ← inkOf, ← inkOf, ih]

theorem inkOf_tail {s : List Char} (white : (s.head?.map isRemovable).getD false) :
    inkOf s.tail = inkOf s := by
  cases s with
  | nil => rfl
  | cons c s => exact (inkOf_cons_of_white (isWhite_of_isRemovable white)).symm

theorem inkOf_dropLast {s : List Char} (white : (s.getLast?.map isRemovable).getD false) :
    inkOf s.dropLast = inkOf s := by
  have same : s.dropLast = s.reverse.tail.reverse := by simp
  rw [same, inkOf_reverse, inkOf_tail (by simpa using white), inkOf_reverse, List.reverse_reverse]

theorem inkOf_trimText (cx : Surroundings) (s : List Char) :
    inkOf (trimText cx s).1 = inkOf s ∧ ((trimText cx s).2 = .removed → inkOf s = []) := by
  have start : ∀ s : List Char,
      inkOf (if cx.before && (s.head?.map isRemovable).getD false then s.tail else s) =
        inkOf s := by
    intro s
    split
    next holds => exact inkOf_tail (Bool.and_eq_true_iff.mp holds).2
    next => rfl
  have emptied : ∀ t : List Char, inkOf t = inkOf s →
      (if t.isEmpty then Outcome.removed else .kept false) = .removed → inkOf s = [] := by
    intro t same removed
    cases t with
    | nil => exact same.symm
    | cons c t => cases removed
  simp only [trimText]
  generalize trimmed : (if cx.before && (s.head?.map isRemovable).getD false then s.tail else s) = t
  have kept : inkOf t = inkOf s := trimmed ▸ start s
  split
  next removable =>
    split
    · have dropped := (inkOf_dropLast removable).trans kept
      exact ⟨dropped, emptied _ dropped⟩
    · exact ⟨kept, fun removed => nomatch removed⟩
  next => exact ⟨kept, emptied _ kept⟩

theorem ink_minifyText (cx : Surroundings) (value : String) :
    ink (minifyText cx value).1 = ink value ∧
      ((minifyText cx value).2 = .removed → ink value = []) := by
  have collapsed : inkOf (collapse cx.newlines value.toList) = ink value :=
    inkOf_collapseFrom _ _ _
  unfold minifyText
  split
  · exact ⟨rfl, fun removed => nomatch removed⟩
  · exact ⟨(ink_ofList _).trans collapsed, fun removed => nomatch removed⟩
  · obtain ⟨trimmed, removed⟩ := inkOf_trimText cx (collapse cx.newlines value.toList)
    refine ⟨?_, fun gone => (removed gone) ▸ collapsed.symm⟩
    dsimp only
    split
    · rfl
    · calc
        _ = inkOf (trimText cx (collapse cx.newlines value.toList)).1 := ink_ofList _
        _ = inkOf (collapse cx.newlines value.toList) := trimmed
        _ = ink value := collapsed

@[simp] theorem ink_textOf_cons (n : Node) (ns : List Node) :
    ink (textOf (n :: ns)) = ink n.toText ++ ink (textOf ns) := by
  rw [textOf, ink_append]

theorem exists_of_isEmptyText {n : Node} (empty : isEmptyText n) :
    ∃ position, n = .text "" position := by
  cases n with
  | text value position =>
      obtain rfl : value = "" := eq_of_beq empty
      exact ⟨position, rfl⟩
  | _ => cases empty

theorem textOf_filter (ns : List Node) : textOf (ns.filter (!isEmptyText ·)) = textOf ns := by
  induction ns with
  | nil => rfl
  | cons n ns ih =>
      by_cases empty : isEmptyText n
      · rw [List.filter_cons_of_neg (by simpa using empty), ih]
        obtain ⟨position, rfl⟩ := exists_of_isEmptyText empty
        exact String.empty_append.symm
      · rw [List.filter_cons_of_pos (by simpa using empty), textOf, ih, textOf]

mutual

theorem ink_minifyNode (cx : Surroundings) (n : Node) :
    ink (minifyNode cx n).1.toText = ink n.toText ∧
      ((minifyNode cx n).2 = .removed → ink n.toText = []) := by
  match n with
  | .root children position =>
      refine ⟨?_, fun removed => nomatch removed⟩
      simp only [minifyNode, Node.toText]
      rw [textOf_filter, ink_minifyAll]
  | .element tag properties children position =>
      refine ⟨?_, fun removed => nomatch removed⟩
      simp only [minifyNode, Node.toText]
      split
      · rfl
      · split
        · rfl
        · rw [textOf_filter, ink_minifyAll]
  | .text value position => exact ink_minifyText cx value
  | .comment value position => exact ⟨rfl, fun _ => rfl⟩
  | .doctype position => exact ⟨rfl, fun _ => rfl⟩

theorem ink_minifyAll (cx : Surroundings) (before : Bool) (ns : List Node) :
    ink (textOf (minifyAll cx before ns).1) = ink (textOf ns) := by
  match ns with
  | [] => rfl
  | n :: ns =>
      obtain ⟨same, removed⟩ :=
        ink_minifyNode { cx with before := before, after := (boundary ns).getD cx.after } n
      simp only [minifyAll]
      rw [ink_textOf_cons]
      split
      next gone => rw [ink_minifyAll, removed gone, List.nil_append]
      next => rw [ink_textOf_cons, same, ink_minifyAll]

end

theorem ink_minify (newlines : Bool) (n : Node) : ink (n.minify newlines).toText = ink n.toText :=
  (ink_minifyNode _ n).1

end HtmlToMarkdown.Html
