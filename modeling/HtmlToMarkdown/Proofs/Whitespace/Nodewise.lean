import HtmlToMarkdown.Proofs.Whitespace.Collapsed
import HtmlToMarkdown.Proofs.Whitespace.Thinning

namespace HtmlToMarkdown.Html

section LookAhead

theorem nodeBoundary_text (value : String) (position : Option Position) :
    nodeBoundary (.text value position) = if ink value = [] then none else some false := by
  simp only [nodeBoundary, ownBoundary, all_isWhite_iff]
  exact Option.or_none

mutual

/-- Looking ahead sees the same in a thinned tree. -/
theorem nodeBoundary_of_thinned {n m : Node} (thinned : Thinned n m) :
    nodeBoundary m = nodeBoundary n := by
  match thinned with
  | .root inside =>
      simp only [nodeBoundary, boundary_of_thinned inside]
      rfl
  | .element inside =>
      simp only [nodeBoundary, boundary_of_thinned inside]
      rfl
  | .text same => rw [nodeBoundary_text, nodeBoundary_text, same]
  | .comment => rfl
  | .doctype => rfl

theorem boundary_of_thinned {ns ms : List Node} (thinned : ThinnedAll ns ms) :
    boundary ms = boundary ns := by
  match thinned with
  | .nil => rfl
  | .kept here rest =>
      rw [boundary, boundary, nodeBoundary_of_thinned here, boundary_of_thinned rest]
  | .removed white rest =>
      rw [boundary_of_thinned rest, boundary, nodeBoundary_text, if_pos (all_isWhite_iff.mp white)]
      rfl

end

@[simp] theorem boundary_append (ns ms : List Node) :
    boundary (ns ++ ms) = (boundary ns).or (boundary ms) := by
  induction ns with
  | nil => rfl
  | cons n ns ih => rw [List.cons_append, boundary, boundary, ih, Option.or_assoc]

theorem minifyAll_before (cx : Surroundings) (before other : Bool) (ns : List Node) :
    minifyAll { cx with before := other } before ns = minifyAll cx before ns := by
  induction ns generalizing before with
  | nil => rfl
  | cons n ns ih => simp only [minifyAll_cons, ih]

theorem minifyAll_append (cx : Surroundings) (before : Bool) (ns ms : List Node) :
    minifyAll cx before (ns ++ ms) =
      let first := minifyAll { cx with after := (boundary ms).getD cx.after } before ns
      let second := minifyAll cx first.2 ms
      (first.1 ++ second.1, second.2) := by
  induction ns generalizing before with
  | nil => rfl
  | cons n ns ih =>
      have next : (boundary (ns ++ ms)).getD cx.after =
          (boundary ns).getD ((boundary ms).getD cx.after) := by
        rw [boundary_append]
        cases boundary ns <;> rfl
      simp only [List.cons_append, minifyAll_cons, next, ih, List.append_assoc]

theorem minifyAll_cons_alone (cx : Surroundings) (before : Bool) (n : Node) (ns : List Node) :
    minifyAll cx before (n :: ns) =
      let first := minifyAll { cx with after := (boundary ns).getD cx.after } before [n]
      let second := minifyAll cx first.2 ns
      (first.1 ++ second.1, second.2) :=
  minifyAll_append cx before [n] ns

end LookAhead

section Alone

theorem isEmptyText_ofList (s : List Char) (position : Option Position) :
    isEmptyText (.text (String.ofList s) position) = s.isEmpty := by
  rw [isEmptyText, Bool.eq_iff_iff, beq_iff_eq, List.isEmpty_iff, ← String.toList_inj,
    String.toList_ofList, String.toList_empty]

theorem isEmptyText_iff (value : String) (position : Option Position) :
    isEmptyText (.text value position) ↔ value = "" := beq_iff_eq

variable (cx : Surroundings)

theorem minifyAll_singleton (before : Bool) (n : Node) :
    minifyAll cx before [n] =
      let r := minifyNode { cx with before := before } n
      (remains r, stripNext before r) := by
  rw [minifyAll_cons]
  simp [boundary, minifyAll]

theorem minifyAll_text (normal : cx.whiteSpace = .normal) (before : Bool) (value : String)
    (position : Option Position) :
    minifyAll cx before [.text value position] =
      let kept := trimEnd cx.after (trimStart before (collapse cx.newlines value.toList))
      if kept.1 = [] then ([], before)
      else ([.text (String.ofList kept.1) position], kept.2) := by
  rw [minifyAll_singleton]
  simp only [minifyNode, minifyText, normal, trimText_eq]
  generalize trimEnd cx.after (trimStart before (collapse cx.newlines value.toList)) = kept
  by_cases empty : kept.1 = []
  · simp [empty, remains, stripNext]
  · simp [empty, remains, stripNext, stripAfter]

theorem minifyAll_verbatim (verbatim : cx.whiteSpace = .verbatim) (before : Bool) (value : String)
    (position : Option Position) :
    minifyAll cx before [.text value position] = ([.text value position], false) := by
  simp [minifyAll_singleton, minifyNode, minifyText, verbatim, remains, stripNext, stripAfter]

theorem minifyAll_nowrap (nowrap : cx.whiteSpace = .nowrap) (before : Bool) (value : String)
    (position : Option Position) :
    minifyAll cx before [.text value position] =
      ([.text (String.ofList (collapse cx.newlines value.toList)) position], false) := by
  simp [minifyAll_singleton, minifyNode, minifyText, nowrap, remains, stripNext, stripAfter]

theorem stripAfter_kept (before strip : Bool) (n : Node) :
    stripAfter before n (.kept strip) = (isBreak n || !isContent n && strip) := by
  unfold stripAfter
  cases isBreak n <;> cases isContent n <;> rfl

theorem minifyAll_element (before : Bool) (tag : String) (properties : Properties)
    (children : List Node) (position : Option Position) :
    minifyAll cx before [.element tag properties children position] =
      let inner := cx.inside ⟨tag, properties, children, position⟩
      let r := minifyAll inner (before || isBlockTag tag) children
      ([.element tag properties (r.1.filter (!isEmptyText ·)) position],
        tag == "br" || !contentTags.contains tag && (r.2 || inner.after)) := by
  let inner := cx.inside ⟨tag, properties, children, position⟩
  have node : minifyNode { cx with before := before } (.element tag properties children position) =
      let r := minifyAll { inner with before := before || isBlockTag tag }
        (before || isBlockTag tag) children
      (.element tag properties (r.1.filter (!isEmptyText ·)) position,
        .kept (r.2 || inner.after)) := by
    rw [minifyNode]
    rfl
  rw [minifyAll_singleton, node, minifyAll_before]
  dsimp only [remains, stripNext]
  rw [if_neg (by simp), if_neg (by simp), stripAfter_kept]
  rfl

theorem minifyAll_root (before : Bool) (children : List Node) (position : Option Position) :
    minifyAll cx before [.root children position] =
      let r := minifyAll { cx with after := true } true children
      ([.root (r.1.filter (!isEmptyText ·)) position], true) := by
  rw [minifyAll_singleton, minifyNode, minifyAll_before { cx with after := true }]
  rfl

end Alone

end HtmlToMarkdown.Html
