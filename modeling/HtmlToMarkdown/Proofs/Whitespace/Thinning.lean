import HtmlToMarkdown.Proofs.Ink.Minify

namespace HtmlToMarkdown.Html

mutual

/-- The second tree is the first one, except for white space in its texts. -/
inductive Thinned : Node → Node → Prop
  | root {children fewer : List Node} {position : Option Position}
    (inside : ThinnedAll children fewer) : Thinned (.root children position) (.root fewer position)
  | element {tag : String} {properties : Properties} {children fewer : List Node}
    {position : Option Position} (inside : ThinnedAll children fewer) :
    Thinned (.element tag properties children position) (.element tag properties fewer position)
  | text {value other : String} {position : Option Position} (same : ink other = ink value) :
    Thinned (.text value position) (.text other position)
  | comment {value : String} {position : Option Position} :
    Thinned (.comment value position) (.comment value position)
  | doctype {position : Option Position} : Thinned (.doctype position) (.doctype position)

/-- The same of siblings, where a text that is all white space may be missing. -/
inductive ThinnedAll : List Node → List Node → Prop
  | nil : ThinnedAll [] []
  | kept {n m : Node} {ns ms : List Node} (here : Thinned n m) (rest : ThinnedAll ns ms) :
    ThinnedAll (n :: ns) (m :: ms)
  | removed {value : String} {position : Option Position} {ns ms : List Node}
    (white : value.toList.all isWhite) (rest : ThinnedAll ns ms) :
    ThinnedAll (.text value position :: ns) ms

end

mutual

def Node.withoutTexts : Node → List Node
  | .root children position => [.root (withoutTextsIn children) position]
  | .element tag properties children position =>
    [.element tag properties (withoutTextsIn children) position]
  | .text _ _ => []
  | .comment value position => [.comment value position]
  | .doctype position => [.doctype position]

def withoutTextsIn : List Node → List Node
  | [] => []
  | n :: ns => n.withoutTexts ++ withoutTextsIn ns

end

mutual

theorem Thinned.withoutTexts {n m : Node} (thinned : Thinned n m) :
    m.withoutTexts = n.withoutTexts := by
  match thinned with
  | .root inside => rw [Node.withoutTexts, Node.withoutTexts, inside.withoutTexts]
  | .element inside => rw [Node.withoutTexts, Node.withoutTexts, inside.withoutTexts]
  | .text _ => rfl
  | .comment => rfl
  | .doctype => rfl

theorem ThinnedAll.withoutTexts {ns ms : List Node} (thinned : ThinnedAll ns ms) :
    withoutTextsIn ms = withoutTextsIn ns := by
  match thinned with
  | .nil => rfl
  | .kept here rest => rw [withoutTextsIn, withoutTextsIn, here.withoutTexts, rest.withoutTexts]
  | .removed _ rest => rw [rest.withoutTexts]; rfl

end

theorem ThinnedAll.filter {ns ms : List Node} (thinned : ThinnedAll ns ms) :
    ThinnedAll ns (ms.filter (!isEmptyText ·)) := by
  induction ns generalizing ms with
  | nil =>
      cases thinned
      exact .nil
  | cons n ns ih =>
      cases thinned with
      | removed white rest => exact .removed white (ih rest)
      | @kept _ m _ ms here rest =>
          by_cases empty : isEmptyText m
          · rw [List.filter_cons_of_neg (by simpa using empty)]
            obtain ⟨position, rfl⟩ := exists_of_isEmptyText empty
            cases here with
            | text same => exact .removed (all_isWhite_iff.mpr same.symm) (ih rest)
          · rw [List.filter_cons_of_pos (by simpa using empty)]
            exact .kept here (ih rest)

mutual

theorem thinned_minifyNode (cx : Surroundings) (n : Node) : Thinned n (minifyNode cx n).1 := by
  match n with
  | .root children position => exact .root (thinnedAll_minifyAll _ _ children).filter
  | .element tag properties children position =>
      exact .element (thinnedAll_minifyAll _ _ children).filter
  | .text value position => exact .text (ink_minifyText cx value).1
  | .comment value position => exact .comment
  | .doctype position => exact .doctype

theorem thinnedAll_minifyAll (cx : Surroundings) (before : Bool) (ns : List Node) :
    ThinnedAll ns (minifyAll cx before ns).1 := by
  match ns with
  | [] => exact .nil
  | n :: ns =>
      let here : Surroundings := { cx with before := before, after := (boundary ns).getD cx.after }
      simp only [minifyAll]
      split
      next gone =>
        cases n with
        | text value position =>
            have white := all_isWhite_iff.mpr ((ink_minifyText here value).2 gone)
            exact .removed white (thinnedAll_minifyAll cx before ns)
        | _ => simp [minifyNode] at gone
      next => exact .kept (thinned_minifyNode here n) (thinnedAll_minifyAll _ _ ns)

end

/-- Minification only thins out the texts of a tree. -/
theorem thinned_minify (newlines : Bool) (n : Node) : Thinned n (n.minify newlines) :=
  thinned_minifyNode _ n

end HtmlToMarkdown.Html
