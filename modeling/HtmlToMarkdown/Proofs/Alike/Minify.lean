import HtmlToMarkdown.Proofs.Alike.Relation
import HtmlToMarkdown.Proofs.Whitespace.Settle

namespace HtmlToMarkdown.Html

open Handler (Layout enabledOptions gridElements gridElementsIn spreadsOut)

/-- Other content of an element that means the same for the white space around it. -/
structure Spaced (e : Element) (others : List Node) : Prop where
  ahead : nodeBoundary { e with children := others }.toNode = nodeBoundary e.toNode
  behind (cx : Surroundings) :
    stripNext cx.before (minifyNode cx { e with children := others }.toNode) =
      stripNext cx.before (minifyNode cx e.toNode)

/-- Other content of an ignored element that makes no difference to anything around. -/
structure Unnoticed (cx : Sight) (e : Element) (others : List Node) : Prop extends
  Hidden cx e others, Spaced e others

def Element.settled (cx : Surroundings) (e : Element) : List Node × Bool :=
  minifyAll (cx.inside e) (cx.inside e).before e.children

theorem nodeBoundary_toNode (e : Element) :
    nodeBoundary e.toNode =
      if e.tag == "br" || isBlockTag e.tag then some true
      else if contentTags.contains e.tag then some false
      else if e.hasFlag "hidden" || e.tag == "title" then none
      else boundary e.children := by
  simp only [Element.toNode, nodeBoundary, ownBoundary, isSkippable]
  split
  · rfl
  · split <;> rfl

theorem minifyNode_toNode (cx : Surroundings) (e : Element) :
    minifyNode cx e.toNode =
      (.element e.tag e.properties ((e.settled cx).1.filter (!isEmptyText ·)) e.position,
        .kept ((e.settled cx).2 || (cx.inside e).after)) := by
  rfl

theorem not_removed_toNode (cx : Surroundings) (e : Element) :
    (minifyNode cx e.toNode).2 ≠ .removed := by
  rw [minifyNode_toNode]
  nofun

theorem stripNext_toNode (cx : Surroundings) (before : Bool) (e : Element) :
    stripNext before (minifyNode cx e.toNode) =
      if e.tag == "br" then true
      else if contentTags.contains e.tag then false
      else (e.settled cx).2 || (cx.inside e).after := by
  rfl

section Twins

variable {e f : Element} (twin : e.Twin f)

include twin

theorem Element.Twin.nodeBoundary_eq (inside : boundary f.children = boundary e.children) :
    nodeBoundary f.toNode = nodeBoundary e.toNode := by
  rw [nodeBoundary_toNode, nodeBoundary_toNode, twin.tag, twin.flag_eq "hidden" (by decide), inside]

theorem Element.Twin.inside_eq (cx : Surroundings) : cx.inside f = cx.inside e := by
  simp only [Surroundings.inside, whiteSpaceIn, twin.tag, twin.flag_eq "nowrap" (by decide)]

theorem Element.Twin.stripNext_eq (cx : Surroundings) (inside : (f.settled cx).2 = (e.settled cx).2)
    (before : Bool) :
    stripNext before (minifyNode cx f.toNode) = stripNext before (minifyNode cx e.toNode) := by
  rw [stripNext_toNode, stripNext_toNode, twin.tag, twin.inside_eq, inside]

end Twins

theorem spaced_of_block {e : Element}
    (shown : e.tag = "br" ∨ isBlockTag e.tag ∨ e.tag ∈ contentTags) (others : List Node) :
    Spaced e others where
  ahead := by
    rw [nodeBoundary_toNode, nodeBoundary_toNode]
    rcases shown with br | block | content
    · simp [br]
    · simp [block]
    · simp [content]
  behind cx := by
    rw [stripNext_toNode, stripNext_toNode]
    rcases shown with br | block | content
    · simp [br]
    · simp [Surroundings.inside, block]
    · simp [content]

section Literals

variable {n : Node} (literal : n.asElement? = none) (ns : List Node)

include literal

theorem enabledOptions_literal : enabledOptions (n :: ns) = enabledOptions ns := by
  cases n with
  | element => cases literal
  | _ => rw [enabledOptions]; simp

theorem spreadsOut_literal (seenBlock : Bool) :
    spreadsOut seenBlock (n :: ns) = spreadsOut seenBlock ns := by
  cases n with
  | element => cases literal
  | _ => rw [spreadsOut]; simp

end Literals

section Thinned

theorem Indistinct.refl (tag : String) (properties : Properties) :
    Indistinct tag properties properties := ⟨fun _ _ => rfl, fun _ => .inl rfl⟩

mutual

theorem Thinned.identified {n m : Node} (thinned : Thinned n m) :
    (identified m).map (·.1) = (identified n).map (·.1) := by
  match thinned with
  | .root inside => exact inside.identifiedIn
  | @Thinned.element tag properties children fewer position inside =>
      have twin := (Indistinct.refl tag properties).twin children fewer position
      have below := inside.identifiedIn
      simp only [HtmlToMarkdown.identified, twin.attribute_eq "id" (by decide)]
      split <;> simp [below]
  | .text _ => rfl
  | .comment => rfl
  | .doctype => rfl

theorem ThinnedAll.identifiedIn {ns ms : List Node} (thinned : ThinnedAll ns ms) :
    (identifiedIn ms).map (·.1) = (identifiedIn ns).map (·.1) := by
  match thinned with
  | .nil => rfl
  | .kept here rest =>
      simp only [HtmlToMarkdown.identifiedIn, List.map_append, here.identified, rest.identifiedIn]
  | .removed _ rest => exact rest.identifiedIn

end

mutual

theorem Thinned.foldl_gridElements {n m : Node} (thinned : Thinned n m) (l : Layout) :
    (gridElements m).foldl Layout.read l = (gridElements n).foldl Layout.read l := by
  match thinned with
  | .root _ => rfl
  | .element inside =>
      simp only [gridElements]
      split
      · rfl
      · exact inside.foldl_gridElementsIn _
  | .text _ => rfl
  | .comment => rfl
  | .doctype => rfl

theorem ThinnedAll.foldl_gridElementsIn {ns ms : List Node} (thinned : ThinnedAll ns ms)
    (l : Layout) :
    (gridElementsIn ms).foldl Layout.read l = (gridElementsIn ns).foldl Layout.read l := by
  match thinned with
  | .nil => rfl
  | .kept here rest =>
      simp only [gridElementsIn, List.foldl_append, here.foldl_gridElements,
        rest.foldl_gridElementsIn]
  | .removed _ rest => exact rest.foldl_gridElementsIn l

end

theorem ThinnedAll.length_enabledOptions {ns ms : List Node} (thinned : ThinnedAll ns ms) :
    (enabledOptions ms).length = (enabledOptions ns).length := by
  match thinned with
  | .nil => rfl
  | .kept here rest =>
      cases here with
      | @element tag properties children fewer position inside =>
          have twin := (Indistinct.refl tag properties).twin children fewer position
          simp only [enabledOptions, twin.flag_eq "disabled" (by decide), List.length_append,
            inside.length_enabledOptions, rest.length_enabledOptions]
          split <;> rfl
      | _ => rw [enabledOptions_literal rfl, enabledOptions_literal rfl, rest.length_enabledOptions]
  | .removed _ rest => rw [enabledOptions_literal rfl, rest.length_enabledOptions]

theorem ThinnedAll.spreadsOut_eq {ns ms : List Node} (thinned : ThinnedAll ns ms)
    (seenBlock : Bool) : spreadsOut seenBlock ms = spreadsOut seenBlock ns := by
  match thinned with
  | .nil => rfl
  | .kept here rest =>
      cases here with
      | element inside => simp only [spreadsOut, inside.spreadsOut_eq, rest.spreadsOut_eq]
      | _ => rw [spreadsOut_literal rfl, spreadsOut_literal rfl, rest.spreadsOut_eq]
  | .removed _ rest => rw [spreadsOut_literal rfl, rest.spreadsOut_eq]

theorem ThinnedAll.controlLeads_eq {ns ms : List Node} (thinned : ThinnedAll ns ms) :
    controlLeads ms = controlLeads ns := by
  match thinned with
  | .nil => rfl
  | .kept here rest =>
      cases here with
      | @text value other _ same =>
          have white : other.toList.all isWhite = value.toList.all isWhite := by
            rw [Bool.eq_iff_iff, all_isWhite_iff, all_isWhite_iff, same]
          rw [controlLeads, controlLeads, white, rest.controlLeads_eq]
      | element inside =>
          simp only [controlLeads, inside.controlLeads_eq]
          rfl
      | _ => simp [controlLeads]
  | .removed white rest => rw [controlLeads, white, rest.controlLeads_eq, Bool.true_and]

/-- Content that cannot be seen can neither be seen with less white space in it. -/
theorem Hidden.thinned {cx : Sight} {e : Element} {others fewer less : List Node}
    (hidden : Hidden cx e others) (here : ThinnedAll e.children fewer)
    (there : ThinnedAll others less) : Hidden cx { e with children := fewer } less := by
  have unnamed : ∀ {ns ms : List Node}, ThinnedAll ns ms → identifiedIn ns = [] →
      identifiedIn ms = [] := by
    intro ns ms thinned none
    have same := thinned.identifiedIn
    rwa [none, List.map_nil, List.map_eq_nil_iff] at same
  have optionless : ∀ {ns ms : List Node}, ThinnedAll ns ms → enabledOptions ns = [] →
      enabledOptions ms = [] := by
    intro ns ms thinned none
    have same := thinned.length_enabledOptions
    rwa [none, List.length_nil, List.length_eq_zero_iff] at same
  constructor
  · exact ⟨unnamed here hidden.ids.1, unnamed there hidden.ids.2⟩
  · exact hidden.text
  · intro read
    rcases hidden.choices read with ⟨apart, none, noneThere⟩
    exact ⟨apart, optionless here none, optionless there noneThere⟩
  · intro read part l
    rw [here.foldl_gridElementsIn, there.foldl_gridElementsIn]
    exact hidden.grid read part l
  · intro read paragraph
    rw [here.controlLeads_eq, there.controlLeads_eq]
    exact hidden.toggle read paragraph
  · intro read block apart
    rw [here.spreadsOut_eq, there.spreadsOut_eq]
    exact hidden.spread read block apart
  · exact hidden.term

end Thinned

section Minify

theorem Node.Alike.isEmptyText_eq {same : String → Properties → Properties → Prop}
    {hides : Sight → Element → List Node → Prop} {cx : Sight} {n m : Node}
    (alike : n.Alike same hides cx m) : isEmptyText m = isEmptyText n := by
  cases alike <;> rfl

theorem AlikeAll.filter {same : String → Properties → Properties → Prop}
    {hides : Sight → Element → List Node → Prop} {cx : Sight} {ns ms : List Node}
    (alike : AlikeAll same hides cx ns ms) :
    AlikeAll same hides cx (ns.filter (!isEmptyText ·)) (ms.filter (!isEmptyText ·)) := by
  induction ns generalizing cx ms with
  | nil =>
      cases alike
      exact .nil
  | cons n ns ih =>
      cases alike with
      | cons here rest =>
          rw [List.filter_cons, List.filter_cons, here.isEmptyText_eq]
          split
          · exact .cons here (ih rest)
          next empty =>
            obtain ⟨position, rfl⟩ := exists_of_isEmptyText (by simpa using empty)
            have white : "".toList.all isWhite := rfl
            rw [cx.after_of_white white position] at rest
            exact ih rest

mutual

theorem Node.Alike.nodeBoundary_eq {cx : Sight} {n m : Node}
    (alike : n.Alike Indistinct Unnoticed cx m) : nodeBoundary m = nodeBoundary n := by
  match alike with
  | .root inside =>
      simp only [nodeBoundary, ownBoundary, isSkippable, inside.boundary_eq]
      rfl
  | @Node.Alike.element _ _ _ tag properties more children others position equal inside =>
      exact (equal.twin children others position).nodeBoundary_eq inside.boundary_eq
  | @Node.Alike.hidden _ _ _ tag properties more children others position equal _ unseen =>
      exact ((equal.twin others others position).nodeBoundary_eq rfl).trans unseen.ahead
  | .text => rfl
  | .comment => rfl
  | .doctype => rfl

theorem AlikeAll.boundary_eq {cx : Sight} {ns ms : List Node}
    (alike : AlikeAll Indistinct Unnoticed cx ns ms) : boundary ms = boundary ns := by
  match alike with
  | .nil => rfl
  | .cons here rest => rw [boundary, boundary, here.nodeBoundary_eq, rest.boundary_eq]

end

/-- In a thinner tree the siblings after a node are read alike. -/
theorem Thinned.after_eq {n m : Node} (thinned : Thinned n m) (cx : Sight) :
    cx.after m = cx.after n := by
  cases thinned with
  | @text value other position same =>
      simp only [Sight.after, all_isWhite_iff, same]
  | _ => rfl

/-- What is removed leaves the sight of the siblings after it as it was. -/
theorem after_of_removed {around : Surroundings} {n : Node}
    (gone : (minifyNode around n).2 = .removed) (cx : Sight) : cx.after n = cx := by
  cases n with
  | text value position =>
      have white := all_isWhite_iff.mpr ((ink_minifyText around value).2 gone)
      exact cx.after_of_white white position
  | _ => simp [minifyNode] at gone

/-- Two nodes are minified to nodes that are not told apart and mean the same for the white space
that follows. -/
structure SameEffect (cx : Sight) (before : Bool) (r s : Node × Outcome) : Prop where
  alike : r.1.Alike Indistinct Hidden cx s.1
  removed : s.2 = .removed ↔ r.2 = .removed
  strip : stripNext before s = stripNext before r

namespace SameEffect

variable {cx : Sight} {around : Surroundings} {e f : Element}

theorem remains_append {before : Bool} {n : Node} {s : Node × Outcome} {ns ms : List Node}
    (same : SameEffect cx before (minifyNode around n) s)
    (rest : AlikeAll Indistinct Hidden (cx.after n) ns ms) :
    AlikeAll Indistinct Hidden cx (remains (minifyNode around n) ++ ns) (remains s ++ ms) := by
  unfold Html.remains
  by_cases gone : (minifyNode around n).2 = .removed
  · rw [if_pos gone, if_pos (same.removed.mpr gone)]
    exact after_of_removed gone cx ▸ rest
  · rw [if_neg gone, if_neg fun there => gone (same.removed.mp there)]
    exact .cons same.alike ((thinned_minifyNode around n).after_eq cx ▸ rest)

theorem ofElements (strip : stripNext around.before (minifyNode around f.toNode) =
      stripNext around.before (minifyNode around e.toNode))
    (alike : (minifyNode around e.toNode).1.Alike Indistinct Hidden cx
      (minifyNode around f.toNode).1) :
    SameEffect cx around.before (minifyNode around e.toNode) (minifyNode around f.toNode) :=
  ⟨alike, iff_of_false (not_removed_toNode around f) (not_removed_toNode around e), strip⟩

end SameEffect

mutual

/-- Minification takes no notice of what is hidden, and leaves the trees alike. -/
theorem Node.Alike.minifyNode {cx : Sight} {n m : Node}
    (alike : n.Alike Indistinct Unnoticed cx m) (around : Surroundings) :
    SameEffect cx around.before (minifyNode around n) (minifyNode around m) := by
  match alike with
  | .root inside => exact ⟨.root (inside.minifyAll _ _).1.filter, Iff.rfl, rfl⟩
  | @Node.Alike.element _ _ _ tag properties more children others position equal inside =>
      let e : Element := ⟨tag, properties, children, position⟩
      let f : Element := ⟨tag, more, others, position⟩
      have twin : e.Twin f := equal.twin children others position
      have content := inside.minifyAll (around.inside e) (around.inside e).before
      have settled : f.settled around =
          Html.minifyAll (around.inside e) (around.inside e).before others := by
        rw [Element.settled, twin.inside_eq]
      rw [← settled] at content
      have strip := twin.stripNext_eq around content.2 around.before
      exact .ofElements (e := e) (f := f) strip (.element equal content.1.filter)
  | @Node.Alike.hidden _ _ _ tag properties more children others position equal ignored unseen =>
      let e : Element := ⟨tag, properties, children, position⟩
      let d : Element := ⟨tag, properties, others, position⟩
      let f : Element := ⟨tag, more, others, position⟩
      have twin : d.Twin f := equal.twin others others position
      have settled : f.settled around = d.settled around := by
        rw [Element.settled, Element.settled, twin.inside_eq]
      have strip := (twin.stripNext_eq around (congrArg _ settled) around.before).trans
        (unseen.behind around)
      -- The ignored content is minified on each side on its own, and stays unseen.
      have thinner : ∀ e : Element, ThinnedAll e.children
          ((e.settled around).1.filter (!isEmptyText ·)) := fun e =>
        (thinnedAll_minifyAll _ _ e.children).filter
      have still := unseen.toHidden.thinned (thinner e) (thinner f)
      exact .ofElements (e := e) (f := f) strip (.hidden equal ignored still)
  | .text => exact ⟨.text, Iff.rfl, rfl⟩
  | .comment => exact ⟨.comment, Iff.rfl, rfl⟩
  | .doctype => exact ⟨.doctype, Iff.rfl, rfl⟩

theorem AlikeAll.minifyAll {cx : Sight} {ns ms : List Node}
    (alike : AlikeAll Indistinct Unnoticed cx ns ms) (around : Surroundings) (before : Bool) :
    AlikeAll Indistinct Hidden cx (minifyAll around before ns).1 (minifyAll around before ms).1 ∧
      (minifyAll around before ms).2 = (minifyAll around before ns).2 := by
  match alike with
  | .nil => exact ⟨.nil, rfl⟩
  | @AlikeAll.cons _ _ _ n m ns ms here rest =>
      let cx : Surroundings :=
        { around with before := before, after := (boundary ns).getD around.after }
      have first := here.minifyNode cx
      have more := rest.minifyAll around (stripNext before (Html.minifyNode cx n))
      rw [minifyAll_cons, minifyAll_cons, rest.boundary_eq]
      dsimp only
      rw [first.strip]
      exact ⟨first.remains_append more.1, more.2⟩

end

end Minify

end HtmlToMarkdown.Html
