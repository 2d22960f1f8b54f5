import HtmlToMarkdown.Proofs.Whitespace.Nodewise

/-!
Minifying a tree twice. An empty text whose white space is kept counts for the texts after it before
it goes, so a second run sees fewer texts than the first one did and lets no less white space go. It
gives what a single run gives of the tree without its empty texts.
-/

namespace HtmlToMarkdown.Html

mutual

def Node.withoutEmptyTexts : Node → Node
  | .root children position => .root (withoutEmptyTextsIn children) position
  | .element tag properties children position =>
    .element tag properties (withoutEmptyTextsIn children) position
  | n => n

def withoutEmptyTextsIn : List Node → List Node
  | [] => []
  | n :: ns =>
    if isEmptyText n then withoutEmptyTextsIn ns else n.withoutEmptyTexts :: withoutEmptyTextsIn ns

end

mutual

theorem thinned_withoutEmptyTexts (n : Node) : Thinned n n.withoutEmptyTexts := by
  match n with
  | .root children position => exact .root (thinnedAll_withoutEmptyTextsIn children)
  | .element tag properties children position =>
      exact .element (thinnedAll_withoutEmptyTextsIn children)
  | .text value position => exact .text rfl
  | .comment value position => exact .comment
  | .doctype position => exact .doctype

theorem thinnedAll_withoutEmptyTextsIn (ns : List Node) :
    ThinnedAll ns (withoutEmptyTextsIn ns) := by
  match ns with
  | [] => exact .nil
  | n :: ns =>
      rw [withoutEmptyTextsIn]
      split
      next empty =>
        obtain ⟨position, rfl⟩ := exists_of_isEmptyText empty
        exact .removed rfl (thinnedAll_withoutEmptyTextsIn ns)
      next => exact .kept (thinned_withoutEmptyTexts n) (thinnedAll_withoutEmptyTextsIn ns)

end

/-- Minifying what a first run left of the nodes is minifying them without their empty texts, and
white space after them may go if it might in the first run. -/
structure Again (cx : Surroundings) (first before : Bool) (ns : List Node) : Prop where
  same : minifyAll cx before ((minifyAll cx first ns).1.filter (!isEmptyText ·)) =
    minifyAll cx before (withoutEmptyTextsIn ns)
  strips : (minifyAll cx first ns).2 → (minifyAll cx before (withoutEmptyTextsIn ns)).2

namespace Again

variable {cx : Surroundings} {first before : Bool}

theorem nil (le : first → before) : Again cx first before [] := ⟨rfl, le⟩

theorem cons {n : Node} {ns : List Node}
    (here : Again { cx with after := (boundary ns).getD cx.after } first before [n])
    (rest : ∀ first before : Bool, (first → before) → Again cx first before ns) :
    Again cx first before (n :: ns) := by
  let around : Surroundings := { cx with after := (boundary ns).getD cx.after }
  have fewer : withoutEmptyTextsIn (n :: ns) =
      withoutEmptyTextsIn [n] ++ withoutEmptyTextsIn ns := by
    simp only [withoutEmptyTextsIn]
    split <;> rfl
  have left := boundary_of_thinned
    (thinnedAll_minifyAll cx (minifyAll around first [n]).2 ns).filter
  have filled := boundary_of_thinned (thinnedAll_withoutEmptyTextsIn ns)
  obtain ⟨same, strips⟩ := rest _ _ here.strips
  constructor
  · rw [minifyAll_cons_alone, fewer, List.filter_append, minifyAll_append, minifyAll_append, left,
      filled]
    dsimp only
    rw [here.same, same]
  · rw [minifyAll_cons_alone, fewer, minifyAll_append, filled]
    exact strips

theorem trimmed (normal : cx.whiteSpace = .normal) (le : first → before) (value : String)
    (position : Option Position) : Again cx first before [.text value position] := by
  let kept (s : List Char) (before : Bool) := trimEnd cx.after (trimStart before s)
  let s := collapse cx.newlines value.toList
  have collapsed : Collapsed cx.newlines s := collapsed_collapse cx.newlines value.toList
  -- The first run may have kept white space at the start that goes now.
  have again : kept (kept s first).1 before = kept s before :=
    collapsed.trimEnd_trimStart_again le cx.after
  have once := minifyAll_text cx normal first value position
  have afresh : minifyAll cx before (withoutEmptyTextsIn [.text value position]) =
      if (kept s before).1 = [] then ([], before)
      else ([.text (String.ofList (kept s before).1) position], (kept s before).2) := by
    by_cases empty : value = ""
    · subst empty
      simp [withoutEmptyTextsIn, isEmptyText, kept, s, collapse, collapseFrom, trimStart, trimEnd,
        minifyAll]
    · have filled := (isEmptyText_iff value position).not.mpr empty
      rw [withoutEmptyTextsIn, if_neg filled]
      exact minifyAll_text cx normal before value position
  by_cases gone : (kept s first).1 = []
  · rw [if_pos gone] at once
    have none : kept s before = ([], false) := by
      rw [← again, gone]
      simp [kept, trimStart, trimEnd]
    rw [none] at afresh
    exact ⟨by rw [once, afresh]; rfl, by rw [once, afresh]; exact le⟩
  · rw [if_neg gone] at once
    have filled : ¬ isEmptyText (.text (String.ofList (kept s first).1) position) := by
      rwa [isEmptyText_ofList, List.isEmpty_iff]
    have started := collapsed.of_infix (trimStart_suffix first s).isInfix
    have still := started.of_infix (isInfix_trimEnd cx.after _)
    have twice := minifyAll_text cx normal before (String.ofList (kept s first).1) position
    rw [String.toList_ofList, still.collapse_eq] at twice
    constructor
    · rw [once, afresh, List.filter_cons_of_pos (by simpa using filled), List.filter_nil]
      exact twice.trans (by rw [← again])
    · intro strips
      rw [once] at strips
      have more := strips_of_trimEnd le strips
      rw [afresh]
      split
      next empty => rwa [if_pos empty] at more
      next stays => rwa [if_neg stays] at more

theorem counted {value other : String} {position : Option Position}
    (once : ∀ before, minifyAll cx before [.text value position] = ([.text other position], false))
    (twice : ∀ before, minifyAll cx before [.text other position] = ([.text other position], false))
    (same : other = "" ↔ value = "") (first before : Bool) :
    Again cx first before [.text value position] := by
  refine ⟨?_, by simp [once]⟩
  rw [once]
  by_cases empty : value = ""
  · have gone := (isEmptyText_iff other position).mpr (same.mpr empty)
    rw [List.filter_cons_of_neg (by simpa using gone), withoutEmptyTextsIn,
      if_pos ((isEmptyText_iff value position).mpr empty)]
    rfl
  · have filled := (isEmptyText_iff other position).not.mpr (same.not.mpr empty)
    rw [List.filter_cons_of_pos (by simpa using filled), withoutEmptyTextsIn,
      if_neg ((isEmptyText_iff value position).not.mpr empty)]
    exact (twice before).trans (once before).symm

theorem text (le : first → before) (value : String) (position : Option Position) :
    Again cx first before [.text value position] := by
  cases treated : cx.whiteSpace with
  | normal => exact .trimmed treated le value position
  | verbatim =>
      have once := (minifyAll_verbatim cx treated · value position)
      exact .counted once once Iff.rfl first before
  | nowrap =>
      let other := String.ofList (collapse cx.newlines value.toList)
      have twice := (minifyAll_nowrap cx treated · other position)
      rw [String.toList_ofList, (collapsed_collapse _ _).collapse_eq] at twice
      refine .counted (minifyAll_nowrap cx treated · value position) twice ?_ first before
      rw [← String.toList_inj, String.toList_ofList, ← String.toList_inj]
      exact collapse_eq_nil

theorem element {tag : String} {properties : Properties} {children : List Node}
    {position : Option Position}
    (inside : Again (cx.inside ⟨tag, properties, children, position⟩)
      (first || isBlockTag tag) (before || isBlockTag tag) children) :
    Again cx first before [.element tag properties children position] := by
  have whole : withoutEmptyTextsIn [.element tag properties children position] =
      [.element tag properties (withoutEmptyTextsIn children) position] := rfl
  have around : ∀ fewer, cx.inside ⟨tag, properties, fewer, position⟩ =
      cx.inside ⟨tag, properties, children, position⟩ := fun _ => rfl
  constructor
  · rw [minifyAll_element, List.filter_cons_of_pos rfl, List.filter_nil, whole, minifyAll_element,
      minifyAll_element]
    dsimp only
    rw [around (withoutEmptyTextsIn children), around (List.filter _ _), inside.same]
  · rw [whole, minifyAll_element, minifyAll_element]
    simp only [Bool.or_eq_true, Bool.and_eq_true]
    exact Or.imp_right (And.imp_right (Or.imp_left inside.strips))

theorem root {children : List Node} {position : Option Position}
    (inside : Again { cx with after := true } true true children) (first before : Bool) :
    Again cx first before [.root children position] := by
  have whole : withoutEmptyTextsIn [.root children position] =
      [.root (withoutEmptyTextsIn children) position] := rfl
  constructor
  · rw [minifyAll_root, List.filter_cons_of_pos rfl, List.filter_nil, whole, minifyAll_root,
      minifyAll_root, inside.same]
  · rw [whole, minifyAll_root]
    exact fun _ => rfl

end Again

mutual

theorem again_node (cx : Surroundings) {first before : Bool} (le : first → before) (n : Node) :
    Again cx first before [n] := by
  match n with
  | .root children position => exact .root (again_nodes _ id children) first before
  | .element tag properties children position =>
      refine .element (again_nodes _ ?_ children)
      rw [Bool.or_eq_true, Bool.or_eq_true]
      exact Or.imp_left le
  | .text value position => exact .text le value position
  | .comment value position => exact ⟨rfl, le⟩
  | .doctype position => exact ⟨rfl, le⟩

theorem again_nodes (cx : Surroundings) {first before : Bool} (le : first → before)
    (ns : List Node) : Again cx first before ns := by
  match ns with
  | [] => exact .nil le
  | n :: ns => exact .cons (again_node _ le n) fun _ _ le => again_nodes cx le ns

end

section Twice

variable (newlines : Bool)

theorem minify_text (value : String) (position : Option Position) :
    (Node.text value position).minify newlines =
      .text (String.ofList (collapse newlines value.toList)) position := by
  have kept : trimStart false (collapse newlines value.toList) =
      collapse newlines value.toList := rfl
  simp only [Node.minify, minifyNode, minifyText, trimText_eq, kept, trimEnd_false]
  split
  next gone =>
    have empty : collapse newlines value.toList = [] := by
      by_contra filled
      simp [filled] at gone
    obtain rfl : value = "" := String.toList_inj.mp (collapse_eq_nil.mp empty)
    rfl
  next => rfl

/-- What is not an empty text stays if nothing is around it, and becomes no empty text. -/
theorem minifyAll_alone {n : Node} (filled : ¬ isEmptyText n) :
    (minifyAll ⟨newlines, .normal, false, false⟩ false [n]).1 = [n.minify newlines] ∧
      ¬ isEmptyText (n.minify newlines) := by
  cases n with
  | text value position =>
      have stays : collapse newlines value.toList ≠ [] := fun empty =>
        filled ((isEmptyText_iff _ _).mpr (String.toList_inj.mp (collapse_eq_nil.mp empty)))
      have kept : trimStart false (collapse newlines value.toList) =
          collapse newlines value.toList := rfl
      rw [minify_text, minifyAll_text _ rfl, isEmptyText_ofList, List.isEmpty_iff]
      dsimp only
      rw [kept, trimEnd_false, if_neg stays]
      exact ⟨rfl, stays⟩
  | root children position => exact ⟨rfl, Bool.false_ne_true⟩
  | element tag properties children position => exact ⟨rfl, Bool.false_ne_true⟩
  | comment value position => exact ⟨rfl, Bool.false_ne_true⟩
  | doctype position => exact ⟨rfl, Bool.false_ne_true⟩

theorem minify_minify (n : Node) :
    (n.minify newlines).minify newlines = n.withoutEmptyTexts.minify newlines := by
  by_cases empty : isEmptyText n
  · obtain ⟨position, rfl⟩ := exists_of_isEmptyText empty
    rfl
  · have whole : withoutEmptyTextsIn [n] = [n.withoutEmptyTexts] := by
      rw [withoutEmptyTextsIn, if_neg empty]
      rfl
    have still : ¬ isEmptyText n.withoutEmptyTexts := by
      cases n with
      | text value position => exact empty
      | _ => exact Bool.false_ne_true
    obtain ⟨once, filled⟩ := minifyAll_alone newlines empty
    have le : false = true → false = true := id
    obtain ⟨same, -⟩ := again_node ⟨newlines, .normal, false, false⟩ le n
    rw [once, List.filter_cons_of_pos (by simpa using filled), List.filter_nil, whole] at same
    have both := congrArg Prod.fst same
    rw [(minifyAll_alone newlines filled).1, (minifyAll_alone newlines still).1] at both
    exact List.singleton_inj.mp both

end Twice

section Counted

def isInlineTag (tag : String) : Bool :=
  !(isBlockTag tag || contentTags.contains tag || tag == "br")

mutual

/-- No inline element whose white space is kept holds an empty text. -/
def Node.CountsNoEmptyText (ws : WhiteSpace) : Node → Prop
  | .root children _ => CountNoEmptyTexts ws children
  | .element tag properties children position =>
    let inner := whiteSpaceIn ⟨tag, properties, children, position⟩ ws
    (inner ≠ .normal → isInlineTag tag → ∀ n ∈ children, ¬ isEmptyText n) ∧
      CountNoEmptyTexts inner children
  | _ => True

def CountNoEmptyTexts (ws : WhiteSpace) : List Node → Prop
  | [] => True
  | n :: ns => n.CountsNoEmptyText ws ∧ CountNoEmptyTexts ws ns

end

theorem whiteSpaceIn_ne_normal {ws : WhiteSpace} (special : ws ≠ .normal) (e : Element) :
    whiteSpaceIn e ws ≠ .normal := by
  unfold whiteSpaceIn
  split
  · exact WhiteSpace.noConfusion
  · split
    · exact WhiteSpace.noConfusion
    · split
      · exact WhiteSpace.noConfusion
      · exact special

mutual

/-- Where white space is kept, what came before a node makes no difference to it. -/
theorem minifyAll_node_special (cx : Surroundings) (special : cx.whiteSpace ≠ .normal)
    (before other : Bool) (n : Node) :
    (minifyAll cx before [n]).1 = (minifyAll cx other [n]).1 := by
  match n with
  | .root children position => rw [minifyAll_root, minifyAll_root]
  | .element tag properties children position =>
      rw [minifyAll_element, minifyAll_element]
      dsimp only
      rw [minifyAll_special _ (whiteSpaceIn_ne_normal special _) (before || isBlockTag tag)
        (other || isBlockTag tag) children]
  | .text value position =>
      cases treated : cx.whiteSpace with
      | normal => exact absurd treated special
      | verbatim => rw [minifyAll_verbatim cx treated, minifyAll_verbatim cx treated]
      | nowrap => rw [minifyAll_nowrap cx treated, minifyAll_nowrap cx treated]
  | .comment value position => rfl
  | .doctype position => rfl

theorem minifyAll_special (cx : Surroundings) (special : cx.whiteSpace ≠ .normal)
    (before other : Bool) (ns : List Node) :
    (minifyAll cx before ns).1 = (minifyAll cx other ns).1 := by
  match ns with
  | [] => rfl
  | n :: ns =>
      let around : Surroundings := { cx with after := (boundary ns).getD cx.after }
      have here := minifyAll_node_special around special before other n
      have rest := minifyAll_special cx special (minifyAll around before [n]).2
        (minifyAll around other [n]).2 ns
      rw [minifyAll_cons_alone cx before, minifyAll_cons_alone cx other]
      exact congrArg₂ (· ++ ·) here rest

end

/-- An empty text leaves nothing; where white space is not kept it does not count either. -/
theorem minifyAll_emptyText (cx : Surroundings) (before : Bool) (position : Option Position) :
    (minifyAll cx before [.text "" position]).1.filter (!isEmptyText ·) = [] ∧
      (cx.whiteSpace = .normal → minifyAll cx before [.text "" position] = ([], before)) := by
  cases treated : cx.whiteSpace with
  | normal =>
      have gone : minifyAll cx before [.text "" position] = ([], before) := by
        rw [minifyAll_text cx treated]
        simp [collapse_eq_nil.mpr, trimStart, trimEnd]
      exact ⟨by rw [gone]; rfl, fun _ => gone⟩
  | verbatim => exact ⟨by rw [minifyAll_verbatim cx treated]; rfl, WhiteSpace.noConfusion⟩
  | nowrap => exact ⟨by rw [minifyAll_nowrap cx treated]; rfl, WhiteSpace.noConfusion⟩

/-- After what is not inline, white space may go or not whatever is in it. -/
theorem strips_of_not_inline {tag : String} (apart : ¬ isInlineTag tag) {after : Bool}
    (ends : isBlockTag tag → after) (strip other : Bool) :
    (tag == "br" || !contentTags.contains tag && (strip || after)) =
      (tag == "br" || !contentTags.contains tag && (other || after)) := by
  by_cases br : tag == "br"
  · rw [br, Bool.true_or, Bool.true_or]
  · by_cases content : contentTags.contains tag
    · rw [content, Bool.not_true, Bool.false_and, Bool.false_and]
    · have block : isBlockTag tag := by
        rw [isInlineTag, Bool.of_not_eq_true content, Bool.of_not_eq_true br] at apart
        simpa using apart
      rw [ends block, Bool.or_true, Bool.or_true]

mutual

theorem minifyAll_withoutEmptyTexts (cx : Surroundings) (before : Bool) {n : Node}
    (uncounted : n.CountsNoEmptyText cx.whiteSpace) :
    minifyAll cx before [n.withoutEmptyTexts] = minifyAll cx before [n] := by
  match n with
  | .root children position =>
      have inside := filter_minifyAll_withoutEmptyTextsIn { cx with after := true } true true
        (fun _ => rfl) uncounted
      rw [Node.withoutEmptyTexts, minifyAll_root, minifyAll_root]
      dsimp only
      rw [inside]
  | .element tag properties children position =>
      let inner := cx.inside ⟨tag, properties, children, position⟩
      obtain ⟨filled, below⟩ := uncounted
      have inside := filter_minifyAll_withoutEmptyTextsIn inner (before || isBlockTag tag)
        (before || isBlockTag tag) (fun _ => rfl) below
      have around : cx.inside ⟨tag, properties, withoutEmptyTextsIn children, position⟩ =
          inner := rfl
      rw [Node.withoutEmptyTexts, minifyAll_element, minifyAll_element, around]
      refine Prod.ext (by dsimp only; rw [inside]) ?_
      dsimp only
      by_cases inline : isInlineTag tag
      · have empty : ∀ n ∈ children, isEmptyText n → inner.whiteSpace = .normal := by
          intro n member empty
          by_contra special
          exact filled special inline n member empty
        rw [minifyAll_withoutEmptyTextsIn inner _ below empty]
      · have ends (block : isBlockTag tag) : inner.after = true := by
          simp [inner, Surroundings.inside, block]
        exact strips_of_not_inline inline ends _ _
  | .text value position => rfl
  | .comment value position => rfl
  | .doctype position => rfl

theorem minifyAll_withoutEmptyTextsIn (cx : Surroundings) (before : Bool) {ns : List Node}
    (uncounted : CountNoEmptyTexts cx.whiteSpace ns)
    (empty : ∀ n ∈ ns, isEmptyText n → cx.whiteSpace = .normal) :
    minifyAll cx before (withoutEmptyTextsIn ns) = minifyAll cx before ns := by
  match ns with
  | [] => rfl
  | n :: ns =>
      obtain ⟨here, rest⟩ := List.forall_mem_cons.mp empty
      let around : Surroundings := { cx with after := (boundary ns).getD cx.after }
      have more := (minifyAll_withoutEmptyTextsIn cx · uncounted.2 rest)
      rw [withoutEmptyTextsIn, minifyAll_cons_alone cx before n]
      split
      next isEmpty =>
        obtain ⟨position, rfl⟩ := exists_of_isEmptyText isEmpty
        have nothing := (minifyAll_emptyText around before position).2 (here isEmpty)
        dsimp only
        rw [nothing, more]
        rfl
      next =>
        have filled := boundary_of_thinned (thinnedAll_withoutEmptyTextsIn ns)
        have first := minifyAll_withoutEmptyTexts around before uncounted.1
        rw [minifyAll_cons_alone, filled]
        dsimp only
        rw [first, more]

theorem filter_minifyAll_withoutEmptyTextsIn (cx : Surroundings) (before other : Bool)
    (same : cx.whiteSpace = .normal → other = before) {ns : List Node}
    (uncounted : CountNoEmptyTexts cx.whiteSpace ns) :
    (minifyAll cx other (withoutEmptyTextsIn ns)).1.filter (!isEmptyText ·) =
      (minifyAll cx before ns).1.filter (!isEmptyText ·) := by
  match ns with
  | [] => rfl
  | n :: ns =>
      let around : Surroundings := { cx with after := (boundary ns).getD cx.after }
      rw [withoutEmptyTextsIn, minifyAll_cons_alone cx before n]
      dsimp only
      rw [List.filter_append]
      split
      next isEmpty =>
        obtain ⟨position, rfl⟩ := exists_of_isEmptyText isEmpty
        obtain ⟨nothing, skipped⟩ := minifyAll_emptyText around before position
        have rest := filter_minifyAll_withoutEmptyTextsIn cx
          (minifyAll around before [.text "" position]).2 other
          (fun normal => (same normal).trans (by rw [skipped normal])) uncounted.2
        rw [nothing, rest]
        rfl
      next =>
        have filled := boundary_of_thinned (thinnedAll_withoutEmptyTextsIn ns)
        have first := minifyAll_withoutEmptyTexts around other uncounted.1
        have sameNode : (minifyAll around other [n]).1 = (minifyAll around before [n]).1 := by
          by_cases normal : cx.whiteSpace = .normal
          · rw [same normal]
          · exact minifyAll_node_special around normal other before n
        have rest := filter_minifyAll_withoutEmptyTextsIn cx
          (minifyAll around before [n]).2 (minifyAll around other [n]).2
          (fun normal => by rw [same normal]) uncounted.2
        rw [minifyAll_cons_alone, filled]
        dsimp only
        rw [List.filter_append, first, sameNode, rest]

end

theorem minify_withoutEmptyTexts (newlines : Bool) {n : Node}
    (uncounted : n.CountsNoEmptyText .normal) :
    n.withoutEmptyTexts.minify newlines = n.minify newlines := by
  have alone := congrArg Prod.fst
    (minifyAll_withoutEmptyTexts ⟨newlines, .normal, false, false⟩ false uncounted)
  cases n with
  | root children position => exact List.singleton_inj.mp alone
  | element tag properties children position => exact List.singleton_inj.mp alone
  | text value position => rfl
  | comment value position => rfl
  | doctype position => rfl

end Counted

/-- A second run changes what the first one left as if the empty texts had never been there, and
nothing where none of them counted. -/
theorem minify_again (newlines : Bool) (n : Node) :
    (n.minify newlines).minify newlines = n.withoutEmptyTexts.minify newlines ∧
      (n.CountsNoEmptyText .normal →
        (n.minify newlines).minify newlines = n.minify newlines) := by
  refine ⟨minify_minify newlines n, fun uncounted => ?_⟩
  rw [minify_minify, minify_withoutEmptyTexts newlines uncounted]

def emptiedPage : Node :=
  let element (tag : String) (children : List Node) : Node :=
    .element tag OrderedMap.empty children none
  .root [
    element "p" [.text "" none, element "nobr" [.text " a  b" none], .text " c " none],
    element "pre" [.text "" none, .text " d" none]] none

theorem minify_again_emptiedPage :
    emptiedPage.CountsNoEmptyText .normal ∧
      (emptiedPage.minify true).minify true = emptiedPage.minify true := by
  have uncounted : emptiedPage.CountsNoEmptyText .normal := by
    have block : isInlineTag "p" = false ∧ isInlineTag "pre" = false := by decide
    simp [emptiedPage, Node.CountsNoEmptyText, CountNoEmptyTexts, isEmptyText, block]
  exact ⟨uncounted, (minify_again true emptiedPage).2 uncounted⟩

/-- An empty text that counts: the space after it stays in the first run. -/
def countedPage : Node :=
  .root [.element "p" OrderedMap.empty [
    .element "nobr" OrderedMap.empty [.text "" none] none, .text " a" none] none] none

theorem minify_again_countedPage :
    (countedPage.minify false).marks .normal =
        [.bound, .opening "p", .opening "nobr", .closing "nobr", .char ' ', .char 'a', .closing "p",
          .bound] ∧
      ((countedPage.minify false).minify false).marks .normal =
        [.bound, .opening "p", .opening "nobr", .closing "nobr", .char 'a', .closing "p",
          .bound] := by
  decide +kernel

end HtmlToMarkdown.Html
