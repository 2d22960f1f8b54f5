import HtmlToMarkdown.Proofs.Whitespace.Marks

/-!
Minification in terms of readings. The texts of a tree are collapsed and trimmed one by one, with
what surrounds each of them; read from start to end, the result is what settling leaves of the
reading of the tree.
-/

namespace HtmlToMarkdown.Html

section Characters

variable {c : Char} {s : List Char}

theorem not_isRemovable (ink : ¬ isWhite c) : ¬ isRemovable c :=
  fun removable => ink (isWhite_of_isRemovable removable)

def afterWhite (s : List Char) : List Char := (collapseFrom false [' '] s).tail

theorem collapseFrom_of_filled {run : List Char} (filled : run ≠ []) :
    collapseFrom false run s = ' ' :: afterWhite s := by
  induction s generalizing run with
  | nil => simp [collapseFrom, collapsedRun, afterWhite, filled]
  | cons c s ih =>
      rw [afterWhite, collapseFrom, collapseFrom]
      split
      · rw [ih (List.cons_ne_nil _ _), ih (List.cons_ne_nil _ _), List.tail_cons]
      · simp [collapsedRun, filled]

@[simp] theorem collapse_nil : collapse false [] = [] := rfl

@[simp] theorem afterWhite_nil : afterWhite [] = [] := rfl

theorem collapse_cons_of_white (white : isWhite c) :
    collapse false (c :: s) = ' ' :: afterWhite s := by
  rw [collapse, collapseFrom, if_pos white, collapseFrom_of_filled (List.cons_ne_nil _ _)]

theorem collapse_cons_of_ink (ink : ¬ isWhite c) :
    collapse false (c :: s) = c :: collapse false s := by
  rw [collapse, collapseFrom, if_neg ink]
  rfl

theorem afterWhite_cons_of_white (white : isWhite c) : afterWhite (c :: s) = afterWhite s := by
  rw [afterWhite, collapseFrom, if_pos white, collapseFrom_of_filled (List.cons_ne_nil _ _),
    List.tail_cons]

theorem afterWhite_cons_of_ink (ink : ¬ isWhite c) :
    afterWhite (c :: s) = c :: collapse false s := by
  rw [afterWhite, collapseFrom, if_neg ink]
  rfl

theorem afterWhite_eq_nil_iff : afterWhite s = [] ↔ s.all isWhite := by
  induction s with
  | nil => simp
  | cons c s ih =>
      by_cases white : isWhite c
      · simp [afterWhite_cons_of_white white, ih, white]
      · simp [afterWhite_cons_of_ink white, white]

theorem collapse_eq_nil_iff : collapse false s = [] ↔ s = [] := by
  cases s with
  | nil => simp
  | cons c s =>
      by_cases white : isWhite c
      · simp [collapse_cons_of_white white]
      · simp [collapse_cons_of_ink white]

/-- Characters without the white one at their end if that may go, and whether white space after
them may go because one stays. -/
def trimEnd (after : Bool) (s : List Char) : List Char × Bool :=
  if (s.getLast?.map isRemovable).getD false then
    if after then (s.dropLast, false) else (s, true)
  else (s, false)

variable (after : Bool)

theorem trimEnd_cons (filled : s ≠ []) :
    trimEnd after (c :: s) = (c :: (trimEnd after s).1, (trimEnd after s).2) := by
  obtain ⟨d, s, rfl⟩ := List.exists_cons_of_ne_nil filled
  rw [trimEnd, trimEnd, List.getLast?_cons_cons, List.dropLast_cons_cons]
  split
  · split <;> rfl
  · rfl

theorem trimEnd_cons_of_ink (ink : ¬ isWhite c) :
    trimEnd after (c :: s) = (c :: (trimEnd after s).1, (trimEnd after s).2) := by
  by_cases empty : s = []
  · simp [empty, trimEnd, not_isRemovable ink]
  · exact trimEnd_cons after empty

theorem trimEnd_of_white (white : s.all isWhite) :
    trimEnd true (collapse false s) = ([], false) := by
  cases s with
  | nil => rfl
  | cons c s =>
      obtain ⟨here, rest⟩ : isWhite c ∧ s.all isWhite := by simpa using white
      rw [collapse_cons_of_white here, afterWhite_eq_nil_iff.mpr rest]
      rfl

/-- Both at once: a white character that stays makes those after it go. -/
theorem settle_chars (s : List Char) :
    settle after false (s.map .char) =
        ((trimEnd after (collapse false s)).1.map .char, (trimEnd after (collapse false s)).2) ∧
      settle after true (s.map .char) =
        ((trimEnd after (afterWhite s)).1.map .char,
          if afterWhite s = [] then true else (trimEnd after (afterWhite s)).2) := by
  induction s with
  | nil => exact ⟨rfl, rfl⟩
  | cons c s ih =>
      obtain ⟨ihKept, ihDropped⟩ := ih
      by_cases white : isWhite c
      · have next : ∀ before, (Mark.char c).settle before ((ahead (s.map .char)).getD after) =
            if before || (s.all isWhite && after) then ([], before) else ([.char ' '], true) := by
          intro before
          rw [ahead_chars]
          cases s.all isWhite <;> simp [Mark.settle, white]
        simp only [List.map_cons, settle, next, afterWhite_cons_of_white white,
          collapse_cons_of_white white]
        refine ⟨?_, by simp [ihDropped]⟩
        -- White space up to the end of the text: what comes after the text decides.
        by_cases rest : s.all isWhite
        · have none := afterWhite_eq_nil_iff.mpr rest
          cases after with
          | true =>
              have goes : trimEnd true [' '] = ([], false) := rfl
              simp [rest, none, ihKept, trimEnd_of_white rest, goes]
          | false =>
              have stays : trimEnd false [' '] = ([' '], true) := rfl
              have nothing : trimEnd false [] = ([], false) := rfl
              simp [none, ihDropped, stays, nothing]
        · have filled : afterWhite s ≠ [] := fun none => rest (afterWhite_eq_nil_iff.mp none)
          simp [rest, filled, ihDropped, trimEnd_cons after filled]
      · simp [settle, Mark.settle, white, ihKept, collapse_cons_of_ink, afterWhite_cons_of_ink,
          trimEnd_cons_of_ink]

theorem trimEnd_snd_of_empty (empty : (trimEnd after s).1 = []) : (trimEnd after s).2 = false := by
  unfold trimEnd at empty ⊢
  cases s with
  | nil => rfl
  | cons c s =>
      split at empty
      next removable =>
        rw [if_pos removable]
        cases after with
        | true => rfl
        | false => cases empty
      next => cases empty

theorem trimEnd_afterWhite_eq_nil_iff :
    (trimEnd after (afterWhite s)).1 = [] ↔ afterWhite s = [] := by
  induction s with
  | nil => simp [trimEnd]
  | cons c s ih =>
      by_cases white : isWhite c
      · rw [afterWhite_cons_of_white white, ih]
      · simp [afterWhite_cons_of_ink white, trimEnd_cons_of_ink after white]

/-- Settling characters collapses and trims them. -/
theorem settle_map_char (before : Bool) (s : List Char) :
    settle after before (s.map .char) =
      let kept := trimEnd after (if before then afterWhite s else collapse false s)
      (kept.1.map .char, if kept.1 = [] then before else kept.2) := by
  obtain ⟨kept, dropped⟩ := settle_chars after s
  cases before with
  | true => simp [dropped, trimEnd_afterWhite_eq_nil_iff]
  | false =>
      rw [kept]
      by_cases empty : (trimEnd after (collapse false s)).1 = []
      · simp [empty, trimEnd_snd_of_empty after empty]
      · simp [empty]

def opensRemovable (s : List Char) : Bool := (s.head?.map isRemovable).getD false

def trimStart (before : Bool) (s : List Char) : List Char :=
  if before && opensRemovable s then s.tail else s

theorem trimText_eq (cx : Surroundings) (s : List Char) :
    trimText cx s =
      let kept := trimEnd cx.after (trimStart cx.before s)
      (kept.1, if kept.1.isEmpty then .removed else .kept kept.2) := by
  have start : (if cx.before && (s.head?.map isRemovable).getD false then s.tail else s) =
      trimStart cx.before s := rfl
  simp only [trimText, start]
  generalize trimStart cx.before s = t
  unfold trimEnd
  split
  next removable =>
    cases cx.after with
    | true => rfl
    | false =>
        cases t with
        | nil => cases removable
        | cons c t => rfl
  next => rfl

/-- Where the text may lose its first white character, it is as if it stood after another one. -/
theorem trimStart_collapse (before : Bool) (s : List Char) :
    trimStart before (collapse false s) = if before then afterWhite s else collapse false s := by
  cases before with
  | false => rfl
  | true =>
      cases s with
      | nil => rfl
      | cons c s =>
          by_cases white : isWhite c
          · simp [trimStart, opensRemovable, collapse_cons_of_white white,
              afterWhite_cons_of_white white, isRemovable]
          · simp [trimStart, opensRemovable, collapse_cons_of_ink white,
              afterWhite_cons_of_ink white, not_isRemovable white]

theorem trimText_collapse (cx : Surroundings) (s : List Char) :
    trimText cx (collapse false s) =
      let kept := trimEnd cx.after (if cx.before then afterWhite s else collapse false s)
      (kept.1, if kept.1.isEmpty then .removed else .kept kept.2) := by
  rw [trimText_eq, trimStart_collapse]

end Characters

def remains (r : Node × Outcome) : List Node := if r.2 = .removed then [] else [r.1]

def stripNext (before : Bool) (r : Node × Outcome) : Bool :=
  if r.2 = .removed then before else stripAfter before r.1 r.2

theorem minifyAll_cons (cx : Surroundings) (before : Bool) (n : Node) (ns : List Node) :
    minifyAll cx before (n :: ns) =
      let r := minifyNode { cx with before := before, after := (boundary ns).getD cx.after } n
      let more := minifyAll cx (stripNext before r) ns
      (remains r ++ more.1, more.2) := by
  rw [minifyAll]
  dsimp only
  generalize minifyNode { cx with before := before, after := (boundary ns).getD cx.after } n = r
  unfold remains stripNext
  split <;> rfl

@[simp] theorem isBreak_text (value : String) (position : Option Position) :
    isBreak (.text value position) = false := rfl

@[simp] theorem isContent_text (value : String) (position : Option Position) :
    isContent (.text value position) = false := rfl

theorem settle_fixed {cx : Surroundings} (special : cx.whiteSpace ≠ .normal) {value other : String}
    (same : ink other = ink value) (empty : other = "" ↔ value = "") (position : Option Position) :
    settle cx.after cx.before ((Node.text value position).marks cx.whiteSpace) =
      let r : Node × Outcome := (.text other position, .kept false)
      (marksOf cx.whiteSpace ((remains r).filter (!isEmptyText ·)), stripNext cx.before r) := by
  have both : (other == "") = (value == "") := by simp [empty]
  by_cases none : value = ""
  · simp [Node.marks, special, none, empty.mpr none, settle, Mark.settle, remains, isEmptyText,
      marksOf, stripNext, stripAfter]
  · simp [Node.marks, special, none, both, same, settle, Mark.settle, remains, isEmptyText,
      marksOf, stripNext, stripAfter]

theorem settle_normal {cx : Surroundings} (plain : cx.newlines = false)
    (normal : cx.whiteSpace = .normal) (value : String) (position : Option Position) :
    settle cx.after cx.before ((Node.text value position).marks cx.whiteSpace) =
      let r := minifyNode cx (.text value position)
      (marksOf cx.whiteSpace ((remains r).filter (!isEmptyText ·)), stripNext cx.before r) := by
  have trimmed := trimText_collapse cx value.toList
  simp only [Node.marks, normal, if_true, minifyNode, minifyText, plain, settle_map_char, trimmed]
  generalize trimEnd cx.after
    (if cx.before then afterWhite value.toList else collapse false value.toList) = kept
  by_cases empty : kept.1 = []
  · simp [empty, remains, stripNext, marksOf]
  · have filled : String.ofList kept.1 ≠ "" := by
      rw [Ne, ← String.toList_inj, String.toList_ofList]
      exact empty
    simp [empty, filled, remains, stripNext, stripAfter, isEmptyText, marksOf, Node.marks]

theorem settle_text (cx : Surroundings) (plain : cx.newlines = false) (value : String)
    (position : Option Position) :
    settle cx.after cx.before ((Node.text value position).marks cx.whiteSpace) =
      let r := minifyNode cx (.text value position)
      (marksOf cx.whiteSpace ((remains r).filter (!isEmptyText ·)), stripNext cx.before r) := by
  cases treated : cx.whiteSpace with
  | normal => exact treated ▸ settle_normal plain treated value position
  | verbatim =>
      have special : cx.whiteSpace ≠ .normal := by simp [treated]
      have same := settle_fixed special (rfl : ink value = ink value) Iff.rfl position
      simpa only [minifyNode, minifyText, treated] using same
  | nowrap =>
      have special : cx.whiteSpace ≠ .normal := by simp [treated]
      have kept : ink (String.ofList (collapse false value.toList)) = ink value := by
        rw [ink_ofList]
        exact inkOf_collapseFrom false [] value.toList
      have empty : String.ofList (collapse false value.toList) = "" ↔ value = "" := by
        rw [← String.toList_inj, String.toList_ofList, ← String.toList_inj]
        exact collapse_eq_nil_iff
      have same := settle_fixed special kept empty position
      simpa only [minifyNode, minifyText, treated, plain] using same

mutual

/-- Settling the reading of a node gives the reading of what minification leaves of it. -/
theorem settle_minifyNode (cx : Surroundings) (plain : cx.newlines = false) {n : Node}
    (laid : n.Throughout Node.Laid) :
    settle cx.after cx.before (n.marks cx.whiteSpace) =
      let r := minifyNode cx n
      (marksOf cx.whiteSpace ((remains r).filter (!isEmptyText ·)), stripNext cx.before r) := by
  match n with
  | .root children position => exact absurd trivial laid.1.1
  | .text value position => exact settle_text cx plain value position
  | .comment value position => rfl
  | .doctype position => rfl
  | .element tag properties children position =>
      obtain ⟨⟨-, -, childless⟩, inside⟩ := laid
      let e : Element := ⟨tag, properties, children, position⟩
      have content := settle_minifyAll (cx.inside e) plain (cx.inside e).before inside
      have element : ∀ fewer, isEmptyText (.element tag properties fewer position) = false :=
        fun _ => rfl
      by_cases br : tag == "br"
      · have none : children = [] := childless (eq_of_beq br)
        subst none
        simp [minifyNode, minifyAll, remains, stripNext, stripAfter, isBreak, Node.isTag,
          Node.asElement?, br, element, Node.marks, marksOf, settle, Mark.settle]
      · have shape : ∀ fewer, (Node.element tag properties fewer position).marks cx.whiteSpace =
            .opening tag :: marksOf (cx.inside e).whiteSpace fewer ++ [.closing tag] := by
          intro fewer
          rw [Node.marks, if_neg br]
          rfl
        -- The closing tag decides for the content of a block, and what follows for any other.
        have closing : (ahead [Mark.closing tag]).getD cx.after = (cx.inside e).after := by
          rw [ahead_cons, Mark.announces, Surroundings.inside]
          cases isBlockTag tag <;> simp [ahead]
        have opened : settle (cx.inside e).after (cx.before || isBlockTag tag)
            (marksOf (cx.inside e).whiteSpace children) = _ := content
        have last : (ahead []).getD cx.after = cx.after := rfl
        have after : (isBlockTag tag || cx.after) = (cx.inside e).after := Bool.or_comm _ _
        simp only [shape, List.cons_append, settle, settle_append, closing, Mark.settle, opened,
          last, after]
        simp [minifyNode, remains, stripNext, stripAfter, isBreak, isContent, Node.isTag,
          Node.asElement?, br, element, marksOf, shape, e]

theorem settle_minifyAll (cx : Surroundings) (plain : cx.newlines = false) (before : Bool)
    {ns : List Node} (laid : ThroughoutAll Node.Laid ns) :
    settle cx.after before (marksOf cx.whiteSpace ns) =
      let r := minifyAll cx before ns
      (marksOf cx.whiteSpace (r.1.filter (!isEmptyText ·)), r.2) := by
  match ns with
  | [] => rfl
  | n :: ns =>
      obtain ⟨here, rest⟩ := laid
      let around : Surroundings :=
        { cx with before := before, after := (boundary ns).getD cx.after }
      have first := settle_minifyNode around plain here
      have more := settle_minifyAll cx plain (stripNext before (minifyNode around n)) rest
      have next : around.after = (ahead (marksOf cx.whiteSpace ns)).getD cx.after := by
        rw [← boundary_eq cx.whiteSpace rest]
      have reading : settle around.after before (n.marks cx.whiteSpace) = _ := first
      rw [marksOf, settle_append, ← next, reading, minifyAll_cons]
      dsimp only
      rw [more, List.filter_append, marksOf_append]

end

theorem marksOf_filter (n : Node) :
    marksOf .normal ([n].filter (!isEmptyText ·)) = n.marks .normal := by
  by_cases empty : isEmptyText n
  · rw [List.filter_cons_of_neg (by simpa using empty)]
    obtain ⟨position, rfl⟩ := exists_of_isEmptyText empty
    rfl
  · rw [List.filter_cons_of_pos (by simpa using empty), List.filter_nil, marksOf, marksOf,
      List.append_nil]

theorem eq_empty_of_removed {n : Node}
    (removed : (minifyNode ⟨false, .normal, false, false⟩ n).2 = .removed) :
    ∃ position, n = .text "" position := by
  cases n with
  | text value position =>
      have kept : (trimEnd false (collapse false value.toList)).1 = [] := by
        by_contra filled
        simp [minifyNode, minifyText, trimText_collapse, filled] at removed
      have none : collapse false value.toList = [] := by
        simpa [trimEnd, apply_ite Prod.fst] using kept
      rw [collapse_eq_nil_iff, ← String.toList_empty, String.toList_inj] at none
      exact ⟨position, none ▸ rfl⟩
  | _ => simp [minifyNode] at removed

theorem marks_minify_of_laid {n : Node} (laid : n.Throughout Node.Laid) :
    (n.minify false).marks .normal = (settle false false (n.marks .normal)).1 := by
  have settled := settle_minifyNode ⟨false, .normal, false, false⟩ rfl laid
  rw [Node.minify, settled]
  dsimp only
  by_cases removed : (minifyNode ⟨false, .normal, false, false⟩ n).2 = .removed
  · obtain ⟨position, rfl⟩ := eq_empty_of_removed removed
    rfl
  · rw [remains, if_neg removed, marksOf_filter]

/-- The reading of a minified tree is what settling leaves of that of the tree. -/
theorem marks_minify {n : Node} (rooted : ∀ m ∈ n.children, m.Throughout (¬ ·.IsRoot))
    (shown : n.Throughout Node.Shown) :
    (n.minify false).marks .normal = (settle false false (n.marks .normal)).1 := by
  cases n with
  | root children position =>
      have laid : ThroughoutAll Node.Laid children := (throughoutAll_iff.mpr rooted).and shown.2
      have content := settle_minifyAll ⟨false, .normal, false, true⟩ rfl true laid
      have opened : settle true true (marksOf .normal children) = _ := content
      have ends : (ahead [Mark.bound]).getD false = true := rfl
      simp only [Node.minify, minifyNode, Node.marks, List.cons_append, settle, settle_append,
        Mark.settle, ends, opened]
      rfl
  | element tag properties children position =>
      have inside := (throughoutAll_iff.mpr rooted).and shown.2
      exact marks_minify_of_laid (n := .element tag properties children position)
        ⟨⟨id, shown.1⟩, inside⟩
  | text value position => exact marks_minify_of_laid (n := .text value position) ⟨id, trivial⟩
  | comment value position => rfl
  | doctype position => rfl

end HtmlToMarkdown.Html
