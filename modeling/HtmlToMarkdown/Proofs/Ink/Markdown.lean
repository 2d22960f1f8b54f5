import HtmlToMarkdown.Html.Whitespace
import HtmlToMarkdown.Proofs.Coercion
import HtmlToMarkdown.Proofs.Flow.Coverage
import HtmlToMarkdown.Proofs.Grid.Spread
import HtmlToMarkdown.Proofs.Normal

namespace HtmlToMarkdown

def inkOf (s : List Char) : List Char := s.filter (!Html.isWhite ·)

def ink (s : String) : List Char := inkOf s.toList

section Text

variable {s t : List Char}

@[simp] theorem inkOf_append (s t : List Char) : inkOf (s ++ t) = inkOf s ++ inkOf t :=
  List.filter_append s t

theorem inkOf_eq_nil (white : ∀ c ∈ s, Html.isWhite c) : inkOf s = [] := by
  apply List.filter_eq_nil_iff.mpr
  intro c member
  simp [white c member]

theorem inkOf_cons_of_white {c : Char} (white : Html.isWhite c) : inkOf (c :: s) = inkOf s := by
  simp [inkOf, white]

theorem inkOf_reverse (s : List Char) : inkOf s.reverse = (inkOf s).reverse :=
  List.filter_reverse

theorem inkOf_dropWhile {p : Char → Bool} (white : ∀ c, p c → Html.isWhite c) (s : List Char) :
    inkOf (s.dropWhile p) = inkOf s := by
  induction s with
  | nil => rfl
  | cons c s ih =>
      by_cases dropped : p c
      · rw [List.dropWhile_cons_of_pos dropped, ih, inkOf_cons_of_white (white c dropped)]
      · rw [List.dropWhile_cons_of_neg dropped]

theorem inkOf_dropRightWhile {p : Char → Bool} (white : ∀ c, p c → Html.isWhite c)
    (s : List Char) : inkOf (Text.dropRightWhile p s) = inkOf s := by
  rw [Text.dropRightWhile, inkOf_reverse, inkOf_dropWhile white, inkOf_reverse,
    List.reverse_reverse]

@[simp] theorem ink_append (s t : String) : ink (s ++ t) = ink s ++ ink t := by
  rw [ink, String.toList_append, inkOf_append]
  rfl

theorem ink_ofList (s : List Char) : ink (String.ofList s) = inkOf s := by
  rw [ink, String.toList_ofList]

theorem isWhite_of_isSpace {c : Char} (space : Text.isSpace c) : Html.isWhite c := by
  simp [Html.isWhite, space]

theorem isWhite_of_isTabOrSpace {c : Char} (blank : Text.isTabOrSpace c) : Html.isWhite c :=
  isWhite_of_isSpace (by simp [Text.isSpace, blank])

theorem isWhite_of_isLineEnd {c : Char} (lineEnd : Text.isLineEnd c) : Html.isWhite c :=
  isWhite_of_isSpace (by simp [Text.isSpace, lineEnd])

end Text

namespace Markdown

open Node (textContentOf)

section Siblings

variable {ms ns : List Node}

@[simp] theorem ink_textContentOf_cons (n : Node) (ns : List Node) :
    ink (textContentOf (n :: ns)) = ink n.textContent ++ ink (textContentOf ns) := by
  rw [textContentOf, ink_append]

theorem ink_textContentOf_append (ms ns : List Node) :
    ink (textContentOf (ms ++ ns)) = ink (textContentOf ms) ++ ink (textContentOf ns) := by
  rw [textContentOf_append, ink_append]

theorem textContentOf_eq_empty (empty : ∀ n ∈ ns, n.textContent = "") : textContentOf ns = "" := by
  induction ns with
  | nil => rfl
  | cons n ns ih =>
      obtain ⟨here, rest⟩ := List.forall_mem_cons.mp empty
      rw [textContentOf, here, ih rest, String.empty_append]

theorem textContent_of_isBreak {n : Node} (isBreak : n.isBreak) : n.textContent = "" := by
  cases n with
  | parent shape origin children => cases isBreak
  | leaf content origin => cases content <;> first | rfl | cases isBreak

theorem textContentOf_dropSurroundingBreaks (ns : List Node) :
    textContentOf (dropSurroundingBreaks ns) = textContentOf ns := by
  obtain ⟨front, back, breaks, same⟩ := exists_of_dropSurroundingBreaks ns
  have ends : ∀ n ∈ front ++ back, n.textContent = "" :=
    fun n member => textContent_of_isBreak (breaks n member)
  have noFront := textContentOf_eq_empty fun n member => ends n (List.mem_append_left _ member)
  have noBack := textContentOf_eq_empty fun n member => ends n (List.mem_append_right _ member)
  calc textContentOf (dropSurroundingBreaks ns)
    _ = textContentOf front ++ textContentOf (dropSurroundingBreaks ns) ++ textContentOf back := by
      rw [noFront, noBack, String.empty_append, String.append_empty]
    _ = textContentOf (front ++ dropSurroundingBreaks ns ++ back) := by
      rw [textContentOf_append, textContentOf_append]
    _ = textContentOf ns := by rw [← same]

end Siblings

section Flow

mutual

theorem ink_sightings (around : List Cover) (n : Node) :
    (n.sightings around).flatMap (fun s => ink s.content.textContent) = ink n.textContent := by
  match n with
  | .leaf content origin => exact List.append_nil _
  | .parent shape origin children =>
      rw [Node.sightings, Node.textContent]
      exact ink_sightingsAll _ children

theorem ink_sightingsAll (around : List Cover) (ns : List Node) :
    (sightingsAll around ns).flatMap (fun s => ink s.content.textContent) =
      ink (textContentOf ns) := by
  match ns with
  | [] => rfl
  | n :: ns =>
      rw [sightingsAll, List.flatMap_append, ink_sightings around n, ink_sightingsAll around ns,
        ink_textContentOf_cons]

end

theorem ink_of_not_isLiteral {s : Sighting} (hidden : ¬ s.isLiteral) :
    ink s.content.textContent = [] := by
  obtain ⟨content, origin, covers⟩ := s
  cases content with
  | text value =>
      have white : value.toList.all Text.isSpace := by
        simpa [Sighting.isLiteral, Node.isBreak, Node.isWhitespaceText] using hidden
      exact inkOf_eq_nil fun c member => isWhite_of_isSpace (List.all_eq_true.mp white c member)
  | lineBreak => rfl
  | _ => simp [Sighting.isLiteral, Node.isBreak, Node.isWhitespaceText] at hidden

theorem ink_traces (ns : List Node) :
    (traces [] ns).flatMap (fun t => ink t.1.textContent) = ink (textContentOf ns) := by
  rw [← ink_sightingsAll [] ns, traces, List.flatMap_map]
  induction sightingsAll [] ns with
  | nil => rfl
  | cons s sightings ih =>
      by_cases literal : s.isLiteral
      · rw [List.filter_cons_of_pos literal, List.flatMap_cons, ih, List.flatMap_cons]
        rfl
      · rw [List.filter_cons_of_neg literal, ih, List.flatMap_cons, ink_of_not_isLiteral literal,
          List.nil_append]

theorem ink_wrap {ns : List Node} (regular : ∀ n ∈ ns, n.Throughout Node.Regular) :
    ink (textContentOf (wrap ns)) = ink (textContentOf ns) := by
  rw [← ink_traces, traces_wrap regular, ink_traces]

end Flow

section Grid

theorem textContentOf_replicate_emptyCell (k : Nat) :
    textContentOf (List.replicate k emptyCell) = "" :=
  textContentOf_eq_empty fun n member => by rw [List.eq_of_mem_replicate member]; rfl

theorem Spread.textContentOf_eq {cells : List Cell} {nodes : List Node}
    (spread : Spread cells nodes) : textContentOf nodes = textContentOf (cells.map Prod.fst) := by
  induction spread with
  | done => rfl
  | empty rest ih =>
      rw [textContentOf, ih]
      exact String.empty_append
  | cell n span rest ih =>
      rw [List.cons_append, textContentOf, textContentOf_append, textContentOf_replicate_emptyCell,
        String.empty_append, ih, List.map_cons, textContentOf]

theorem textContentOf_refilled {rows filled : List Node}
    (related : List.Forall₂ Refilled rows filled) : textContentOf filled = textContentOf rows := by
  induction related with
  | nil => rfl
  | cons here _ ih =>
      cases here with
      | @row origin children nodes cells own spread =>
          have text : textContentOf nodes = textContentOf children := by
            rw [spread.textContentOf_eq, own]
            exact textContentOf_coerce .tableCell children
          have refilled : (Node.parent .tableRow origin nodes).textContent =
              (Node.parent .tableRow origin children).textContent := text
          rw [textContentOf, textContentOf, refilled, ih]

theorem textContentOf_givenRows (headless : Bool) (rows : List Node) :
    textContentOf (givenRows headless rows) = textContentOf rows := by
  cases headless with
  | false => rfl
  | true => exact String.empty_append

theorem textContentOf_rectangle (headless : Bool) (align : List (Option Align)) {rows : List Node}
    (spans : List (List Html.CellSpan)) (kinds : ∀ r ∈ rows, r.kind = .tableRow) :
    textContentOf (rectangle headless align rows spans).2 = textContentOf rows := by
  rw [← textContentOf_givenRows headless rows]
  exact textContentOf_refilled (refilled_rectangle headless align rows spans kinds)

end Grid

section Normal

theorem inkOf_joinLinesFrom (afterLine : Bool) (held s : List Char)
    (blank : ∀ c ∈ held, Html.isWhite c) : inkOf (joinLinesFrom afterLine held s) = inkOf s := by
  have none : inkOf held.reverse = [] :=
    inkOf_eq_nil fun c member => blank c (List.mem_reverse.mp member)
  fun_induction joinLinesFrom afterLine held s with
  | case1 held => exact none
  | case2 held c s tab =>
      rename_i ih
      rw [ih (by simp) rfl, inkOf_cons_of_white (isWhite_of_isTabOrSpace tab)]
  | case3 afterLine held c s tab =>
      rename_i ih
      have white := isWhite_of_isTabOrSpace tab
      have more : ∀ d ∈ c :: held, Html.isWhite d :=
        List.forall_mem_cons.mpr ⟨white, blank⟩
      rw [ih more, inkOf_cons_of_white white]
      exact inkOf_eq_nil fun d member => more d (List.mem_reverse.mp member)
  | case4 afterLine held c s tab lineEnd =>
      rename_i ih
      have white := isWhite_of_isLineEnd lineEnd
      rw [inkOf_cons_of_white white, ih (by simp) rfl, inkOf_cons_of_white white]
  | case5 afterLine held c s tab lineEnd =>
      rename_i ih
      have rest := ih (by simp) rfl
      rw [inkOf_append, none, List.nil_append, inkOf, inkOf, List.filter_cons, List.filter_cons]
      split
      · exact congrArg (c :: ·) rest
      · exact rest

theorem ink_tidy (first last : Bool) (value : String) :
    ink (tidy first last value) = ink value := by
  have joined : inkOf (joinLines value.toList) = ink value :=
    inkOf_joinLinesFrom false [] _ (by simp)
  have white : ∀ c, Text.isTabOrSpace c → Html.isWhite c := fun _ => isWhite_of_isTabOrSpace
  simp only [tidy]
  rw [ink_ofList, ← joined]
  cases first <;> cases last
  · rfl
  · exact inkOf_dropRightWhile white _
  · exact inkOf_dropWhile white _
  · exact (inkOf_dropRightWhile white _).trans (inkOf_dropWhile white _)

theorem textContentOf_mergeTexts (held : Option (String × Origin)) (ns : List Node) :
    textContentOf (mergeTexts held ns) = textContentOf (heldText held) ++ textContentOf ns := by
  fun_induction mergeTexts held ns with
  | case1 held => simp
  | case2 value origin ns =>
      rename_i ih
      simp [ih, heldText]
  | case3 value origin more next ns =>
      rename_i ih
      simp [ih, heldText, Leaf.textContent, String.append_assoc]
  | case4 held n ns =>
      rename_i ih
      simp [ih, heldText]

theorem ink_tidyTexts (trims first : Bool) (ns : List Node) :
    ink (textContentOf (tidyTexts trims first ns)) = ink (textContentOf ns) := by
  fun_induction tidyTexts trims first ns with
  | case1 => rfl
  | case2 first value origin ns tidied empty =>
      rename_i ih
      have none : ink value = [] := by
        rw [← ink_tidy (trims && first) (trims && ns.isEmpty) value]
        exact congrArg ink (eq_of_beq empty)
      rw [ih, ink_textContentOf_cons]
      simp [Leaf.textContent, none]
  | case3 first value origin ns tidied filled =>
      rename_i ih
      rw [ink_textContentOf_cons, ink_textContentOf_cons, ih]
      exact congrArg (· ++ _) (ink_tidy _ _ value)
  | case4 first n ns =>
      rename_i ih
      rw [ink_textContentOf_cons, ink_textContentOf_cons, ih]

theorem ink_normalize (n : Node) : ink n.normalize.textContent = ink n.textContent := by
  induction n using Node.induction with
  | leaf content origin => rfl
  | parent shape origin children ih =>
      have below : ink (textContentOf (normalizeAll children)) = ink (textContentOf children) := by
        rw [normalizeAll_eq_map]
        clear origin shape
        induction children with
        | nil => rfl
        | cons c cs rest =>
            rw [List.map_cons, ink_textContentOf_cons, ink_textContentOf_cons,
              ih c List.mem_cons_self, rest fun d member => ih d (List.mem_cons_of_mem _ member)]
      rw [Node.normalize, Node.textContent, Node.textContent, ink_tidyTexts,
        textContentOf_mergeTexts, heldText, textContentOf, String.empty_append, below]

end Normal

end Markdown

end HtmlToMarkdown
