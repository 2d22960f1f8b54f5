import HtmlToMarkdown.Proofs.Whitespace.Nodewise

/-!
Line endings of two characters. Minification that keeps line endings gives the same for a tree with
carriage returns before its line feeds as for one without, except where it takes such a line ending
apart, and where a carriage return would come to stand before a line feed that it did not belong to.
-/

namespace HtmlToMarkdown.Html

/-- The characters with a line feed for each line ending of two characters. -/
def lineFeeds : List Char → List Char
  | '\r' :: '\n' :: s => '\n' :: lineFeeds s
  | c :: s => c :: lineFeeds s
  | [] => []

section Characters

variable {s t run : List Char} {c : Char}

@[simp] theorem lineFeeds_nil : lineFeeds [] = [] := rfl

theorem lineFeeds_pair (s : List Char) : lineFeeds ('\r' :: '\n' :: s) = '\n' :: lineFeeds s := rfl

theorem lineFeeds_cons (apart : ¬ (c = '\r' ∧ s.head? = some '\n')) :
    lineFeeds (c :: s) = c :: lineFeeds s := by
  rw [lineFeeds]
  rintro s rfl rfl
  exact apart ⟨rfl, rfl⟩

theorem lineFeeds_append (apart : ¬ (s.getLast? = some '\r' ∧ t.head? = some '\n')) :
    lineFeeds (s ++ t) = lineFeeds s ++ lineFeeds t := by
  fun_induction lineFeeds s with
  | case1 s ih =>
      have later : ¬ (s.getLast? = some '\r' ∧ t.head? = some '\n') := fun ⟨last, first⟩ =>
        apart ⟨by simp [List.getLast?_cons, last], first⟩
      rw [List.cons_append, List.cons_append, lineFeeds_pair, ih later, List.cons_append]
  | case2 c s other ih =>
      have later : ¬ (s.getLast? = some '\r' ∧ t.head? = some '\n') := fun ⟨last, first⟩ =>
        apart ⟨by simp [List.getLast?_cons, last], first⟩
      have here : ¬ (c = '\r' ∧ (s ++ t).head? = some '\n') := by
        rintro ⟨rfl, first⟩
        cases s with
        | nil => exact apart ⟨rfl, first⟩
        | cons d s => exact other s rfl (congrArg (· :: s) (Option.some.inj first))
      rw [List.cons_append, lineFeeds_cons here, ih later, List.cons_append]
  | case3 => rfl

theorem lineFeeds_sublist (s : List Char) : (lineFeeds s).Sublist s := by
  fun_induction lineFeeds s with
  | case1 s ih => exact (ih.cons_cons '\n').cons '\r'
  | case2 c s other ih => exact ih.cons_cons c
  | case3 => exact List.Sublist.slnil

theorem lineFeeds_eq_nil : lineFeeds s = [] ↔ s = [] := by
  fun_cases lineFeeds s <;> simp

theorem head?_lineFeeds (apart : ¬ ['\r', '\n'] <+: s) : (lineFeeds s).head? = s.head? := by
  fun_cases lineFeeds s with
  | case1 s => exact absurd ⟨s, rfl⟩ apart
  | case2 c s other => rfl
  | case3 => rfl

theorem getLast?_lineFeeds (s : List Char) : (lineFeeds s).getLast? = s.getLast? := by
  fun_induction lineFeeds s with
  | case1 s ih => simp [List.getLast?_cons, ih]
  | case2 c s other ih => simp [List.getLast?_cons, ih]
  | case3 => rfl

theorem inkOf_lineFeeds (s : List Char) : inkOf (lineFeeds s) = inkOf s := by
  fun_induction lineFeeds s with
  | case1 s ih =>
      rw [inkOf_cons_of_white rfl, inkOf_cons_of_white rfl, inkOf_cons_of_white rfl, ih]
  | case2 c s other ih => rw [← List.singleton_append, inkOf_append, ih, ← inkOf_append]; rfl
  | case3 => rfl

end Characters

section Collapsing

variable {s run : List Char}

/-- The first line ending is a carriage return that stands right before one of two characters. -/
def opensPair : List Char → Bool
  | '\r' :: '\r' :: '\n' :: _ => true
  | c :: s => c != '\r' && c != '\n' && opensPair s
  | [] => false

theorem firstLineEnd_return (apart : s.head? ≠ some '\n') :
    firstLineEnd ('\r' :: s) = some ['\r'] := by
  rw [firstLineEnd]
  rintro s rfl
  exact apart rfl

theorem firstLineEnd_lineFeeds (apart : ¬ opensPair s) :
    firstLineEnd (lineFeeds s) = (firstLineEnd s).map lineFeeds := by
  fun_induction firstLineEnd s with
  | case1 => rfl
  | case2 s => rfl
  | case3 s other =>
      have here : s.head? ≠ some '\n' := by
        cases s with
        | nil => exact (Option.some_ne_none '\n').symm
        | cons d s => exact fun first => other s (congrArg (· :: s) (Option.some.inj first))
      have next : ¬ ['\r', '\n'] <+: s := by
        rintro ⟨s, rfl⟩
        exact apart rfl
      rw [lineFeeds_cons fun both => here both.2, firstLineEnd_return]
      · rfl
      · rwa [head?_lineFeeds next]
  | case4 s => rw [lineFeeds_cons (fun both => absurd both.1 (by decide))]; rfl
  | case5 c s noPair noReturn noFeed ih =>
      have later : ¬ opensPair s := by
        rwa [opensPair, bne_iff_ne.mpr noReturn, bne_iff_ne.mpr noFeed] at apart
        exact fun s reversed => (noReturn reversed).elim
      rw [lineFeeds_cons fun both => noReturn both.1, ← ih later, firstLineEnd]
      · exact fun s reversed => (noReturn reversed).elim
      · exact noReturn
      · exact noFeed

theorem collapsedRun_lineFeeds (apart : ¬ opensPair run) :
    collapsedRun true (lineFeeds run) = lineFeeds (collapsedRun true run) := by
  simp only [collapsedRun, if_true, firstLineEnd_lineFeeds apart]
  cases firstLineEnd run <;> rfl

/-- In no run of white space the first line ending is a carriage return that stands right before a
line ending of two characters. -/
def Separate (s : List Char) : Prop :=
  ∀ front run back, s = front ++ run ++ back → (∀ c ∈ front.getLast?, ¬ isWhite c) →
    (∀ c ∈ run, isWhite c) → ¬ opensPair run

theorem infix_of_opensPair (opens : opensPair run) : ['\r', '\r', '\n'] <:+: run := by
  fun_induction opensPair run with
  | case1 run => exact ⟨[], run, rfl⟩
  | case2 c run other ih =>
      have later : opensPair run := (Bool.and_eq_true_iff.mp opens).2
      exact (ih later).trans (List.suffix_cons c run).isInfix
  | case3 => cases opens

theorem separate_of_not_infix (apart : ¬ ['\r', '\r', '\n'] <:+: s) : Separate s := by
  rintro front run back rfl - - opens
  exact apart ((infix_of_opensPair opens).trans ⟨front, back, rfl⟩)

theorem Separate.of_append {front : List Char} (separate : Separate (front ++ s))
    (apart : (∀ c ∈ front.getLast?, ¬ isWhite c) ∨ ∀ c ∈ s.head?, ¬ isWhite c) : Separate s := by
  rintro inner run back rfl edge white
  have split : front ++ (inner ++ run ++ back) = front ++ inner ++ run ++ back := by
    simp only [List.append_assoc]
  rcases inner.eq_nil_or_concat' with rfl | ⟨inner, c, rfl⟩
  · cases apart with
    | inl apart => exact separate front run back (by rw [split, List.append_nil]) apart white
    | inr apart =>
        cases run with
        | nil => exact Bool.false_ne_true
        | cons c run => exact absurd (white c List.mem_cons_self) (apart c rfl)
  · exact separate _ run back split (fun d last => edge d (by simpa using last)) white

theorem collapse_lineFeeds (separate : Separate s) :
    collapse true (lineFeeds s) = lineFeeds (collapse true s) := by
  induction s using runs_induction with
  | nil => rfl
  | ink c s ink ih =>
      have rest : Separate s := by
        have whole : Separate ([c] ++ s) := separate
        refine whole.of_append (.inl fun d last => ?_)
        obtain rfl : c = d := Option.some.inj last
        exact ink
      have noReturn : c ≠ '\r' := by
        rintro rfl
        exact ink rfl
      rw [lineFeeds_cons fun both => noReturn both.1, collapse_ink ink, collapse_ink ink, ih rest,
        lineFeeds_cons fun both => noReturn both.1]
  | run run rest filled white apart ih =>
      have later : Separate rest := separate.of_append (.inr apart)
      have noFeed : ∀ s : List Char, (∀ c ∈ s.head?, ¬ isWhite c) → s.head? ≠ some '\n' :=
        fun s apart first => apart _ first rfl
      have feeds : lineFeeds run ≠ [] := lineFeeds_eq_nil.not.mpr filled
      have stillWhite : ∀ c ∈ lineFeeds run, isWhite c :=
        fun c member => white c ((lineFeeds_sublist run).subset member)
      have same : (lineFeeds rest).head? = rest.head? := by
        refine head?_lineFeeds ?_
        rintro ⟨s, rfl⟩
        exact apart '\r' rfl rfl
      calc collapse true (lineFeeds (run ++ rest))
        _ = collapse true (lineFeeds run ++ lineFeeds rest) := by
          rw [lineFeeds_append fun both => noFeed rest apart both.2]
        _ = collapsedRun true (lineFeeds run) ++ collapse true (lineFeeds rest) :=
          collapse_run feeds stillWhite (same.symm ▸ apart)
        _ = lineFeeds (collapsedRun true run) ++ lineFeeds (collapse true rest) := by
          rw [collapsedRun_lineFeeds (separate [] run rest rfl nofun white), ih later]
        _ = lineFeeds (collapsedRun true run ++ collapse true rest) := by
          rw [lineFeeds_append fun both => noFeed _ (head_collapse_of_ink apart) both.2]
        _ = lineFeeds (collapse true (run ++ rest)) := by rw [collapse_run filled white apart]

end Collapsing

section Trimming

variable {s : List Char}

theorem trimStart_lineFeeds {before : Bool} (whole : before → ¬ ['\r', '\n'] <+: s) :
    trimStart before (lineFeeds s) = lineFeeds (trimStart before s) := by
  cases before with
  | false => rfl
  | true =>
      have opens : opensRemovable (lineFeeds s) = opensRemovable s := by
        rw [opensRemovable, opensRemovable, head?_lineFeeds (whole rfl)]
      rw [trimStart, trimStart, opens]
      cases s with
      | nil => rfl
      | cons c s =>
          by_cases removable : isRemovable c
          · have noReturn : c ≠ '\r' := by
              rintro rfl
              cases removable
            have opens : opensRemovable (c :: s) = true := removable
            rw [opens, lineFeeds_cons fun both => noReturn both.1]
            rfl
          · have stays : opensRemovable (c :: s) = false := Bool.of_not_eq_true removable
            rw [stays]
            rfl

theorem cutEnd_lineFeeds (whole : ¬ ['\r', '\n'] <:+ s) :
    cutEnd (lineFeeds s) = lineFeeds (cutEnd s) := by
  rcases s.eq_nil_or_concat' with rfl | ⟨front, d, rfl⟩
  · rfl
  · have apart : ¬ (front.getLast? = some '\r' ∧ [d].head? = some '\n') := by
      rintro ⟨last, first⟩
      obtain ⟨front, rfl⟩ := List.getLast?_eq_some_iff.mp last
      obtain rfl : d = '\n' := Option.some.inj first
      exact whole ⟨front, by simp⟩
    have alone : lineFeeds [d] = [d] := lineFeeds_cons fun both => nomatch both.2
    rw [lineFeeds_append apart, alone, cutEnd_append_singleton, cutEnd_append_singleton]
    split
    · rfl
    · rw [lineFeeds_append apart, alone]

theorem trimEnd_lineFeeds {after : Bool} (whole : after → ¬ ['\r', '\n'] <:+ s) :
    trimEnd after (lineFeeds s) = (lineFeeds (trimEnd after s).1, (trimEnd after s).2) := by
  cases after with
  | true => rw [trimEnd_true, trimEnd_true, cutEnd_lineFeeds (whole rfl)]
  | false =>
      have ends : endsRemovable (lineFeeds s) = endsRemovable s := by
        rw [endsRemovable, endsRemovable, getLast?_lineFeeds]
      rw [trimEnd_false, trimEnd_false, ends]

end Trimming

mutual

def Node.lineFeeds : Node → Node
  | .root children position => .root (lineFeedsIn children) position
  | .element tag properties children position =>
    .element tag properties (lineFeedsIn children) position
  | .text value position => .text (String.ofList (Html.lineFeeds value.toList)) position
  | n => n

def lineFeedsIn : List Node → List Node
  | [] => []
  | n :: ns => n.lineFeeds :: lineFeedsIn ns

end

/-- Minifying a text takes no line ending of two characters apart, and makes none. -/
structure Whole (cx : Surroundings) (s : List Char) : Prop where
  separate : cx.whiteSpace ≠ .verbatim → Separate s
  starts : cx.whiteSpace = .normal → cx.before → ¬ ['\r', '\n'] <+: collapse true s
  ends : cx.whiteSpace = .normal → cx.after → ¬ ['\r', '\n'] <:+ collapse true s

mutual

/-- It takes no line ending apart, and makes none, in any text as minification comes to it. -/
def Node.Whole (cx : Surroundings) : Node → Prop
  | .root children _ => WholeAll { cx with after := true } true children
  | .element tag properties children position =>
    let inner := cx.inside ⟨tag, properties, children, position⟩
    WholeAll inner inner.before children
  | .text value _ => Html.Whole cx value.toList
  | _ => True

def WholeAll (cx : Surroundings) (before : Bool) : List Node → Prop
  | [] => True
  | n :: ns =>
    let around : Surroundings := { cx with before := before, after := (boundary ns).getD cx.after }
    n.Whole around ∧ WholeAll cx (stripNext before (minifyNode around n)) ns

end

mutual

theorem thinned_lineFeeds (n : Node) : Thinned n n.lineFeeds := by
  match n with
  | .root children position => exact .root (thinnedAll_lineFeedsIn children)
  | .element tag properties children position => exact .element (thinnedAll_lineFeedsIn children)
  | .text value position =>
      refine .text ?_
      rw [ink_ofList]
      exact inkOf_lineFeeds value.toList
  | .comment value position => exact .comment
  | .doctype position => exact .doctype

theorem thinnedAll_lineFeedsIn (ns : List Node) : ThinnedAll ns (lineFeedsIn ns) := by
  match ns with
  | [] => exact .nil
  | n :: ns => exact .kept (thinned_lineFeeds n) (thinnedAll_lineFeedsIn ns)

end

theorem minifyText_lineFeeds {cx : Surroundings} (ending : cx.newlines) (value : String)
    (whole : Whole cx value.toList) :
    minifyText cx (String.ofList (lineFeeds value.toList)) =
      let r := minifyText cx value
      (String.ofList (lineFeeds r.1.toList), r.2) := by
  obtain ⟨separate, starts, ends⟩ := whole
  simp only [minifyText, String.toList_ofList, ending]
  cases treated : cx.whiteSpace with
  | verbatim => rfl
  | nowrap =>
      simp only [String.toList_ofList]
      rw [collapse_lineFeeds (separate (by simp [treated]))]
  | normal =>
      have whole : cx.after → ¬ ['\r', '\n'] <:+ trimStart cx.before (collapse true value.toList) :=
        fun after pair => ends treated after (pair.trans (trimStart_suffix _ _))
      simp only [collapse_lineFeeds (separate (by simp [treated])), trimText_eq,
        trimStart_lineFeeds (starts treated), trimEnd_lineFeeds whole]
      generalize trimEnd cx.after (trimStart cx.before (collapse true value.toList)) = kept
      by_cases empty : kept.1 = []
      · simp [empty]
      · simp [empty, lineFeeds_eq_nil]

section Trees

theorem lineFeedsIn_eq_map (ns : List Node) : lineFeedsIn ns = ns.map Node.lineFeeds := by
  induction ns with
  | nil => rfl
  | cons n ns ih => rw [lineFeedsIn, ih, List.map_cons]

theorem isEmptyText_lineFeeds (n : Node) : isEmptyText n.lineFeeds = isEmptyText n := by
  cases n with
  | text value position =>
      rw [Node.lineFeeds, isEmptyText_ofList, Bool.eq_iff_iff, List.isEmpty_iff, lineFeeds_eq_nil,
        isEmptyText_iff, ← String.toList_inj]
      rfl
  | _ => rfl

theorem filter_lineFeedsIn (ns : List Node) :
    (lineFeedsIn ns).filter (!isEmptyText ·) = lineFeedsIn (ns.filter (!isEmptyText ·)) := by
  simp only [lineFeedsIn_eq_map, List.filter_map, Function.comp_def, isEmptyText_lineFeeds]

theorem remains_lineFeeds (n : Node) (outcome : Outcome) :
    remains (n.lineFeeds, outcome) = lineFeedsIn (remains (n, outcome)) := by
  unfold remains
  split <;> rfl

theorem stripNext_lineFeeds (before : Bool) (n : Node) (outcome : Outcome) :
    stripNext before (n.lineFeeds, outcome) = stripNext before (n, outcome) := by
  cases n <;> rfl

mutual

theorem minifyNode_lineFeeds (cx : Surroundings) (ending : cx.newlines) {n : Node}
    (whole : n.Whole cx) :
    minifyNode cx n.lineFeeds = ((minifyNode cx n).1.lineFeeds, (minifyNode cx n).2) := by
  match n with
  | .root children position =>
      have inside := minifyAll_lineFeedsIn { cx with after := true } ending true whole
      simp only [Node.lineFeeds, minifyNode, inside, filter_lineFeedsIn]
  | .element tag properties children position =>
      let inner := cx.inside ⟨tag, properties, children, position⟩
      have inside := minifyAll_lineFeedsIn inner ending inner.before whole
      have around : cx.inside ⟨tag, properties, lineFeedsIn children, position⟩ = inner := rfl
      simp only [Node.lineFeeds, minifyNode, around, inside, filter_lineFeedsIn]
      rfl
  | .text value position =>
      simp only [Node.lineFeeds, minifyNode, minifyText_lineFeeds ending value whole]
  | .comment value position => rfl
  | .doctype position => rfl

theorem minifyAll_lineFeedsIn (cx : Surroundings) (ending : cx.newlines) (before : Bool)
    {ns : List Node} (whole : WholeAll cx before ns) :
    minifyAll cx before (lineFeedsIn ns) =
      (lineFeedsIn (minifyAll cx before ns).1, (minifyAll cx before ns).2) := by
  match ns with
  | [] => rfl
  | n :: ns =>
      let around : Surroundings :=
        { cx with before := before, after := (boundary ns).getD cx.after }
      obtain ⟨here, rest⟩ := whole
      have ahead := boundary_of_thinned (thinnedAll_lineFeedsIn ns)
      have first := minifyNode_lineFeeds around ending here
      have more := minifyAll_lineFeedsIn cx ending (stripNext before (minifyNode around n)) rest
      rw [lineFeedsIn, minifyAll_cons, minifyAll_cons, ahead]
      dsimp only
      rw [first, remains_lineFeeds, stripNext_lineFeeds, more]
      simp only [lineFeedsIn_eq_map, List.map_append]
      rfl

end

end Trees

/-- Replacing line endings of two characters by line feeds makes no difference to minification that
keeps line endings, if it takes none of them apart and makes none. -/
theorem minify_lineFeeds {n : Node} (whole : n.Whole ⟨true, .normal, false, false⟩) :
    n.lineFeeds.minify true = (n.minify true).lineFeeds :=
  congrArg Prod.fst (minifyNode_lineFeeds ⟨true, .normal, false, false⟩ rfl whole)

def returnedPage : Node :=
  let element (tag : String) (children : List Node) : Node :=
    .element tag OrderedMap.empty children none
  .root [
    element "p" [.text " a \r\n b" none, element "em" [.text "\r\n" none], .text "c \r\n" none,
      element "img" []],
    element "pre" [.text "\r\r\nd\r\n" none]] none

theorem minify_lineFeeds_returnedPage :
    returnedPage.Whole ⟨true, .normal, false, false⟩ ∧
      returnedPage.lineFeeds.minify true = (returnedPage.minify true).lineFeeds := by
  have whole : returnedPage.Whole ⟨true, .normal, false, false⟩ := by
    simp only [returnedPage, Node.Whole, WholeAll, and_true]
    refine ⟨⟨?first, ?inside, ?last⟩, ?preformatted⟩
    case preformatted =>
      exact ⟨fun special => absurd rfl special, by decide +kernel, by decide +kernel⟩
    all_goals
      exact ⟨fun _ => separate_of_not_infix (by decide +kernel), by decide +kernel,
        by decide +kernel⟩
  exact ⟨whole, minify_lineFeeds whole⟩

def paragraphOf (value : String) : Node :=
  .root [.element "p" OrderedMap.empty [.text value none] none] none

/-- Of three characters that are two line endings the first one stays, unless it has become part of
the second one; of a line ending of two characters at the end of a block only the line feed goes. -/
theorem not_minify_lineFeeds :
    (paragraphOf "a\r\r\nb").lineFeeds.minify true ≠
        ((paragraphOf "a\r\r\nb").minify true).lineFeeds ∧
      (paragraphOf "a\r\n").lineFeeds.minify true ≠
        ((paragraphOf "a\r\n").minify true).lineFeeds := by
  have inner : ((paragraphOf "a\r\r\nb").lineFeeds.minify true).toText ≠
      ((paragraphOf "a\r\r\nb").minify true).lineFeeds.toText := by
    decide +kernel
  have last : ((paragraphOf "a\r\n").lineFeeds.minify true).toText ≠
      ((paragraphOf "a\r\n").minify true).lineFeeds.toText := by
    decide +kernel
  exact ⟨fun same => inner (congrArg _ same), fun same => last (congrArg _ same)⟩

end HtmlToMarkdown.Html
