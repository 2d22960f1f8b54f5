import HtmlToMarkdown.Proofs.Whitespace.Nodewise

/-!
Inline markup read from its start to its end. Minification decides about a white character by what
was read before it and by what it sees ahead. It looks past the ends of elements, but not into
hidden elements that begin ahead.
-/

namespace HtmlToMarkdown.Html

/-- Elements within a line that show their text and nothing else. -/
def inlineTags : List String := [
  "a", "abbr", "b", "bdi", "bdo", "cite", "code", "data", "del", "dfn", "em", "i", "ins", "mark",
  "s", "small", "span", "strong", "sub", "sup", "time", "u"]

def Node.Inline : Node → Prop
  | .text _ _ => True
  | .element tag properties children position =>
    tag ∈ inlineTags ∧ ¬ (Element.mk tag properties children position).isIgnored
  | _ => False

inductive Sign
  | char (c : Char)
  | opening (hidden : Bool)
  | closing
  deriving DecidableEq

mutual

def Node.signs : Node → List Sign
  | .element tag properties children position =>
    .opening ((Element.mk tag properties children position).hasFlag "hidden") ::
      (signsOf children ++ [.closing])
  | .text value _ => value.toList.map .char
  | _ => []

def signsOf : List Node → List Sign
  | [] => []
  | n :: ns => n.signs ++ signsOf ns

end

/-- Whether a character that is not white is seen ahead. `depth` counts the elements that are open
from the outermost hidden one on, which are passed over. -/
def seesFrom (depth : Nat) : List Sign → Bool
  | [] => false
  | .char c :: rest => (depth == 0 && !isWhite c) || seesFrom depth rest
  | .opening hidden :: rest =>
    seesFrom (if depth == 0 && !hidden then 0 else depth + 1) rest
  | .closing :: rest => seesFrom (depth - 1) rest

def sees (ms : List Sign) : Bool := seesFrom 0 ms

/-- What is left of a sign, and whether white space after it may go. -/
def Sign.settle (before after : Bool) : Sign → List Char × Bool
  | char c =>
    if isWhite c then (if before || after then ([], before) else ([' '], true)) else ([c], false)
  | opening _ => ([], before)
  | closing => ([], before || after)

/-- What is left of the characters; `after` tells whether white space at the end may go. -/
def settled (after before : Bool) : List Sign → List Char × Bool
  | [] => ([], before)
  | m :: rest =>
    let here := m.settle before (!sees rest && after)
    let more := settled after here.2 rest
    (here.1 ++ more.1, more.2)

/-- An inline element neither makes a block nor shows anything by itself, and minification treats
the white space in it as that around it. -/
structure Undecided (tag : String) : Prop where
  block : isBlockTag tag = false
  content : contentTags.contains tag = false
  lineBreak : (tag == "br") = false
  title : (tag == "title") = false
  verbatim : (isPreformattedTag tag || tag == "script" || tag == "style") = false
  nowrap : (tag == "nobr") = false
  cell : (tag == "td" || tag == "th") = false

theorem undecided_inlineTags {tag : String} (member : tag ∈ inlineTags) : Undecided tag := by
  have all : ∀ tag ∈ inlineTags, isBlockTag tag = false ∧ contentTags.contains tag = false ∧
      (tag == "br") = false ∧ (tag == "title") = false ∧
      (isPreformattedTag tag || tag == "script" || tag == "style") = false ∧
      (tag == "nobr") = false ∧ (tag == "td" || tag == "th") = false := by
    decide +kernel
  obtain ⟨block, content, lineBreak, title, verbatim, nowrap, cell⟩ := all tag member
  exact ⟨block, content, lineBreak, title, verbatim, nowrap, cell⟩

section LookAhead

theorem sees_chars (s : List Char) (rest : List Sign) :
    sees (s.map .char ++ rest) = (!s.all isWhite || sees rest) := by
  induction s with
  | nil => rfl
  | cons c s ih =>
      have here : sees (.char c :: (s.map .char ++ rest)) =
          (!isWhite c || sees (s.map .char ++ rest)) := rfl
      rw [List.map_cons, List.cons_append, here, ih, List.all_cons, Bool.not_and, Bool.or_assoc]

theorem seesFrom_chars (depth : Nat) (s : List Char) (rest : List Sign) :
    seesFrom (depth + 1) (s.map .char ++ rest) = seesFrom (depth + 1) rest := by
  induction s with
  | nil => rfl
  | cons c s ih => exact ih

mutual

theorem seesFrom_node (depth : Nat) {n : Node} (inline : n.Throughout Node.Inline)
    (rest : List Sign) : seesFrom (depth + 1) (n.signs ++ rest) = seesFrom (depth + 1) rest := by
  match n with
  | .root children position => exact inline.1.elim
  | .text value position => exact seesFrom_chars depth value.toList rest
  | .comment value position => exact inline.elim
  | .doctype position => exact inline.elim
  | .element tag properties children position =>
      rw [Node.signs, List.cons_append, List.append_assoc]
      exact seesFrom_nodes (depth + 1) inline.2 (.closing :: rest)

theorem seesFrom_nodes (depth : Nat) {ns : List Node} (inline : ThroughoutAll Node.Inline ns)
    (rest : List Sign) : seesFrom (depth + 1) (signsOf ns ++ rest) = seesFrom (depth + 1) rest := by
  match ns with
  | [] => rfl
  | n :: ns =>
      rw [signsOf, List.append_assoc, seesFrom_node depth inline.1, seesFrom_nodes depth inline.2]

end

theorem nodeBoundary_element {tag : String} (inline : tag ∈ inlineTags) (properties : Properties)
    (children : List Node) (position : Option Position) :
    nodeBoundary (.element tag properties children position) =
      if (Element.mk tag properties children position).hasFlag "hidden" then none
      else boundary children := by
  have undecided := undecided_inlineTags inline
  have plain : tag ∉ contentTags := by simpa using undecided.content
  simp [nodeBoundary, ownBoundary, isSkippable, undecided.block, plain, undecided.lineBreak,
    undecided.title]

mutual

theorem sees_node {n : Node} (inline : n.Throughout Node.Inline) (rest : List Sign) :
    sees (n.signs ++ rest) = ((nodeBoundary n).isSome || sees rest) := by
  match n with
  | .root children position => exact inline.1.elim
  | .text value position =>
      rw [Node.signs, sees_chars, nodeBoundary_text]
      by_cases white : value.toList.all isWhite
      · rw [white, if_pos (all_isWhite_iff.mp white)]
        rfl
      · rw [Bool.of_not_eq_true white, if_neg (all_isWhite_iff.not.mp white)]
        rfl
  | .comment value position => exact inline.elim
  | .doctype position => exact inline.elim
  | .element tag properties children position =>
      rw [Node.signs, List.cons_append, List.append_assoc, nodeBoundary_element inline.1.1]
      by_cases hidden : (Element.mk tag properties children position).hasFlag "hidden"
      · rw [hidden]
        exact seesFrom_nodes 0 inline.2 (.closing :: rest)
      · rw [if_neg hidden, Bool.of_not_eq_true hidden]
        exact sees_nodes inline.2 (.closing :: rest)

theorem sees_nodes {ns : List Node} (inline : ThroughoutAll Node.Inline ns) (rest : List Sign) :
    sees (signsOf ns ++ rest) = ((boundary ns).isSome || sees rest) := by
  match ns with
  | [] => rfl
  | n :: ns =>
      rw [signsOf, List.append_assoc, sees_node inline.1, sees_nodes inline.2, boundary,
        Option.isSome_or, Bool.or_assoc]

end

mutual

/-- Inline markup never begins or ends a line. -/
theorem nodeBoundary_ne_true {n : Node} (inline : n.Throughout Node.Inline) :
    nodeBoundary n ≠ some true := by
  match n with
  | .root children position => exact inline.1.elim
  | .text value position =>
      rw [nodeBoundary_text]
      split <;> simp
  | .comment value position => exact inline.elim
  | .doctype position => exact inline.elim
  | .element tag properties children position =>
      rw [nodeBoundary_element inline.1.1]
      split
      · exact nofun
      · exact boundary_ne_true inline.2

theorem boundary_ne_true {ns : List Node} (inline : ThroughoutAll Node.Inline ns) :
    boundary ns ≠ some true := by
  match ns with
  | [] => exact nofun
  | n :: ns =>
      rw [boundary, Ne, Option.or_eq_some_iff]
      rintro (here | ⟨-, rest⟩)
      · exact nodeBoundary_ne_true inline.1 here
      · exact boundary_ne_true inline.2 rest

end

theorem getD_boundary {ns : List Node} (inline : ThroughoutAll Node.Inline ns) (after : Bool)
    (rest : List Sign) :
    (boundary ns).getD (!sees rest && after) = (!sees (signsOf ns ++ rest) && after) := by
  rw [sees_nodes inline]
  have inner := boundary_ne_true inline
  cases found : boundary ns with
  | none => rfl
  | some b =>
      cases b with
      | true => exact absurd found inner
      | false => rfl

end LookAhead

section Texts

@[simp] theorem textOf_append (ns ms : List Node) :
    Node.textOf (ns ++ ms) = Node.textOf ns ++ Node.textOf ms := by
  induction ns with
  | nil => exact String.empty_append.symm
  | cons n ns ih => rw [List.cons_append, Node.textOf, ih, Node.textOf, String.append_assoc]

theorem toText_inline {tag : String} (inline : tag ∈ inlineTags) (properties : Properties)
    (children : List Node) (position : Option Position) :
    (Node.element tag properties children position).toText = Node.textOf children := by
  have shown : ∀ tag ∈ inlineTags, (tag == "br") = false ∧
      (tag == "script" || tag == "style" || tag == "template") = false := by
    decide
  rw [Node.toText, (shown tag inline).1, (shown tag inline).2]
  rfl

end Texts

section Minified

def letters (marks : List Mark) : List Char :=
  marks.filterMap fun
    | .char c => some c
    | _ => none

theorem letters_chars (s : List Char) : letters (s.map .char) = s := by
  rw [letters, List.filterMap_map]
  exact List.filterMap_some

theorem settled_eq_settle (after before : Bool) (s : List Char) (rest : List Sign) :
    settled after before (s.map .char ++ rest) =
      let r := settle (!sees rest && after) before (s.map .char)
      let more := settled after r.2 rest
      (letters r.1 ++ more.1, more.2) := by
  induction s generalizing before with
  | nil => rfl
  | cons c s ih =>
      have next : (ahead (s.map .char)).getD (!sees rest && after) =
          (!sees (s.map .char ++ rest) && after) := by
        rw [ahead_chars, sees_chars]
        cases s.all isWhite <;> rfl
      have step : ∀ after, (Sign.char c).settle before after =
          (letters ((Mark.char c).settle before after).1,
            ((Mark.char c).settle before after).2) := by
        intro after
        rw [Sign.settle, Mark.settle]
        split
        · split <;> rfl
        · rfl
      rw [List.map_cons, List.cons_append, settled, step, ih, List.map_cons, settle, next]
      simp only [letters, List.filterMap_append, List.append_assoc]

theorem settled_chars (after before : Bool) (s : List Char) (rest : List Sign) :
    settled after before (s.map .char ++ rest) =
      let kept := trimEnd (!sees rest && after) (trimStart before (collapse false s))
      let more := settled after (if kept.1 = [] then before else kept.2) rest
      (kept.1 ++ more.1, more.2) := by
  rw [settled_eq_settle, settle_map_char, trimStart_collapse]
  dsimp only
  rw [letters_chars]

theorem settled_opening (after before hidden : Bool) (rest : List Sign) :
    settled after before (.opening hidden :: rest) = settled after before rest := rfl

theorem settled_closing (after before : Bool) (rest : List Sign) :
    settled after before (.closing :: rest) =
      settled after (before || (!sees rest && after)) rest := rfl

def Surroundings.line (after : Bool) : Surroundings := ⟨false, .normal, false, after⟩

theorem inside_inline {tag : String} (inline : tag ∈ inlineTags) (properties : Properties)
    (children : List Node) (position : Option Position) (after : Bool) :
    (Surroundings.line after).inside ⟨tag, properties, children, position⟩ = .line after := by
  obtain ⟨block, -, -, -, verbatim, nowrap, cell⟩ := undecided_inlineTags inline
  simp only [Surroundings.inside, whiteSpaceIn, block, verbatim, nowrap, cell, Bool.or_false]
  rfl

mutual

theorem settled_node {n : Node} (inline : n.Throughout Node.Inline) (after before : Bool)
    (rest : List Sign) :
    settled after before (n.signs ++ rest) =
      let r := minifyAll (.line (!sees rest && after)) before [n]
      let more := settled after r.2 rest
      ((Node.textOf r.1).toList ++ more.1, more.2) := by
  match n with
  | .root children position => exact inline.1.elim
  | .text value position =>
      have alone := minifyAll_text (.line (!sees rest && after)) rfl before value position
      rw [Node.signs, settled_chars, alone]
      dsimp only [Surroundings.line]
      split
      next empty => rw [empty]; rfl
      next filled => simp [Node.textOf, Node.toText]
  | .comment value position => exact inline.elim
  | .doctype position => exact inline.elim
  | .element tag properties children position =>
      obtain ⟨⟨member, -⟩, inside⟩ := inline
      obtain ⟨block, plain, notBreak, -⟩ := undecided_inlineTags member
      have content := settled_nodes inside after before (.closing :: rest)
      rw [Node.signs, List.cons_append, List.append_assoc, settled_opening, List.singleton_append,
        content, minifyAll_element, inside_inline member, block, plain, notBreak]
      dsimp only
      rw [Node.textOf, toText_inline member, textOf_filter, settled_closing]
      simp only [Bool.or_false, Bool.false_or, Bool.not_false, Bool.true_and, Node.textOf,
        String.append_empty]
      rfl

theorem settled_nodes {ns : List Node} (inline : ThroughoutAll Node.Inline ns)
    (after before : Bool) (rest : List Sign) :
    settled after before (signsOf ns ++ rest) =
      let r := minifyAll (.line (!sees rest && after)) before ns
      let more := settled after r.2 rest
      ((Node.textOf r.1).toList ++ more.1, more.2) := by
  match ns with
  | [] => rfl
  | n :: ns =>
      have split : minifyAll (.line (!sees rest && after)) before (n :: ns) =
          let first := minifyAll (.line (!sees (signsOf ns ++ rest) && after)) before [n]
          let second := minifyAll (.line (!sees rest && after)) first.2 ns
          (first.1 ++ second.1, second.2) := by
        rw [← getD_boundary inline.2]
        exact minifyAll_cons_alone _ before n ns
      rw [signsOf, List.append_assoc, settled_node inline.1, split]
      dsimp only
      rw [settled_nodes inline.2, textOf_append, String.toList_append]
      simp only [List.append_assoc]

end

end Minified

end HtmlToMarkdown.Html
