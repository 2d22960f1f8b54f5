import HtmlToMarkdown.Proofs.Ink.Minify
import HtmlToMarkdown.Proofs.Source.Throughout

/-!
A tree read from its start to its end. What minification does to the texts of a tree, it does to the
characters of this reading one by one: whether a white character stays depends on what was read
just before it and on what comes next, however the characters are spread over texts.
-/

namespace HtmlToMarkdown.Html

inductive Mark
  | char (c : Char)
  /-- A text whose white space is not minified, by its other characters. -/
  | fixed (ink : List Char) (empty : Bool)
  | opening (tag : String)
  | closing (tag : String)
  | lineBreak
  /-- A comment or a document type. -/
  | remark
  /-- The start or the end of a root. -/
  | bound
  deriving DecidableEq

mutual

def Node.marks (ws : WhiteSpace) : Node → List Mark
  | .root children _ => .bound :: marksOf ws children ++ [.bound]
  | .element tag properties children position =>
    let inner := marksOf (whiteSpaceIn ⟨tag, properties, children, position⟩ ws) children
    if tag == "br" then .lineBreak :: inner else .opening tag :: inner ++ [.closing tag]
  | .text value _ =>
    if ws = .normal then value.toList.map .char else [.fixed (ink value) (value == "")]
  | .comment _ _ => [.remark]
  | .doctype _ => [.remark]

def marksOf (ws : WhiteSpace) : List Node → List Mark
  | [] => []
  | n :: ns => n.marks ws ++ marksOf ws ns

end

namespace Mark

def announces : Mark → Option Bool
  | char c => if isWhite c then none else some false
  | fixed ink _ => if ink = [] then none else some false
  | opening tag =>
    if isBlockTag tag then some true else if contentTags.contains tag then some false else none
  | closing tag => if isBlockTag tag then some true else none
  | lineBreak => some true
  | remark => none
  | bound => some true

/-- What is left of a mark, and whether white space after it may go. `before` and `after` tell
whether white space in its place might go for what was read and for what comes. -/
def settle (before after : Bool) : Mark → List Mark × Bool
  | char c =>
    if isWhite c then (if before || after then ([], before) else ([char ' '], true))
    else ([char c], false)
  | fixed ink empty => (if empty then [] else [fixed ink empty], false)
  | opening tag => ([opening tag], before || isBlockTag tag)
  | closing tag =>
    ([closing tag], !contentTags.contains tag && (before || (isBlockTag tag || after)))
  | lineBreak => ([lineBreak], true)
  | remark => ([remark], before)
  | bound => ([bound], true)

end Mark

def ahead (marks : List Mark) : Option Bool := marks.findSome? Mark.announces

/-- What is left of a reading; `after` tells of what comes after it. -/
def settle (after before : Bool) : List Mark → List Mark × Bool
  | [] => ([], before)
  | m :: rest =>
    let here := m.settle before ((ahead rest).getD after)
    let more := settle after here.2 rest
    (here.1 ++ more.1, more.2)

section Readings

variable (after before : Bool)

@[simp] theorem ahead_cons (m : Mark) (rest : List Mark) :
    ahead (m :: rest) = m.announces.or (ahead rest) := by
  rw [ahead, List.findSome?_cons, ← ahead]
  cases m.announces <;> rfl

@[simp] theorem ahead_append (ms rest : List Mark) :
    ahead (ms ++ rest) = (ahead ms).or (ahead rest) :=
  List.findSome?_append

theorem settle_append (ms rest : List Mark) :
    settle after before (ms ++ rest) =
      let first := settle ((ahead rest).getD after) before ms
      let second := settle after first.2 rest
      (first.1 ++ second.1, second.2) := by
  induction ms generalizing before with
  | nil => rfl
  | cons m ms ih =>
      have next : (ahead (ms ++ rest)).getD after = (ahead ms).getD ((ahead rest).getD after) := by
        rw [ahead_append]
        cases ahead ms <;> rfl
      simp only [List.cons_append, settle, next, ih, List.append_assoc]

@[simp] theorem marksOf_append (ws : WhiteSpace) (ns ms : List Node) :
    marksOf ws (ns ++ ms) = marksOf ws ns ++ marksOf ws ms := by
  induction ns with
  | nil => rfl
  | cons n ns ih => rw [List.cons_append, marksOf, ih, marksOf, List.append_assoc]

end Readings

/-- No hidden element, and no break with content. -/
def Node.Shown : Node → Prop
  | .element tag properties children position =>
    ¬ (Element.mk tag properties children position).hasFlag "hidden" ∧ (tag = "br" → children = [])
  | _ => True

def Node.IsRoot : Node → Prop
  | .root _ _ => True
  | _ => False

def Node.Laid (n : Node) : Prop := ¬ n.IsRoot ∧ n.Shown

theorem ahead_chars (s : List Char) :
    ahead (s.map .char) = if s.all isWhite then none else some false := by
  induction s with
  | nil => rfl
  | cons c s ih =>
      have here : (Mark.char c).announces = if isWhite c then none else some false := rfl
      rw [List.map_cons, ahead_cons, ih, here, List.all_cons]
      by_cases white : isWhite c
      · rw [if_pos white, white, Bool.true_and, Option.none_or]
      · rw [if_neg white, Bool.of_not_eq_true white]
        rfl

theorem ahead_text (ws : WhiteSpace) (value : String) (position : Option Position) :
    ahead ((Node.text value position).marks ws) =
      if value.toList.all isWhite then none else some false := by
  rw [Node.marks]
  split
  · exact ahead_chars value.toList
  · rw [ahead_cons, Mark.announces]
    simp only [all_isWhite_iff]
    split <;> rfl

mutual

theorem nodeBoundary_eq (ws : WhiteSpace) {n : Node} (laid : n.Throughout Node.Laid) :
    nodeBoundary n = ahead (n.marks ws) := by
  match n with
  | .root children position => exact absurd trivial laid.1.1
  | .text value position =>
      rw [ahead_text]
      simp [nodeBoundary, ownBoundary, isSkippable]
  | .comment value position => rfl
  | .doctype position => rfl
  | .element tag properties children position =>
      obtain ⟨⟨-, shown, -⟩, inside⟩ := laid
      have below := boundary_eq (whiteSpaceIn ⟨tag, properties, children, position⟩ ws) inside
      rw [nodeBoundary, ownBoundary, Node.marks]
      by_cases br : tag == "br"
      · simp [br, Mark.announces]
      · by_cases block : isBlockTag tag
        · simp [br, block, Mark.announces]
        · have noTitle : tag ≠ "title" := fun title => block (title ▸ by decide)
          have visible : ¬ isSkippable (.element tag properties children position) := by
            simp [isSkippable, shown, noTitle]
          rw [if_neg br, List.cons_append, ahead_cons, ahead_append, ← below, ahead_cons,
            if_neg visible]
          simp [br, block, Mark.announces, ahead]

theorem boundary_eq (ws : WhiteSpace) {ns : List Node} (laid : ThroughoutAll Node.Laid ns) :
    boundary ns = ahead (marksOf ws ns) := by
  match ns with
  | [] => rfl
  | n :: ns =>
      rw [boundary, marksOf, ahead_append, nodeBoundary_eq ws laid.1, boundary_eq ws laid.2]

end

end HtmlToMarkdown.Html
