import HtmlToMarkdown.Converter
import HtmlToMarkdown.Proofs.Lines.Conversion
import HtmlToMarkdown.Proofs.Lines.Scan

/-!
Empty paragraphs. A paragraph that the walk makes is empty in the end if there are only blank texts
in it, or nothing at all. This cannot happen where something is sure to be seen beside each break in
flow content and beside each blank text in a line.
-/

namespace HtmlToMarkdown

open Handlers (standard)
open Markdown (Node Shape dropSurroundingBreaks pieces)

def Filled (shape : Shape) (ns : List Node) : Prop := shape = .paragraph → ns ≠ []

/-- A paragraph has something in it besides blank texts. -/
def Inked (shape : Shape) (ns : List Node) : Prop := shape = .paragraph → ∃ n ∈ ns, ¬ n.isBlank

theorem filled_iff_inked {shape : Shape} {ns ms : List Node}
    (settles : Markdown.SettlesAll shape.trimsEdges true ns ms) :
    Filled shape ms ↔ Inked shape ns := by
  refine forall_congr' fun paragraph => ?_
  subst paragraph
  have first := settles.lead_front rfl (.inl rfl)
  have empty : ms = [] ↔ Markdown.lead ns = none := by
    rw [← first, Option.map_eq_none_iff, List.head?_eq_none_iff]
  rw [ne_eq, empty, Markdown.lead_eq_none_iff]
  simp

/-- Looks for breaks in runs in which nothing is sure to be seen. -/
def fillingScan : Scan where
  step g m :=
    match m with
    | .feed => some (if g = .lit then .lit else .dim)
    | .ink => some .lit
    | .block => if g = .dim then none else some .edge
    | .other => if g = .dim then none else some .edge
    | _ => some g
  ends g := g != .dim

def fillingRule : Rule where
  line ms := !ms.contains .blank || ms.contains .ink
  heading _ := true
  flow := fillingScan.passes .edge
  strays := true

theorem steady_fillingScan : fillingScan.Steady where
  ends := by decide
  skip := by decide
  stay := by decide +kernel
  wall := by decide

section Line

variable {n : Node} {ns : List Node}

theorem stroke_eq_blank_iff : n.stroke = .blank ↔ n.isBlank := by
  unfold Node.stroke
  split
  next blank => simp [blank]
  next filled =>
    have other : ∀ p : Prop, [Decidable p] → (if p then Stroke.ink else .block) ≠ .blank := by
      intro p _
      split <;> exact nofun
    split <;> simp [filled, other]

theorem visible_of_stroke (ink : n.stroke = .ink) : ¬ n.isBlank ∧ ¬ n.isBreak := by
  unfold Node.stroke at ink
  split at ink
  next => cases ink
  next filled =>
    split at ink
    next => cases ink
    next other => exact ⟨filled, other⟩

theorem mem_dropSurroundingBreaks (member : n ∈ ns) (other : ¬ n.isBreak) :
    n ∈ dropSurroundingBreaks ns := by
  obtain ⟨front, back, breaks, same⟩ := Markdown.exists_of_dropSurroundingBreaks ns
  rw [same, List.append_assoc, List.mem_append, List.mem_append] at member
  rcases member with inFront | kept | inBack
  · exact absurd (breaks n (List.mem_append_left _ inFront)) other
  · exact kept
  · exact absurd (breaks n (List.mem_append_right _ inBack)) other

theorem isWhitespaceText_of_isBlank (blank : n.isBlank) : n.isWhitespaceText := by
  obtain ⟨value, origin, rfl⟩ := Markdown.exists_of_isText (Markdown.isText_of_isBlank blank)
  refine List.all_eq_true.mpr fun c member => ?_
  rw [Text.isSpace, List.all_eq_true.mp blank c member]
  rfl

end Line

/-- A scan that has seen nothing gets through blank texts and breaks only without breaks. -/
theorem blank_of_passes {ms : List Stroke} (passes : fillingScan.passes .edge ms)
    (faint : ∀ m ∈ ms, m = .blank ∨ m = .feed) : ∀ m ∈ ms, m = .blank := by
  have stuck : ∀ ms : List Stroke, (∀ m ∈ ms, m = .blank ∨ m = .feed) →
      ¬ fillingScan.passes .dim ms := by
    intro ms
    induction ms with
    | nil => exact fun _ => Bool.false_ne_true
    | cons m ms ih =>
        intro faint
        obtain ⟨here, rest⟩ := List.forall_mem_cons.mp faint
        rcases here with rfl | rfl <;> exact ih rest
  induction ms with
  | nil => exact nofun
  | cons m ms ih =>
      obtain ⟨here, rest⟩ := List.forall_mem_cons.mp faint
      rcases here with rfl | rfl
      · exact List.forall_mem_cons.mpr ⟨rfl, ih passes rest⟩
      · exact absurd passes (stuck ms rest)

theorem governs_fillingRule : fillingRule.Governs Inked where
  free unruled ns paragraph := absurd (paragraph ▸ rfl) unruled
  item := iff_of_true nofun fun _ _ => .inl rfl
  cover _ _ _ := ⟨_, List.mem_singleton_self _, Bool.false_ne_true⟩
  line {ns} meets filled _ := by
    rcases Bool.or_eq_true_iff.mp meets with noBlank | ink
    · obtain ⟨n, member⟩ := List.exists_mem_of_ne_nil _ filled
      refine ⟨n, member, fun blank => ?_⟩
      have inside := List.mem_map_of_mem (f := Node.stroke)
        (Markdown.mem_of_mem_dropSurroundingBreaks member)
      rw [stroke_eq_blank_iff.mpr blank] at inside
      simp [inside] at noBlank
    · obtain ⟨n, member, ink⟩ := List.mem_map.mp (List.contains_iff_mem.mp ink)
      obtain ⟨filled, other⟩ := visible_of_stroke ink
      exact ⟨n, mem_dropSurroundingBreaks member other, filled⟩
  heading _ := nofun
  run {ns nodes} regular meets found visible _ := by
    by_contra nothing
    have faint : ∀ n ∈ nodes, n.isBlank ∨ n.isBreak := by
      intro n member
      by_contra seen
      rw [not_or] at seen
      exact nothing ⟨n, mem_dropSurroundingBreaks member seen.2, seen.1⟩
    have strokes := blank_of_passes (steady_fillingScan.run regular found meets) <|
      List.forall_mem_map.mpr fun n member =>
        (faint n member).imp stroke_eq_blank_iff.mpr stroke_of_isBreak
    refine visible (List.all_eq_true.mpr fun n member => ?_)
    exact isWhitespaceText_of_isBlank
      (stroke_eq_blank_iff.mp (List.forall_mem_map.mp strokes n member))
  refinedLine {ms ks} refines meets := by
    rcases Bool.or_eq_true_iff.mp meets with noBlank | ink
    · have none : .blank ∉ ks := by
        intro blank
        obtain ⟨m, member, allows⟩ := refines.exists_stroke blank
        obtain rfl := Stroke.eq_blank_of_allows allows
        simp [member] at noBlank
      simp [fillingRule, none]
    · obtain ⟨k, member, rfl⟩ := refines.exists_ink (List.contains_iff_mem.mp ink)
      simp [fillingRule, member]
  refinedHeading _ _ := rfl
  refinedFlow refines meets := steady_fillingScan.refined refines (Nat.le_refl _) meets
  nested := rfl

/-- A result has no empty paragraphs where the walk makes none that holds only blank texts. That is
so where the source has something to be seen beside the breaks in flow content and beside the blank
texts in lines. -/
theorem filled_convert [UrlReader] (options : Options) (tree : Html.Node) :
    ((convert options standard tree).Throughout (Node.Keeps Filled) ↔
      (walkTree options standard (tree.minify options.newlines)).Throughout (Node.Keeps Inked)) ∧
    (fillingRule.metBy options (tree.minify options.newlines) →
      (convert options standard tree).Throughout (Node.Keeps Filled)) :=
  keeps_convert governs_fillingRule (fun _ => filled_iff_inked) id options tree

def brokenLines : Html.Node :=
  let element (tag : String) (children : List Html.Node) : Html.Node :=
    .element tag OrderedMap.empty children none
  let lineBreak := element "br" []
  .root [
    element "div" [.text "a" none, lineBreak, .text "b" none],
    element "p" [.text "c" none, lineBreak],
    element "section" [element "a" [element "p" [.text "d" none]], lineBreak, .text "e" none],
    element "blockquote" [element "q" [.text "f" none], lineBreak]] none

theorem filled_convert_brokenLines :
    fillingRule.metBy {} (brokenLines.minify false) ∧
      (convert {} standard brokenLines).Throughout (Node.Keeps Filled) :=
  ⟨by decide +kernel, (filled_convert {} brokenLines).2 (by decide +kernel)⟩

end HtmlToMarkdown
