import HtmlToMarkdown.Converter
import HtmlToMarkdown.Proofs.Lines.Conversion
import HtmlToMarkdown.Proofs.Lines.Scan

/-!
Breaks at the ends of paragraphs and headings. They are dropped before the blank texts at the ends
are, so a break is left at an end if a blank text stands before it. This cannot happen where
something is sure to be seen before a break comes after a blank text, from both ends.
-/

namespace HtmlToMarkdown

open Handlers (standard)
open Markdown (Node Shape dropSurroundingBreaks lead pieces)

def Markdown.Shape.isLine : Shape → Bool
  | paragraph => true
  | heading _ => true
  | _ => false

/-- A paragraph or heading neither begins nor ends with a break. -/
def Bounded (shape : Shape) (ns : List Node) : Prop :=
  shape.isLine → (∀ n ∈ ns.head?, ¬ n.isBreak) ∧ ∀ n ∈ ns.getLast?, ¬ n.isBreak

/-- Besides blank texts a paragraph or heading neither begins nor ends with a break. -/
def Enclosed (shape : Shape) (ns : List Node) : Prop :=
  shape.isLine → lead ns ≠ some true ∧ lead ns.reverse ≠ some true

/-- The blank texts at the ends are not there any more in the end. -/
theorem bounded_iff_enclosed {shape : Shape} {ns ms : List Node}
    (settles : Markdown.SettlesAll shape.trimsEdges true ns ms) :
    Bounded shape ms ↔ Enclosed shape ns := by
  refine forall_congr' fun isLine => ?_
  have trims : shape.trimsEdges := by
    cases shape with
    | paragraph | heading => rfl
    | _ => cases isLine
  have ends : ∀ side : Option Node,
      (∀ n ∈ side, ¬ n.isBreak) ↔ side.map Node.isBreak ≠ some true := by
    intro side
    cases side <;> simp
  rw [ends, ends, settles.lead_front trims (.inl rfl), settles.lead_back trims]

/-- Looks for breaks behind blank texts with nothing that is sure to be seen before them. -/
def boundingScan : Scan where
  step g m :=
    match m with
    | .blank => some (if g = .lit then .lit else .dim)
    | .feed => if g = .dim then none else some g
    | .ink => some .lit
    | .wisp => some g
    | _ => some (if g = .dim then .dim else .edge)
  ends _ := true

def bounds (ms : List Stroke) : Bool :=
  boundingScan.passes .edge ms && boundingScan.passes .edge ms.reverse

def boundingRule : Rule where
  line := bounds
  heading := bounds
  flow := bounds
  strays := true

theorem steady_boundingScan : boundingScan.Steady where
  ends := by decide
  skip := by decide
  stay := by decide +kernel
  wall := by decide

theorem bounds_refined {ms ks : List Stroke} (refines : Refines ms ks) (meets : bounds ms) :
    bounds ks := by
  obtain ⟨front, back⟩ := Bool.and_eq_true_iff.mp meets
  exact Bool.and_eq_true_iff.mpr ⟨steady_boundingScan.refined refines (Nat.le_refl _) front,
    steady_boundingScan.refined refines.reverse (Nat.le_refl _) back⟩

section Passes

variable {n : Node} {ns front back : List Node}

/-- Where a scan stops for blank texts with nothing seen, no break comes first besides them. -/
theorem lead_of_dim (passes : boundingScan.passes .dim (ns.map Node.stroke)) :
    lead ns ≠ some true := by
  induction ns with
  | nil => exact nofun
  | cons n ns ih =>
      by_cases blank : n.isBlank
      · have stroke : n.stroke = .blank := if_pos blank
        rw [List.map_cons, stroke] at passes
        have same : lead (n :: ns) = lead ns := by simp [lead, blank]
        exact same ▸ ih passes
      · rw [Markdown.lead_cons_of_filled blank]
        intro isBreak
        rw [List.map_cons, stroke_of_isBreak (Option.some.inj isBreak)] at passes
        exact Bool.false_ne_true passes

theorem passes_front {g : Glance} {ms ks : List Stroke}
    (passes : boundingScan.passes g (ms ++ ks)) : boundingScan.passes g ms := by
  induction ms generalizing g with
  | nil => rfl
  | cons m ms ih =>
      obtain ⟨h, step, rest⟩ := Scan.passes_cons.mp passes
      exact Scan.passes_cons.mpr ⟨h, step, ih rest⟩

/-- Between breaks, what does not begin with a break does not do so besides blank texts. -/
theorem lead_between (fronts : ∀ n ∈ front, n.isBreak) (first : ∀ n ∈ ns.head?, ¬ n.isBreak)
    (passes : boundingScan.passes .edge ((front ++ (ns ++ back)).map Node.stroke)) :
    lead ns ≠ some true := by
  induction front with
  | nil =>
      rw [List.nil_append, List.map_append] at passes
      replace passes := passes_front passes
      cases ns with
      | nil => exact nofun
      | cons n ns =>
          by_cases blank : n.isBlank
          · have stroke : n.stroke = .blank := if_pos blank
            rw [List.map_cons, stroke] at passes
            have same : lead (n :: ns) = lead ns := by simp [lead, blank]
            exact same ▸ lead_of_dim passes
          · rw [Markdown.lead_cons_of_filled blank]
            exact fun isBreak => first n rfl (Option.some.inj isBreak)
  | cons n front ih =>
      -- At the edge a break leaves the scan where it is.
      obtain ⟨here, rest⟩ := List.forall_mem_cons.mp fronts
      rw [List.cons_append, List.map_cons, stroke_of_isBreak here] at passes
      exact ih rest passes

theorem ends_dropSurroundingBreaks (ns : List Node) :
    (∀ n ∈ (dropSurroundingBreaks ns).head?, ¬ n.isBreak) ∧
      ∀ n ∈ (dropSurroundingBreaks ns).getLast?, ¬ n.isBreak := by
  have front : ∀ (l : List Node), ∀ n ∈ (l.dropWhile Node.isBreak).head?, ¬ n.isBreak := by
    intro l n first
    have other := List.head?_dropWhile_not Node.isBreak l
    rw [Option.mem_def.mp first] at other
    exact Bool.eq_false_iff.mp (by simpa using other)
  refine ⟨front _, fun n last => ?_⟩
  let kept := (ns.reverse.dropWhile Node.isBreak).reverse
  have same : kept.getLast? = some n := by
    have last : (kept.dropWhile Node.isBreak).getLast? = some n := last
    have whole := @List.takeWhile_append_dropWhile _ Node.isBreak kept
    rw [← whole, List.getLast?_append, last]
    rfl
  rw [List.getLast?_reverse] at same
  exact front ns.reverse n same

theorem enclosed_of_bounds (meets : bounds (ns.map Node.stroke)) (shape : Shape) :
    Enclosed shape (dropSurroundingBreaks ns) := by
  intro _
  obtain ⟨forward, backward⟩ := Bool.and_eq_true_iff.mp meets
  obtain ⟨front, back, breaks, same⟩ := Markdown.exists_of_dropSurroundingBreaks ns
  obtain ⟨first, last⟩ := ends_dropSurroundingBreaks ns
  obtain ⟨fronts, backs⟩ := List.forall_mem_append.mp breaks
  generalize dropSurroundingBreaks ns = kept at same first last ⊢
  subst same
  constructor
  · rw [List.append_assoc] at forward
    exact lead_between fronts first forward
  · have backs : ∀ n ∈ back.reverse, n.isBreak := by simpa using backs
    rw [← List.map_reverse, List.reverse_append, List.reverse_append] at backward
    exact lead_between backs (by rwa [List.head?_reverse]) backward

end Passes

theorem governs_boundingRule : boundingRule.Governs Enclosed where
  free {shape} unruled ns isLine := by
    cases shape with
    | paragraph | heading => exact absurd rfl unruled
    | _ => cases isLine
  item := iff_of_true nofun fun _ _ => .inl rfl
  cover _ _ _ := ⟨nofun, nofun⟩
  line meets _ := enclosed_of_bounds meets _
  heading meets := enclosed_of_bounds meets _
  run regular meets found _ := by
    obtain ⟨forward, backward⟩ := Bool.and_eq_true_iff.mp meets
    apply enclosed_of_bounds
    exact Bool.and_eq_true_iff.mpr ⟨steady_boundingScan.run regular found forward,
      steady_boundingScan.run_reverse regular found backward⟩
  refinedLine := bounds_refined
  refinedHeading := bounds_refined
  refinedFlow := bounds_refined
  nested := rfl

/-- A result has no breaks at the ends of paragraphs and headings where the walk leaves none there
besides blank texts. That is so where the source has something to be seen before a break that comes
after a blank text, from both ends of a line. -/
theorem bounded_convert [UrlReader] (options : Options) (tree : Html.Node) :
    ((convert options standard tree).Throughout (Node.Keeps Bounded) ↔
      (walkTree options standard (tree.minify options.newlines)).Throughout
        (Node.Keeps Enclosed)) ∧
    (boundingRule.metBy options (tree.minify options.newlines) →
      (convert options standard tree).Throughout (Node.Keeps Bounded)) :=
  keeps_convert governs_boundingRule (fun _ => bounded_iff_enclosed) id options tree

def surroundedLines : Html.Node :=
  let element (tag : String) (children : List Html.Node) : Html.Node :=
    .element tag OrderedMap.empty children none
  let lineBreak := element "br" []
  .root [
    element "p" [lineBreak, .text "a" none, lineBreak, .text "b" none],
    element "h1" [.text " c " none, lineBreak],
    element "div" [.text "d " none, lineBreak, element "em" [.text "e" none], lineBreak]] none

theorem bounded_convert_surroundedLines :
    boundingRule.metBy {} (surroundedLines.minify false) ∧
      (convert {} standard surroundedLines).Throughout (Node.Keeps Bounded) :=
  ⟨by decide +kernel, (bounded_convert {} surroundedLines).2 (by decide +kernel)⟩

end HtmlToMarkdown
