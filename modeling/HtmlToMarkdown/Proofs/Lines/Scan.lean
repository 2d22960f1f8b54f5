import HtmlToMarkdown.Proofs.Lines.Strokes

namespace HtmlToMarkdown

open Markdown (Node pieces)

/-- What can be seen at the edge of a run, the better the earlier it stands here. -/
inductive Glance
  /-- Something that stays. -/
  | lit
  /-- Nothing that matters. -/
  | edge
  /-- Something in whose place there may be nothing in the end. -/
  | dim
  deriving DecidableEq, Repr

instance : Fintype Glance where
  elems := {.lit, .edge, .dim}
  complete g := by cases g <;> simp

def Glance.rank : Glance → Nat
  | lit => 0
  | edge => 1
  | dim => 2

structure Scan where
  step : Glance → Stroke → Option Glance
  ends : Glance → Bool

namespace Scan

def passes (scan : Scan) (g : Glance) : List Stroke → Bool
  | [] => scan.ends g
  | m :: ms =>
    match scan.step g m with
    | some h => scan.passes h ms
    | none => false

/-- A scan that gets through whatever a stroke stands for, and stops for no block. -/
structure Steady (scan : Scan) : Prop where
  ends {g h : Glance} (better : g.rank ≤ h.rank) (stops : scan.ends h) : scan.ends g
  skip {g h : Glance} {m : Stroke} (loose : m ≠ .ink) (step : scan.step g m = some h) :
    g.rank ≤ h.rank
  stay {g h i : Glance} {m k : Stroke} (step : scan.step g m = some h) (allows : m.Allows k)
    (better : i.rank ≤ g.rank ∨ i.rank ≤ h.rank) : ∃ j, scan.step i k = some j ∧ j.rank ≤ h.rank
  wall {g h : Glance} (step : scan.step g .block = some h) :
    scan.ends g ∧ Glance.edge.rank ≤ h.rank

variable {scan : Scan} {g h : Glance} {m : Stroke} {ms ks : List Stroke}

theorem passes_cons :
    scan.passes g (m :: ms) ↔ ∃ h, scan.step g m = some h ∧ scan.passes h ms := by
  rw [passes]
  cases scan.step g m <;> simp

namespace Steady

variable (steady : scan.Steady)

include steady

theorem mono (better : h.rank ≤ g.rank) (passes : scan.passes g ms) : scan.passes h ms := by
  induction ms generalizing g h with
  | nil => exact steady.ends better passes
  | cons m ms ih =>
      obtain ⟨after, step, rest⟩ := passes_cons.mp passes
      obtain ⟨other, stepped, stillBetter⟩ := steady.stay step m.allows_self (.inl better)
      exact passes_cons.mpr ⟨other, stepped, ih stillBetter rest⟩

/-- After a stroke the scan goes on through all that the stroke stands for. -/
theorem passes_front {front : List Stroke} {after : Glance} (step : scan.step g m = some after)
    (each : ∀ k ∈ front, m.Allows k) (better : h.rank ≤ after.rank)
    (rest : ∀ {h}, h.rank ≤ after.rank → scan.passes h ks) : scan.passes h (front ++ ks) := by
  induction front generalizing h with
  | nil => exact rest better
  | cons k front ih =>
      obtain ⟨here, later⟩ := List.forall_mem_cons.mp each
      obtain ⟨next, stepped, stillBetter⟩ := steady.stay step here (.inr better)
      exact passes_cons.mpr ⟨next, stepped, ih later stillBetter⟩

/-- A sketch that the scan gets through may be refined. -/
theorem refined (refines : Refines ms ks) (better : h.rank ≤ g.rank)
    (passes : scan.passes g ms) : scan.passes h ks := by
  induction refines generalizing g h with
  | nil => exact steady.ends better passes
  | @cons m ms front ks each filled refines ih =>
      obtain ⟨after, step, through⟩ := passes_cons.mp passes
      have rest : ∀ {h : Glance}, h.rank ≤ after.rank → scan.passes h ks :=
        fun better => ih better through
      cases front with
      -- Where the part is empty the scan has come no further, which is never worse.
      | nil => exact rest (better.trans (steady.skip (fun ink => filled ink rfl) step))
      | cons k front =>
          obtain ⟨here, later⟩ := List.forall_mem_cons.mp each
          obtain ⟨next, stepped, stillBetter⟩ := steady.stay step here (.inl better)
          exact passes_cons.mpr ⟨next, stepped, steady.passes_front step later stillBetter rest⟩

theorem behind {before : List Stroke} (wall : ∀ m ∈ before.getLast?, m = .block)
    (passes : scan.passes .edge (before ++ ms)) : scan.passes .edge ms := by
  -- Whatever has been seen before the block, after it a scan from the edge does no worse.
  have anew : ∀ (front : List Stroke) (g : Glance), scan.passes g (front ++ .block :: ms) →
      scan.passes .edge ms := by
    intro front
    induction front with
    | nil =>
        intro g passes
        obtain ⟨after, step, rest⟩ := passes_cons.mp passes
        exact steady.mono (steady.wall step).2 rest
    | cons m front ih =>
        intro g passes
        obtain ⟨after, -, rest⟩ := passes_cons.mp passes
        exact ih after rest
  rcases List.eq_nil_or_concat before with rfl | ⟨front, m, rfl⟩
  · exact passes
  · obtain rfl : m = .block := by simpa using wall
    rw [List.concat_eq_append, List.append_assoc] at passes
    exact anew front .edge passes

theorem ahead {after : List Stroke} (wall : ∀ m ∈ after.head?, m = .block)
    (passes : scan.passes g (ms ++ after)) : scan.passes g ms := by
  induction ms generalizing g with
  | nil =>
      cases after with
      | nil => exact passes
      | cons m after =>
          obtain rfl := wall m rfl
          obtain ⟨next, step, -⟩ := passes_cons.mp passes
          exact (steady.wall step).1
  | cons m ms ih =>
      obtain ⟨next, step, rest⟩ := passes_cons.mp passes
      exact passes_cons.mpr ⟨next, step, ih rest⟩

end Steady

end Scan

section Runs

variable {ns nodes : List Node} (regular : ∀ n ∈ ns, n.Regular)
  (found : .run nodes ∈ pieces ns)

include regular found

/-- The strokes of a run have strokes of blocks around them. -/
theorem exists_strokes_of_run :
    ∃ before after, ns.map Node.stroke = before ++ (nodes.map Node.stroke ++ after) ∧
      (∀ m ∈ before.getLast?, m = .block) ∧ ∀ m ∈ after.head?, m = .block := by
  obtain ⟨before, after, same, front, back⟩ := exists_of_run_mem_pieces found
  have stroke : ∀ b ∈ ns, ¬ b.isPhrasing → b.stroke = .block := fun b member block =>
    (stroke_of_visible (visible_of_block (regular b member) block)).trans (if_neg block)
  refine ⟨before.map Node.stroke, after.map Node.stroke, by simp [same], ?_, ?_⟩
  · rw [List.getLast?_map]
    intro m last
    obtain ⟨b, isLast, rfl⟩ := Option.map_eq_some_iff.mp last
    refine stroke b ?_ (front b isLast)
    simp [same, List.mem_of_getLast? isLast]
  · rw [List.head?_map]
    intro m first
    obtain ⟨b, isFirst, rfl⟩ := Option.map_eq_some_iff.mp first
    refine stroke b ?_ (back b isFirst)
    simp [same, List.mem_of_head? isFirst]

variable {scan : Scan} (steady : scan.Steady)

include steady

theorem Scan.Steady.run (passes : scan.passes .edge (ns.map Node.stroke)) :
    scan.passes .edge (nodes.map Node.stroke) := by
  obtain ⟨before, after, same, front, back⟩ := exists_strokes_of_run regular found
  rw [same] at passes
  exact steady.ahead back (steady.behind front passes)

theorem Scan.Steady.run_reverse (passes : scan.passes .edge (ns.map Node.stroke).reverse) :
    scan.passes .edge (nodes.map Node.stroke).reverse := by
  obtain ⟨before, after, same, front, back⟩ := exists_strokes_of_run regular found
  rw [same, List.reverse_append, List.reverse_append, List.append_assoc] at passes
  refine steady.ahead ?_ (steady.behind ?_ passes)
  · rwa [List.head?_reverse]
  · rwa [List.getLast?_reverse]

end Runs

end HtmlToMarkdown
