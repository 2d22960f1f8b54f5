import HtmlToMarkdown.Conversion.Inline
import HtmlToMarkdown.Proofs.Unmixed
import Mathlib.Data.List.Chain
import Mathlib.Data.Fintype.Sets

/-!
What can be told of siblings in a line before they are all known. A sketch of them is a list of
strokes: the siblings can be cut into parts, one for each stroke, and what is in a part is as its
stroke says. A part may be empty, so a stroke tells what may be there; only ink is there for sure.
-/

namespace HtmlToMarkdown

open Markdown (Node flatten pieces split)
open Text (isTabOrSpace)

inductive Stroke
  /-- Texts of tabs and spaces only. -/
  | blank
  /-- Breaks. -/
  | feed
  /-- Phrasing content that can be seen, at least one node of it. -/
  | ink
  /-- The same, if there is any. -/
  | wisp
  /-- Blocks. -/
  | block
  /-- Anything but blank texts and breaks. -/
  | other
  deriving DecidableEq, Repr

namespace Markdown.Node

/-- A text of tabs and spaces only, which the normal form drops at an edge. -/
def isBlank : Node → Bool
  | .leaf (.text value) _ => value.toList.all isTabOrSpace
  | _ => false

def stroke (n : Node) : Stroke :=
  if n.isBlank then .blank
  else if n.isBreak then .feed
  else if n.isPhrasing then .ink
  else .block

end Markdown.Node

namespace Stroke

instance : Fintype Stroke where
  elems := {blank, feed, ink, wisp, block, other}
  complete m := by cases m <;> simp

def isInline : Stroke → Bool
  | blank => true
  | feed => true
  | ink => true
  | wisp => true
  | _ => false

def loosen : Stroke → Stroke
  | ink => wisp
  | m => m

def Fits : Stroke → Node → Prop
  | blank, n => n.isBlank ∧ n.Inline
  | feed, n => n.isBreak ∧ n.Inline
  | ink, n => ¬ n.isBlank ∧ ¬ n.isBreak ∧ n.Inline
  | wisp, n => ¬ n.isBlank ∧ ¬ n.isBreak ∧ n.Inline
  | block, n => ¬ n.isPhrasing
  | other, n => ¬ n.isBlank ∧ ¬ n.isBreak

def Allows : Stroke → Stroke → Prop
  | wisp, k => k = ink ∨ k = wisp
  | other, k => k ≠ blank ∧ k ≠ feed
  | m, k => k = m

instance (m k : Stroke) : Decidable (m.Allows k) :=
  match m with
  | wisp => inferInstanceAs (Decidable (k = ink ∨ k = wisp))
  | other => inferInstanceAs (Decidable (k ≠ blank ∧ k ≠ feed))
  | blank => inferInstanceAs (Decidable (k = blank))
  | feed => inferInstanceAs (Decidable (k = feed))
  | ink => inferInstanceAs (Decidable (k = ink))
  | block => inferInstanceAs (Decidable (k = block))

theorem allows_self (m : Stroke) : m.Allows m := by
  cases m with
  | wisp => exact .inr rfl
  | other => exact ⟨nofun, nofun⟩
  | _ => rfl

theorem eq_blank_of_allows : ∀ {m : Stroke}, m.Allows blank → m = blank := by decide

end Stroke

/-- The list can be cut into parts, one for each stroke, whose elements are as the stroke says. -/
inductive Sketches {α : Type} (fits : Stroke → α → Prop) : List Stroke → List α → Prop
  | nil : Sketches fits [] []
  | cons {m : Stroke} {ms : List Stroke} {front as : List α} (each : ∀ a ∈ front, fits m a)
    (filled : m = .ink → front ≠ []) (rest : Sketches fits ms as) :
    Sketches fits (m :: ms) (front ++ as)

namespace Sketches

variable {α β : Type} {fits : Stroke → α → Prop} {m : Stroke} {ms others : List Stroke}
  {as bs : List α}

theorem append (sketches : Sketches fits ms as) (more : Sketches fits others bs) :
    Sketches fits (ms ++ others) (as ++ bs) := by
  induction sketches with
  | nil => exact more
  | cons each filled _ ih =>
      rw [List.append_assoc]
      exact .cons each filled ih

theorem single (each : ∀ a ∈ as, fits m a) (filled : m = .ink → as ≠ []) :
    Sketches fits [m] as := by
  rw [← List.append_nil as]
  exact .cons each filled .nil

theorem one {a : α} (here : fits m a) : Sketches fits [m] [a] :=
  single (List.forall_mem_singleton.mpr here) fun _ => List.cons_ne_nil a []

theorem skip (loose : m ≠ .ink) (sketches : Sketches fits ms as) : Sketches fits (m :: ms) as := by
  have nothing : Sketches fits [m] [] := single nofun fun ink => absurd ink loose
  exact nothing.append sketches

theorem reverse (sketches : Sketches fits ms as) : Sketches fits ms.reverse as.reverse := by
  induction sketches with
  | nil => exact .nil
  | @cons m ms front as each filled _ ih =>
      rw [List.reverse_append, List.reverse_cons]
      refine ih.append (single (fun a member => each a (List.mem_reverse.mp member)) ?_)
      simpa using filled

theorem exists_stroke (sketches : Sketches fits ms as) {a : α} (member : a ∈ as) :
    ∃ m ∈ ms, fits m a := by
  induction sketches with
  | nil => cases member
  | cons each _ _ ih =>
      rcases List.mem_append.mp member with here | later
      · exact ⟨_, List.mem_cons_self, each a here⟩
      · obtain ⟨m, inside, here⟩ := ih later
        exact ⟨m, List.mem_cons_of_mem _ inside, here⟩

theorem exists_ink (sketches : Sketches fits ms as) (inked : .ink ∈ ms) :
    ∃ a ∈ as, fits .ink a := by
  induction sketches with
  | nil => cases inked
  | @cons m ms front as each filled _ ih =>
      rcases List.mem_cons.mp inked with rfl | later
      · obtain ⟨a, member⟩ := List.exists_mem_of_ne_nil front (filled rfl)
        exact ⟨a, List.mem_append_left _ member, each a member⟩
      · obtain ⟨a, member, here⟩ := ih later
        exact ⟨a, List.mem_append_right _ member, here⟩

theorem flatMap {others : Stroke → β → Prop} {f : α → List β} (sketches : Sketches fits ms as)
    (made : ∀ a ∈ as, ∀ m, fits m a → (m = .ink → f a ≠ []) ∧ ∀ b ∈ f a, others m b) :
    Sketches others ms (as.flatMap f) := by
  induction sketches with
  | nil => exact .nil
  | @cons m ms front as each filled _ ih =>
      rw [List.flatMap_append]
      refine .cons ?_ ?_ (ih fun a member => made a (List.mem_append_right _ member))
      · intro b member
        obtain ⟨a, inside, here⟩ := List.mem_flatMap.mp member
        exact (made a (List.mem_append_left _ inside) m (each a inside)).2 b here
      · intro ink
        obtain ⟨a, inside⟩ := List.exists_mem_of_ne_nil front (filled ink)
        have some := (made a (List.mem_append_left _ inside) m (each a inside)).1 ink
        intro none
        exact some (List.flatMap_eq_nil_iff.mp none a inside)

theorem map {others : Stroke → β → Prop} {f : α → β} (sketches : Sketches fits ms as)
    (made : ∀ a ∈ as, ∀ m, fits m a → others m (f a)) : Sketches others ms (as.map f) := by
  rw [List.map_eq_flatMap]
  exact sketches.flatMap fun a member m here =>
    ⟨fun _ => List.cons_ne_nil _ _, List.forall_mem_singleton.mpr (made a member m here)⟩

theorem loosened (ms : List Stroke) : Sketches fits (ms.map Stroke.loosen) [] := by
  induction ms with
  | nil => exact .nil
  | cons m ms ih => exact skip (by cases m <;> exact Stroke.noConfusion) ih

theorem loosen {fits : Stroke → α → Prop} (looser : ∀ a, fits .ink a → fits .wisp a)
    (sketches : Sketches fits ms as) : Sketches fits (ms.map Stroke.loosen) as := by
  induction sketches with
  | nil => exact .nil
  | @cons m ms front as each filled _ ih =>
      refine .cons (fun a member => ?_) (fun ink => ?_) ih
      · have here := each a member
        cases m with
        | ink => exact looser a here
        | _ => exact here
      · cases m <;> cases ink

end Sketches

abbrev Depicts (ms : List Stroke) (ns : List Node) : Prop := Sketches Stroke.Fits ms ns

abbrev Refines (ms ks : List Stroke) : Prop := Sketches Stroke.Allows ms ks

section Nodes

variable {m : Stroke} {ms : List Stroke} {n : Node} {ns : List Node}

theorem kind_of_isBlank (blank : n.isBlank) : n.kind = .text := by
  apply Markdown.isText_iff_kind.mp
  cases n with
  | parent shape origin children => cases blank
  | leaf content origin => cases content <;> first | rfl | cases blank

theorem isBreak_iff_kind : n.isBreak ↔ n.kind = .lineBreak := by
  cases n with
  | parent shape origin children =>
      cases shape <;> simp [Node.isBreak, Markdown.Shape.kind]
  | leaf content origin => cases content <;> simp [Node.isBreak, Markdown.Leaf.kind]

theorem visible_of_kind (text : n.kind ≠ .text) (lineBreak : n.kind ≠ .lineBreak) :
    ¬ n.isBlank ∧ ¬ n.isBreak :=
  ⟨fun blank => text (kind_of_isBlank blank),
    fun isBreak => lineBreak (isBreak_iff_kind.mp isBreak)⟩

theorem kind_of_block (regular : n.Regular) (block : ¬ n.isPhrasing) :
    n.kind ≠ .text ∧ n.kind ≠ .lineBreak := by
  refine ⟨fun text => ?_, fun isBreak => ?_⟩
  · exact regular.not_isText block (Markdown.isText_iff_kind.mpr text)
  cases n with
  | parent shape origin children => cases shape <;> cases isBreak
  | leaf content origin =>
      rw [regular.isPhrasing_leaf] at block
      cases content with
      | lineBreak => exact block rfl
      | _ => cases isBreak

theorem visible_of_block (regular : n.Regular) (block : ¬ n.isPhrasing) :
    ¬ n.isBlank ∧ ¬ n.isBreak :=
  visible_of_kind (kind_of_block regular block).1 (kind_of_block regular block).2

theorem stroke_of_visible (visible : ¬ n.isBlank ∧ ¬ n.isBreak) :
    n.stroke = if n.isPhrasing then .ink else .block := by
  rw [Node.stroke, if_neg visible.1, if_neg visible.2]

theorem stroke_of_isBreak (isBreak : n.isBreak) : n.stroke = .feed := by
  have filled : ¬ n.isBlank := by
    intro blank
    have both := (kind_of_isBlank blank).symm.trans (isBreak_iff_kind.mp isBreak)
    cases both
  exact (if_neg filled).trans (if_pos isBreak)

theorem Stroke.allows_of_visible (visible : ¬ n.isBlank ∧ ¬ n.isBreak) :
    Stroke.other.Allows n.stroke := by
  rw [stroke_of_visible visible]
  cases n.isPhrasing <;> exact ⟨nofun, nofun⟩

theorem Stroke.Fits.allows (fits : m.Fits n) (regular : n.Regular) : m.Allows n.stroke := by
  cases m with
  | blank => exact if_pos fits.1
  | feed => exact stroke_of_isBreak fits.1
  | ink => exact (stroke_of_visible ⟨fits.1, fits.2.1⟩).trans (if_pos fits.2.2.self)
  | wisp => exact .inl ((stroke_of_visible ⟨fits.1, fits.2.1⟩).trans (if_pos fits.2.2.self))
  | block => exact (stroke_of_visible (visible_of_block regular fits)).trans (if_neg fits)
  | other => exact allows_of_visible fits

theorem visible_of_mem_split (visible : ¬ n.isBlank ∧ ¬ n.isBreak)
    (regular : n.Throughout Node.Regular) : ∀ k ∈ split n, ¬ k.isBlank ∧ ¬ k.isBreak := by
  cases n with
  | leaf content origin =>
      rw [split]
      exact List.forall_mem_singleton.mpr visible
  | parent shape origin children =>
      by_cases straddles : shape.isSplittable && Markdown.wrapNeeded children
      · rw [Markdown.split_parent straddles]
        have flat := Markdown.regular_flowInvariant.flatten (i := ())
          (Node.throughout_parent.mp regular).2
        refine List.forall_mem_map.mpr fun p found => ?_
        cases p with
        | run nodes => exact ⟨Bool.false_ne_true, Bool.false_ne_true⟩
        | block b =>
            -- A link that is pushed down into a block leaves it of its kind.
            have inside := flat b (Markdown.mem_of_mem_pieces found (List.mem_singleton_self b))
            have kind := kind_of_block inside.self (Markdown.sorted_pieces _ _ found)
            have nested := Markdown.kind_nest shape origin b
            exact visible_of_kind (nested ▸ kind.1) (nested ▸ kind.2)
      · rw [split, if_neg straddles]
        exact List.forall_mem_singleton.mpr visible

theorem Stroke.Fits.split (fits : m.Fits n) (regular : n.Throughout Node.Regular) :
    (m = .ink → Markdown.split n ≠ []) ∧ ∀ k ∈ Markdown.split n, m.Allows k.stroke := by
  have whole : Markdown.split n = [n] → (m = .ink → Markdown.split n ≠ []) ∧
      ∀ k ∈ Markdown.split n, m.Allows k.stroke := by
    intro same
    rw [same]
    exact ⟨fun _ => List.cons_ne_nil n [], List.forall_mem_singleton.mpr (fits.allows regular.self)⟩
  cases m with
  | blank => exact whole (Markdown.split_of_inline fits.2)
  | feed => exact whole (Markdown.split_of_inline fits.2)
  | ink => exact whole (Markdown.split_of_inline fits.2.2)
  | wisp => exact whole (Markdown.split_of_inline fits.2.2)
  | block => exact whole (Markdown.split_of_block regular.self fits)
  | other =>
      exact ⟨nofun, fun k member => allows_of_visible (visible_of_mem_split fits regular k member)⟩

theorem Sketches.refines (depicts : Depicts ms ns) (regular : ∀ n ∈ ns, n.Regular) :
    Refines ms (ns.map Node.stroke) :=
  depicts.map fun n member _ fits => fits.allows (regular n member)

theorem Sketches.refines_flatten (depicts : Depicts ms ns)
    (regular : ∀ n ∈ ns, n.Throughout Node.Regular) :
    Refines ms ((flatten ns).map Node.stroke) := by
  rw [flatten, List.map_flatMap]
  refine depicts.flatMap fun n member m fits => ?_
  have parts := fits.split (regular n member)
  exact ⟨fun ink => by simpa using parts.1 ink, List.forall_mem_map.mpr parts.2⟩

theorem Sketches.inlined (depicts : Depicts ms ns) (inline : ms.all Stroke.isInline) :
    ∀ n ∈ ns, n.Inline := by
  intro n member
  obtain ⟨m, inside, fits⟩ := depicts.exists_stroke member
  have phrasing := List.all_eq_true.mp inline m inside
  cases m with
  | blank => exact fits.2
  | feed => exact fits.2
  | ink => exact fits.2.2
  | wisp => exact fits.2.2
  | _ => cases phrasing

theorem Sketches.blocks (depicts : Depicts ms ns) (blocks : ∀ m ∈ ms, m = .block) :
    ∀ n ∈ ns, ¬ n.isPhrasing := by
  intro n member
  obtain ⟨m, inside, fits⟩ := depicts.exists_stroke member
  rw [blocks m inside] at fits
  exact fits

theorem isChain_pieces (ns : List Node) :
    (pieces ns).IsChain fun p q => ∀ nodes more, p = .run nodes → q ≠ .run more := by
  fun_induction pieces ns with
  | case1 => exact .nil
  | case2 n ns phrasing nodes ps same ih =>
      rw [same, List.isChain_cons] at ih
      exact List.isChain_cons.mpr ⟨fun q first _ more _ => ih.1 q first nodes more rfl, ih.2⟩
  | case3 n ns phrasing other ih =>
      refine List.isChain_cons.mpr ⟨fun q first _ more _ isRun => ?_, ih⟩
      obtain ⟨ps, same⟩ := List.head?_eq_some_iff.mp first
      exact other more ps (isRun ▸ same)
  | case4 n ns block ih =>
      refine List.isChain_cons.mpr ⟨fun q first nodes more isRun => ?_, ih⟩
      cases isRun

/-- Runs are as long as they can be: there are blocks or the ends around them. -/
theorem exists_of_run_mem_pieces {nodes : List Node} (found : .run nodes ∈ pieces ns) :
    ∃ before after, ns = before ++ nodes ++ after ∧ (∀ b ∈ before.getLast?, ¬ b.isPhrasing) ∧
      ∀ b ∈ after.head?, ¬ b.isPhrasing := by
  obtain ⟨front, back, same⟩ := List.append_of_mem found
  have sorted := Markdown.sorted_pieces ns
  have chain := isChain_pieces ns
  have whole := Markdown.nodes_pieces ns
  rw [same] at sorted chain whole
  obtain ⟨-, later, meeting⟩ := List.isChain_append.mp chain
  refine ⟨front.flatMap Markdown.Piece.nodes, back.flatMap Markdown.Piece.nodes, ?_, ?_, ?_⟩
  · rw [← whole, List.flatMap_append, List.flatMap_cons, List.append_assoc]
    rfl
  · rcases List.eq_nil_or_concat front with rfl | ⟨ps, p, rfl⟩
    · exact nofun
    · cases p with
      | run more =>
          exact absurd rfl (meeting (.run more) (by simp) (.run nodes) rfl more nodes rfl)
      | block b =>
          have block : ¬ b.isPhrasing := sorted (.block b) (by simp)
          simpa [Markdown.Piece.nodes] using block
  · cases back with
    | nil => exact nofun
    | cons p ps =>
        cases p with
        | run more => exact absurd rfl ((List.isChain_cons.mp later).1 _ rfl nodes more rfl)
        | block b =>
            have block : ¬ b.isPhrasing := sorted (.block b) (by simp)
            simpa [Markdown.Piece.nodes] using block

end Nodes

section Quotes

open Handler (closeQuote openQuote quoteWith)

/-- The stroke of a quotation mark, which may be joined to a text beside it. -/
def sideStroke (value : String) : Stroke :=
  if value.toList.all isTabOrSpace then .blank else .wisp

def textBefore (value : String) (join : String → String) : List Node → List Node
  | .leaf (.text other) origin :: ns => .leaf (.text (join other)) origin :: ns
  | ns => .text value :: ns

theorem openQuote_eq (value : String) (ns : List Node) :
    openQuote value ns = textBefore value (value ++ ·) ns := by
  cases ns with
  | nil => rfl
  | cons n ns =>
      cases n with
      | parent shape origin children => rfl
      | leaf content origin => cases content <;> rfl

theorem textBefore_append {value : String} {join : String → String} {ns ms : List Node}
    (filled : ns ≠ []) : textBefore value join (ns ++ ms) = textBefore value join ns ++ ms := by
  cases ns with
  | nil => exact absurd rfl filled
  | cons n ns =>
      cases n with
      | parent shape origin children => rfl
      | leaf content origin => cases content <;> rfl

theorem closeQuote_eq (value : String) (ns : List Node) :
    closeQuote value ns = (textBefore value (· ++ value) ns.reverse).reverse := by
  fun_induction closeQuote value ns with
  | case1 => rfl
  | case2 other origin => rfl
  | case3 n notText =>
      cases n with
      | parent shape origin children => rfl
      | leaf content origin =>
          cases content with
          | text other => exact absurd rfl (notText other origin)
          | _ => rfl
  | case4 n ns _ more ih =>
      have filled : ns.reverse ≠ [] := by simpa using more
      rw [List.reverse_cons, textBefore_append filled, List.reverse_append, ih]
      rfl

variable {ms : List Stroke} {ns : List Node}

theorem fits_sideStroke (value : String) : (sideStroke value).Fits (.text value) := by
  have inlined : (Node.text value).Inline := Node.throughout_leaf.mpr rfl
  unfold sideStroke
  split
  next blank => exact ⟨blank, inlined⟩
  next filled => exact ⟨filled, Bool.false_ne_true, inlined⟩

theorem inline_retext {value other : String} {origin : Markdown.Origin}
    (inlined : (Node.leaf (.text value) origin).Inline) :
    (Node.leaf (.text other) origin).Inline :=
  Node.throughout_leaf.mpr (Node.throughout_leaf.mp inlined)

/-- What a stroke says of a text depends only on whether it is blank. -/
theorem Stroke.Fits.retext {m : Stroke} {value other : String} {origin : Markdown.Origin}
    (fits : m.Fits (.leaf (.text value) origin))
    (same : other.toList.all isTabOrSpace = value.toList.all isTabOrSpace) :
    m.Fits (.leaf (.text other) origin) := by
  have blank : (Node.leaf (.text other) origin).isBlank =
      (Node.leaf (.text value) origin).isBlank := same
  cases m with
  | blank => exact ⟨blank ▸ fits.1, inline_retext fits.2⟩
  | feed => exact absurd fits.1 Bool.false_ne_true
  | ink => exact ⟨blank ▸ fits.1, fits.2.1, inline_retext fits.2.2⟩
  | wisp => exact ⟨blank ▸ fits.1, fits.2.1, inline_retext fits.2.2⟩
  | block => exact fits
  | other => exact ⟨blank ▸ fits.1, fits.2⟩

variable {value : String} {join : String → String}
  (both : ∀ other, (join other).toList.all isTabOrSpace =
    (value.toList.all isTabOrSpace && other.toList.all isTabOrSpace))

include both

/-- A text is what it was after another one was joined to it, unless it was blank and the other one
is not. -/
theorem fits_joined {m : Stroke} {other : String} {origin : Markdown.Origin}
    (fits : m.Fits (.leaf (.text other) origin)) :
    m.Fits (.leaf (.text (join other)) origin) ∨
      m ≠ .ink ∧ (sideStroke value).Fits (.leaf (.text (join other)) origin) := by
  have joined := both other
  cases blankValue : value.toList.all isTabOrSpace with
  | true =>
      rw [blankValue, Bool.true_and] at joined
      exact .inl (fits.retext joined)
  | false =>
      rw [blankValue, Bool.false_and] at joined
      cases blankOther : other.toList.all isTabOrSpace with
      | false => exact .inl (fits.retext (joined.trans blankOther.symm))
      | true =>
          have side : sideStroke value = .wisp := if_neg (Bool.eq_false_iff.mp blankValue)
          cases m with
          | blank =>
              exact .inr ⟨nofun, side ▸
                ⟨Bool.eq_false_iff.mp joined, Bool.false_ne_true, inline_retext fits.2⟩⟩
          | feed => exact absurd fits.1 Bool.false_ne_true
          | block => exact .inl fits
          | ink | wisp | other => exact absurd blankOther fits.1

theorem depicts_textBefore (depicts : Depicts ms ns) :
    Depicts (sideStroke value :: ms) (textBefore value join ns) := by
  have side : Depicts [sideStroke value] [.text value] := .one (fits_sideStroke value)
  have loose : sideStroke value ≠ .ink := by
    unfold sideStroke
    split <;> exact Stroke.noConfusion
  induction depicts with
  | nil => exact side
  | @cons m ms front ns each filled rest ih =>
      -- The text may be joined to the first node there is, whichever part that is in.
      cases front with
      | nil =>
          rw [List.nil_append]
          generalize textBefore value join ns = made at ih
          cases ih with
          | cons eachBefore filledBefore later =>
              exact .cons eachBefore filledBefore (.skip (fun ink => filled ink rfl) later)
      | cons n front =>
          obtain ⟨here, behind⟩ := List.forall_mem_cons.mp each
          have apart := side.append (.cons each filled rest)
          cases n with
          | parent shape origin children => exact apart
          | leaf content origin =>
              cases content with
              | text other =>
                  let joined : Node := .leaf (.text (join other)) origin
                  change Depicts (sideStroke value :: m :: ms) (joined :: (front ++ ns))
                  rcases fits_joined both here with fits | ⟨notInk, fits⟩
                  · have whole : Depicts [m] (joined :: front) :=
                      .single (List.forall_mem_cons.mpr ⟨fits, behind⟩)
                        fun _ => List.cons_ne_nil _ _
                    exact .skip loose (whole.append rest)
                  · have single : Depicts [sideStroke value] [joined] := .one fits
                    exact single.append (.cons behind (fun ink => absurd ink notInk) rest)
              | _ => exact apart

omit both

theorem Sketches.quoteWith (marks : String × String) (depicts : Depicts ms ns) :
    Depicts (sideStroke marks.1 :: (ms ++ [sideStroke marks.2])) (quoteWith marks ns) := by
  have side : ∀ value, Depicts [sideStroke value] [.text value] := fun value =>
    .one (fits_sideStroke value)
  unfold Handler.quoteWith
  split
  next none =>
    rw [List.isEmpty_iff.mp none] at depicts
    exact (side marks.1).append (depicts.append (side marks.2))
  next =>
    rw [openQuote_eq, closeQuote_eq]
    apply depicts_textBefore (by simp)
    have closed : Depicts (sideStroke marks.2 :: ms.reverse)
        (textBefore marks.2 (· ++ marks.2) ns.reverse) :=
      depicts_textBefore (by simp [Bool.and_comm]) depicts.reverse
    simpa using closed.reverse

end Quotes

end HtmlToMarkdown
