import HtmlToMarkdown.Proofs.Normal
import Mathlib.Data.List.Forall2

namespace List

variable {α β : Type} {R S : α → β → Prop}

theorem SublistForall₂.append {as cs : List α} {bs ds : List β} (front : SublistForall₂ R as bs)
    (back : SublistForall₂ R cs ds) : SublistForall₂ R (as ++ cs) (bs ++ ds) := by
  rcases sublistForall₂_iff.mp front with ⟨fronts, related, sub⟩
  rcases sublistForall₂_iff.mp back with ⟨backs, relatedBack, subBack⟩
  exact sublistForall₂_iff.mpr ⟨_, rel_append related relatedBack, sub.append subBack⟩

theorem SublistForall₂.imp_of_mem {as : List α} {bs : List β} (related : SublistForall₂ R as bs)
    (implies : ∀ a, ∀ b ∈ bs, R a b → S a b) : SublistForall₂ S as bs := by
  induction related with
  | nil => exact .nil
  | cons here _ ih =>
      exact .cons (implies _ _ mem_cons_self here)
        (ih fun a b member => implies a b (mem_cons_of_mem _ member))
  | cons_right _ ih =>
      exact .cons_right (ih fun a b member => implies a b (mem_cons_of_mem _ member))

theorem SublistForall₂.exists_of_mem {as : List α} {bs : List β}
    (related : SublistForall₂ R as bs) : ∀ a ∈ as, ∃ b ∈ bs, R a b := by
  induction related with
  | nil => exact fun a member => nomatch member
  | cons here _ ih =>
      exact forall_mem_cons.mpr ⟨⟨_, mem_cons_self, here⟩, fun a member =>
        (ih a member).imp fun b found => ⟨mem_cons_of_mem _ found.1, found.2⟩⟩
  | cons_right _ ih =>
      exact fun a member => (ih a member).imp fun b found => ⟨mem_cons_of_mem _ found.1, found.2⟩

end List

namespace HtmlToMarkdown.Markdown

open List (SublistForall₂)

def heldRun : List Node → List (List Node)
  | [] => []
  | run => [run]

mutual

/-- The nodes of a tree in the order of the document, each on its own but for the texts side by
side, which stay together. -/
def Node.units : Node → List (List Node)
  | .parent shape origin children => [.parent shape origin children] :: unitsFrom [] children
  | .leaf content origin => [[.leaf content origin]]

def unitsFrom (run : List Node) : List Node → List (List Node)
  | [] => heldRun run
  | n :: ns =>
    if n.isText then unitsFrom (run ++ [n]) ns else heldRun run ++ n.units ++ unitsFrom [] ns

end

/-- The value and the origin of the text that the texts of a run become. -/
inductive Joined : List Node → String → Origin → Prop
  | one (value : String) (origin : Origin) : Joined [.leaf (.text value) origin] value origin
  | more {run : List Node} {value : String} {origin : Origin} (joined : Joined run value origin)
      (next : String) (place : Origin) :
      Joined (run ++ [.leaf (.text next) place]) (value ++ next) (origin.extend place)

inductive MadeOf : Node → List Node → Prop
  | one (n : Node) : MadeOf n.normalize [n]
  | run {run : List Node} {value : String} {origin : Origin} (joined : Joined run value origin)
      (first last : Bool) : MadeOf (.leaf (.text (tidy first last value)) origin) run

theorem exists_of_isText {n : Node} (isText : n.isText) :
    ∃ value origin, n = .leaf (.text value) origin := by
  cases n with
  | parent shape origin children => cases isText
  | leaf content origin =>
      cases content with
      | text value => exact ⟨value, origin, rfl⟩
      | _ => cases isText

@[simp] theorem subtreeAll_append (ns ms : List Node) :
    subtreeAll (ns ++ ms) = subtreeAll ns ++ subtreeAll ms := by
  induction ns with
  | nil => rfl
  | cons n ns ih => rw [List.cons_append, subtreeAll, subtreeAll, ih, List.append_assoc]

section Units

variable {run ns : List Node}

theorem heldRun_of_ne_nil (filled : run ≠ []) : heldRun run = [run] := by
  cases run with
  | nil => exact absurd rfl filled
  | cons n ns => rfl

theorem Joined.ne_nil {value : String} {origin : Origin} (joined : Joined run value origin) :
    run ≠ [] := by
  cases joined <;> simp

theorem mem_heldRun {unit : List Node} (member : unit ∈ heldRun run) : unit = run := by
  cases run with
  | nil => cases member
  | cons n ns => exact List.mem_singleton.mp member

mutual

theorem mem_subtree_of_mem_units (n : Node) {unit : List Node} (member : unit ∈ n.units) :
    ∀ m ∈ unit, m ∈ n.subtree := by
  match n with
  | .leaf content origin =>
      rw [List.mem_singleton.mp member]
      exact fun m inside => inside
  | .parent shape origin children =>
      rcases List.mem_cons.mp member with rfl | below
      · exact List.forall_mem_singleton.mpr (self_mem_subtree _)
      · intro m inside
        rcases mem_subtreeAll_of_mem_units children below m inside with absent | below
        · cases absent
        · exact List.mem_cons_of_mem _ below

theorem mem_subtreeAll_of_mem_units (ns : List Node) {run unit : List Node}
    (member : unit ∈ unitsFrom run ns) : ∀ m ∈ unit, m ∈ run ∨ m ∈ subtreeAll ns := by
  match ns with
  | [] =>
      rw [mem_heldRun member]
      exact fun m inside => .inl inside
  | n :: ns =>
      intro m inside
      rw [unitsFrom] at member
      rw [subtreeAll, List.mem_append]
      split at member
      · rcases mem_subtreeAll_of_mem_units ns member m inside with before | below
        · rcases List.mem_append.mp before with held | here
          · exact .inl held
          · exact .inr (.inl (List.mem_singleton.mp here ▸ self_mem_subtree n))
        · exact .inr (.inr below)
      · rcases List.mem_append.mp member with front | rest
        · rcases List.mem_append.mp front with held | here
          · exact .inl (mem_heldRun held ▸ inside)
          · exact .inr (.inl (mem_subtree_of_mem_units n here m inside))
        · rcases mem_subtreeAll_of_mem_units ns rest m inside with absent | below
          · cases absent
          · exact .inr (.inr below)

end

end Units

section Normalization

def Holds : Option (String × Origin) → List Node → Prop
  | none, run => run = []
  | some (value, origin), run => Joined run value origin

variable {held : Option (String × Origin)} {run : List Node}

theorem holds_none : Holds none [] := rfl

theorem Holds.more (holds : Holds held run) (value : String) (origin : Origin) (ns : List Node) :
    ∃ next, mergeTexts held (.leaf (.text value) origin :: ns) = mergeTexts next ns ∧
      Holds next (run ++ [.leaf (.text value) origin]) := by
  rcases held with - | ⟨before, place⟩
  · rw [show run = [] from holds]
    exact ⟨_, rfl, .one value origin⟩
  · exact ⟨_, rfl, .more holds value origin⟩

theorem exists_of_held (holds : Holds held run) (trims first : Bool) (ns : List Node) :
    ∃ kept before, tidyTexts trims first (heldText held ++ ns) = kept ++ tidyTexts trims before ns ∧
      SublistForall₂ MadeOf (subtreeAll kept) (heldRun run) := by
  rcases held with - | ⟨value, origin⟩
  · exact ⟨[], first, rfl, .nil⟩
  · rw [heldText, List.singleton_append, tidyTexts]
    split
    · exact ⟨[], false, rfl, .nil⟩
    · refine ⟨[_], false, rfl, ?_⟩
      rw [heldRun_of_ne_nil (Joined.ne_nil holds)]
      exact .cons (.run holds _ _) .nil

mutual

/-- Each node of the normal form is made of a unit of the tree, in the order of the document. -/
theorem madeOf_normalize (n : Node) : SublistForall₂ MadeOf n.normalize.subtree n.units := by
  match n with
  | .leaf content origin => exact .cons (.one (.leaf content origin)) .nil
  | .parent shape origin children =>
      exact .cons (.one (.parent shape origin children))
        (madeOf_normalizeAll children holds_none shape.trimsEdges true)

theorem madeOf_normalizeAll (ns : List Node) {held : Option (String × Origin)} {run : List Node}
    (holds : Holds held run) (trims first : Bool) :
    SublistForall₂ MadeOf
      (subtreeAll (tidyTexts trims first (mergeTexts held (normalizeAll ns))))
      (unitsFrom run ns) := by
  match ns with
  | [] =>
      rcases exists_of_held holds trims first [] with ⟨kept, before, same, made⟩
      rw [List.append_nil, tidyTexts, List.append_nil] at same
      rw [normalizeAll, mergeTexts, unitsFrom, same]
      exact made
  | n :: ns =>
      -- A text goes on to be held with the run; another node ends the run before it.
      by_cases isText : n.isText
      · rcases exists_of_isText isText with ⟨value, origin, rfl⟩
        rcases holds.more value origin (normalizeAll ns) with ⟨next, same, stillHolds⟩
        rw [normalizeAll, Node.normalize, same, unitsFrom, if_pos isText]
        exact madeOf_normalizeAll ns stillHolds trims first
      · have other : ¬ n.normalize.isText := by rwa [isText_normalize]
        rcases exists_of_held holds trims first (n.normalize :: mergeTexts none (normalizeAll ns))
          with ⟨kept, before, same, made⟩
        rw [tidyTexts_of_not_isText other] at same
        rw [normalizeAll, mergeTexts_of_not_isText other, same, subtreeAll_append, subtreeAll,
          unitsFrom, if_neg isText, ← List.append_assoc]
        exact (made.append (madeOf_normalize n)).append
          (madeOf_normalizeAll ns holds_none trims false)

end

example (a b c d : Point) :
    (Node.paragraph [.leaf (.text "a ") { position := some ⟨a, b⟩ },
        .leaf (.text "b") { position := some ⟨c, d⟩ }]).normalize =
      .paragraph [.leaf (.text "a b") { position := some ⟨a, d⟩ }] := by
  rfl

end Normalization

end HtmlToMarkdown.Markdown
