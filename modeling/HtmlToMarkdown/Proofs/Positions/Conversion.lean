import HtmlToMarkdown.Proofs.Positions.Units
import HtmlToMarkdown.Proofs.Walk.Invariant
import HtmlToMarkdown.Proofs.WellFormed

namespace HtmlToMarkdown.Html

mutual

def Node.positions : Node → List Position
  | .root children position => position.toList ++ positionsOf children
  | .element _ _ children position => position.toList ++ positionsOf children
  | .text _ position => position.toList
  | .comment _ position => position.toList
  | .doctype position => position.toList

def positionsOf : List Node → List Position
  | [] => []
  | n :: ns => n.positions ++ positionsOf ns

end

section Placed

variable {given : Position → Prop}

mutual

theorem placed_of_positions (n : Node) (all : ∀ p ∈ n.positions, given p) :
    n.Throughout (Node.Placed given) := by
  match n with
  | .root children position =>
      rcases List.forall_mem_append.mp all with ⟨here, below⟩
      exact ⟨fun p own => here p (Option.mem_toList.mpr own), placed_of_positionsOf children below⟩
  | .element tag properties children position =>
      rcases List.forall_mem_append.mp all with ⟨here, below⟩
      exact ⟨fun p own => here p (Option.mem_toList.mpr own), placed_of_positionsOf children below⟩
  | .text value position => exact fun p own => all p (Option.mem_toList.mpr own)
  | .comment value position => exact fun p own => all p (Option.mem_toList.mpr own)
  | .doctype position => exact fun p own => all p (Option.mem_toList.mpr own)

theorem placed_of_positionsOf (ns : List Node) (all : ∀ p ∈ positionsOf ns, given p) :
    ThroughoutAll (Node.Placed given) ns := by
  match ns with
  | [] => trivial
  | n :: ns =>
      rcases List.forall_mem_append.mp all with ⟨here, rest⟩
      exact ⟨placed_of_positions n here, placed_of_positionsOf ns rest⟩

end

theorem minifiable_placed : Minifiable (Node.Placed given) where
  root holds := holds
  element holds _ := holds
  text holds _ := holds

end Placed

end HtmlToMarkdown.Html

namespace HtmlToMarkdown.Markdown

def Node.Placed (given : Position → Prop) (n : Node) : Prop :=
  ∀ p ∈ n.position, given p

section Placed

variable {given : Position → Prop} {shape : Shape} {origin : Origin} {children : List Node}

theorem placed_parent (placed : ∀ p ∈ origin.position, given p)
    (inside : ∀ c ∈ children, c.Throughout (Node.Placed given)) :
    (Node.parent shape origin children).Throughout (Node.Placed given) :=
  Node.throughout_parent.mpr ⟨placed, inside⟩

theorem placed_trimmed (placed : ∀ p ∈ origin.position, given p)
    (inside : ∀ c ∈ children, c.Throughout (Node.Placed given)) :
    (Node.parent shape origin (dropSurroundingBreaks children)).Throughout (Node.Placed given) :=
  placed_parent placed fun c member => inside c (mem_of_mem_dropSurroundingBreaks member)

theorem placed_flowInvariant :
    FlowInvariant fun (_ : Bool) (n : Node) => n.Throughout (Node.Placed given) where
  below holds := (Node.throughout_parent.mp holds).2
  copy _ holds inside := placed_parent holds.self inside
  refill _ holds _ inside := placed_parent holds.self inside
  grid {t} _ _ _ _ _ _ holds inside := by
    apply placed_parent holds.self
    refine List.forall_mem_map.mpr fun c member => ?_
    exact inside t c member ((Node.throughout_parent.mp holds).2 c member)
  single _ _ holds inside := placed_parent holds.self (List.forall_mem_singleton.mpr inside)
  run _ _ inside := placed_trimmed ConversionInvariant.unplaced inside

theorem placed_conversionInvariant :
    ConversionInvariant given fun (_ : Bool) (n : Node) => n.Throughout (Node.Placed given) where
  toFlowInvariant := placed_flowInvariant
  leaf _ _ placed := Node.throughout_leaf.mpr placed
  retext holds _ := by
    have placed := holds.self
    exact Node.throughout_leaf.mpr placed
  phrasing _ placed inside := placed_parent placed inside
  blocks {t} _ _ _ _ placed inside :=
    placed_parent placed (placed_flowInvariant.wrap (i := t) inside)
  inlineRoot _ placed inside := placed_parent placed inside
  paragraph _ placed inside := placed_trimmed placed inside
  heading _ placed inside := placed_trimmed placed inside
  item _ _ inside := placed_parent ConversionInvariant.unplaced inside
  stray _ holds inside := placed_parent holds.self inside
  emptyItem _ := placed_parent ConversionInvariant.unplaced (by simp)
  list _ _ _ placed _ inside := placed_parent placed inside
  cell placed inside := placed_parent placed inside
  row placed _ inside := placed_parent placed inside
  refillRow holds _ inside := placed_parent holds.self inside
  table _ placed _ _ _ inside := placed_parent placed inside

end Placed

section Joined

variable {places : List Position}

theorem position_normalize (n : Node) : n.normalize.position = n.position := by
  cases n <;> rfl

theorem Joined.carried {run : List Node} {value : String} {origin : Origin}
    (joined : Joined run value origin) (placed : ∀ m ∈ run, m.Placed (· ∈ places)) :
    ∀ p ∈ origin.position, p.start ∈ places.map (·.start) ∧ p.stop ∈ places.map (·.stop) ∧
      (p ∈ places ∨ 1 < run.length) := by
  induction joined with
  | one value origin =>
      intro p own
      have given : p ∈ places := placed _ (List.mem_singleton_self _) p own
      exact ⟨List.mem_map_of_mem given, List.mem_map_of_mem given, .inl given⟩
  | @more run value origin joined next place ih =>
      rcases List.forall_mem_append.mp placed with ⟨before, here⟩
      have several : 1 < (run ++ [Node.leaf (.text next) place]).length := by
        have filled := List.length_pos_iff.mpr joined.ne_nil
        simp only [List.length_append, List.length_singleton]
        omega
      intro p own
      unfold Origin.extend at own
      split at own
      next front back found after =>
        obtain rfl := Option.mem_some.mp own
        have last : back ∈ places := here _ (List.mem_singleton_self _) back after
        exact ⟨(ih before front found).1, List.mem_map_of_mem (f := (·.stop)) last, .inr several⟩
      next => exact ⟨(ih before p own).1, (ih before p own).2.1, .inr several⟩

theorem MadeOf.carried {m : Node} {unit : List Node} (made : MadeOf m unit)
    (placed : ∀ n ∈ unit, n.Placed (· ∈ places)) :
    ∀ p ∈ m.position, p.start ∈ places.map (·.start) ∧ p.stop ∈ places.map (·.stop) ∧
      (p ∈ places ∨ m.isText ∧ 1 < unit.length) := by
  cases made with
  | one n =>
      intro p own
      rw [position_normalize] at own
      have given : p ∈ places := placed n (List.mem_singleton_self n) p own
      exact ⟨List.mem_map_of_mem given, List.mem_map_of_mem given, .inl given⟩
  | run joined first last =>
      intro p own
      rcases joined.carried placed p own with ⟨start, stop, whole | several⟩
      · exact ⟨start, stop, .inl whole⟩
      · exact ⟨start, stop, .inr ⟨rfl, several⟩⟩

end Joined

end HtmlToMarkdown.Markdown

namespace HtmlToMarkdown

open Handlers (standard)
open Markdown (MadeOf Node)

variable (options : Options) (tree : Html.Node)

/-- A walk takes all positions from the source. -/
theorem placed_walkTree [UrlReader] {given : Position → Prop}
    (holds : tree.Throughout (Html.Node.Placed given)) :
    (walkTree options standard tree).Throughout (Node.Placed given) := by
  have yields := Markdown.placed_conversionInvariant.yields_convert holds none
    (State.start options tree)
  apply Output.throughout_toTree _ yields.2
  exact fun _ inside => Markdown.placed_parent ConversionInvariant.unplaced inside

/-- Each node of a result comes from one node of the walk or from texts side by side. Its position
starts where one of the source starts and ends where one of the source ends, and it is one of the
source, unless several texts were joined. -/
theorem positions_convert [UrlReader] :
    List.SublistForall₂
        (fun m unit => MadeOf m unit ∧ ∀ p ∈ m.position,
          p.start ∈ tree.positions.map (·.start) ∧ p.stop ∈ tree.positions.map (·.stop) ∧
            (p ∈ tree.positions ∨ m.isText ∧ 1 < unit.length))
        (convert options standard tree).subtree
        (walkTree options standard (tree.minify options.newlines)).units ∧
      (tree.positions = [] → ∀ m ∈ (convert options standard tree).subtree, m.position = none) := by
  have source : tree.Throughout (Html.Node.Placed (· ∈ tree.positions)) :=
    Html.placed_of_positions tree fun _ member => member
  have walked := placed_walkTree options (tree.minify options.newlines)
    (Html.throughout_minify Html.minifiable_placed options.newlines source)
  have carried := (Markdown.madeOf_normalize _).imp_of_mem fun m unit found made =>
    And.intro made <| made.carried fun n inside =>
      walked n (Markdown.mem_subtree_of_mem_units _ found n inside)
  refine ⟨carried, fun unplaced m member => ?_⟩
  rcases carried.exists_of_mem m member with ⟨unit, -, -, sourced⟩
  refine Option.eq_none_iff_forall_not_mem.mpr fun p own => ?_
  have start := (sourced p own).1
  rw [unplaced] at start
  cases start

end HtmlToMarkdown
