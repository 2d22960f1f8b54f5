import HtmlToMarkdown.Proofs.Lines.Rules
import HtmlToMarkdown.Proofs.Normal.Form

namespace HtmlToMarkdown.Markdown

open Text (isTabOrSpace)

/-- Whether the first of the nodes that are not blank is a break, if there are any. -/
def lead (ns : List Node) : Option Bool := (ns.find? fun n => !n.isBlank).map Node.isBreak

section Lead

variable {n : Node} {ns ms : List Node}

theorem lead_append (ns ms : List Node) : lead (ns ++ ms) = (lead ns).or (lead ms) := by
  rw [lead, List.find?_append, Option.map_or]
  rfl

theorem lead_cons_of_filled (filled : ¬ n.isBlank) : lead (n :: ns) = some n.isBreak := by
  simp [lead, filled]

theorem lead_eq_none_iff : lead ns = none ↔ ∀ n ∈ ns, n.isBlank := by
  simp [lead]

theorem isText_of_isBlank (blank : n.isBlank) : n.isText :=
  isText_iff_kind.mpr (kind_of_isBlank blank)

theorem not_isBreak_of_isText (isText : n.isText) : n.isBreak = false := by
  obtain ⟨value, origin, rfl⟩ := exists_of_isText isText
  rfl

/-- A list that begins with something other than a text has something to see. -/
theorem lead_ne_none (filled : ns ≠ []) (other : ∀ n ∈ ns.head?, ¬ n.isText) :
    lead ns.reverse ≠ none := by
  intro none
  obtain ⟨n, rest, rfl⟩ := List.exists_cons_of_ne_nil filled
  have blank := lead_eq_none_iff.mp none n (by simp)
  exact other n rfl (isText_of_isBlank blank)

theorem lead_of_texts (texts : ∀ n ∈ ns, n.isText) (filled : lead ns ≠ none) :
    lead ns = some false := by
  rw [lead, ne_eq, Option.map_eq_none_iff] at filled
  obtain ⟨n, found⟩ := Option.ne_none_iff_exists'.mp filled
  have isText := texts n (List.mem_of_find?_eq_some found)
  rw [lead, found, Option.map_some, not_isBreak_of_isText isText]

end Lead

section Runs

variable {first last : Bool}

theorem prune_of_blanks {before s : List Char} (edge : first ∨ last)
    (front : ∀ c ∈ before, isTabOrSpace c) (blanks : ∀ c ∈ s, isTabOrSpace c) :
    prune first last before s = [] := by
  induction s generalizing before with
  | nil => rfl
  | cons c s ih =>
      obtain ⟨here, rest⟩ := List.forall_mem_cons.mp blanks
      rw [prune, touches_of_blanks front, touches_of_blanks rest, here, Bool.true_and,
        if_pos (Bool.or_eq_true_iff.mpr edge)]
      exact ih (List.forall_mem_cons.mpr ⟨here, front⟩) rest

theorem textContentOf_blank {run : List Node} (texts : ∀ n ∈ run, n.isText) :
    (∀ c ∈ (Node.textContentOf run).toList, isTabOrSpace c) ↔ ∀ n ∈ run, n.isBlank := by
  induction run with
  | nil => simp
  | cons n run ih =>
      obtain ⟨here, rest⟩ := List.forall_mem_cons.mp texts
      obtain ⟨value, origin, rfl⟩ := exists_of_isText here
      rw [Node.textContentOf, String.toList_append, List.forall_mem_append, ih rest,
        List.forall_mem_cons]
      exact and_congr_left' List.all_eq_true.symm

/-- At an edge nothing is left of blank texts, and a text is left of others. -/
theorem settledRun_at_edge {run : List Node} (edge : first ∨ last)
    (texts : ∀ n ∈ run, n.isText) :
    (lead run = none → settledRun first last run = []) ∧
      (lead run ≠ none →
        ∃ value origin, settledRun first last run = [.leaf (.text value) origin]) := by
  have none : ∀ c ∈ ([] : List Char), isTabOrSpace c := nofun
  rw [ne_eq, lead_eq_none_iff, ← textContentOf_blank texts, settledRun]
  constructor
  · intro blanks
    rw [prune_of_blanks edge none blanks]
    rfl
  · intro filled
    obtain ⟨c, member, other⟩ : ∃ c ∈ (Node.textContentOf run).toList, ¬ isTabOrSpace c := by
      simpa using filled
    have kept : prune first last [] (Node.textContentOf run).toList ≠ [] :=
      List.ne_nil_of_mem (mem_prune member other)
    refine ⟨_, _, if_neg fun empty => kept ?_⟩
    simpa using congrArg String.toList empty

end Runs

section Settled

theorem Settles.isBreak {n m : Node} (settles : Settles n m) : m.isBreak = n.isBreak := by
  cases settles with
  | leaf => rfl
  | parent => rfl

/-- What comes first at an edge in the end is what came first besides blank texts. -/
theorem SettlesAll.lead_front {trims first : Bool} {ns ms : List Node}
    (settles : SettlesAll trims first ns ms) (trimmed : trims)
    (edge : first ∨ ∀ n ∈ ns.head?, ¬ n.isText) : ms.head?.map Node.isBreak = lead ns := by
  match settles with
  | .nil => rfl
  | .node other here rest =>
      have filled := fun blank => other (isText_of_isBlank blank)
      exact (congrArg some here.isBreak).trans (lead_cons_of_filled filled).symm
  | .run filled texts whole rest =>
      rename_i run ns ms
      have front : first := by
        obtain ⟨n, run, rfl⟩ := List.exists_cons_of_ne_nil filled
        exact edge.resolve_right fun other => other n rfl (texts n List.mem_cons_self)
      obtain ⟨blanks, seen⟩ :=
        @settledRun_at_edge (trims && first) (trims && ns.isEmpty) run
          (.inl (Bool.and_eq_true_iff.mpr ⟨trimmed, front⟩)) texts
      rw [lead_append]
      by_cases blank : lead run = none
      · rw [blanks blank, blank]
        exact rest.lead_front trimmed (.inr whole)
      · obtain ⟨value, origin, same⟩ := seen blank
        rw [same, lead_of_texts texts blank]
        rfl

theorem SettlesAll.lead_back {trims first : Bool} {ns ms : List Node}
    (settles : SettlesAll trims first ns ms) (trimmed : trims) :
    ms.getLast?.map Node.isBreak = lead ns.reverse := by
  match settles, trimmed with
  | .nil, _ => rfl
  | .node other here rest, trimmed =>
      rename_i n m ns ms
      have filled := fun blank => other (isText_of_isBlank blank)
      have single : lead [n] = some m.isBreak := here.isBreak ▸ lead_cons_of_filled filled
      have split : (m :: ms).getLast? = ms.getLast?.or [m].getLast? :=
        @List.getLast?_append _ [m] ms
      rw [split, Option.map_or, rest.lead_back trimmed, List.reverse_cons, lead_append, single]
      rfl
  | .run filled texts whole rest, trimmed =>
      rename_i run ns ms
      rw [List.reverse_append, lead_append, List.getLast?_append, Option.map_or,
        rest.lead_back trimmed]
      by_cases last : ns = []
      · subst last
        obtain ⟨blanks, seen⟩ := @settledRun_at_edge (trims && first) (trims && true) run
          (.inr (Bool.and_eq_true_iff.mpr ⟨trimmed, rfl⟩)) texts
        change ((settledRun (trims && first) (trims && true) run).getLast?.map Node.isBreak) =
          lead run.reverse
        by_cases blank : lead run = none
        · have reversed : lead run.reverse = none := by
            simpa [lead_eq_none_iff] using blank
          rw [blanks blank, reversed]
          rfl
        · have reversed : lead run.reverse ≠ none := by
            simpa [lead_eq_none_iff] using blank
          have texts : ∀ n ∈ run.reverse, n.isText := by simpa using texts
          obtain ⟨value, origin, same⟩ := seen blank
          rw [same, lead_of_texts texts reversed]
          rfl
      -- Behind this run stands something other than a text, so the run is not the last of it.
      · have seen := Option.isSome_iff_ne_none.mpr (lead_ne_none last whole)
        rw [Option.or_of_isSome seen, Option.or_of_isSome seen]

end Settled

section Untrimmed

def Node.isEmptyText : Node → Bool
  | .leaf (.text value) _ => value == ""
  | _ => false

/-- Away from the edges of a line something is left of every text. -/
theorem prune_ne_nil {s : List Char} (filled : s ≠ []) : prune false false [] s ≠ [] := by
  cases s with
  | nil => exact absurd rfl filled
  | cons c s =>
      by_cases blanks : ∀ d ∈ c :: s, isTabOrSpace d
      · have none : ∀ d ∈ ([] : List Char), isTabOrSpace d := List.forall_mem_nil _
        have rest := (List.forall_mem_cons.mp blanks).2
        rw [prune, touches_of_blanks none, touches_of_blanks rest,
          Bool.or_false, Bool.and_false]
        exact List.cons_ne_nil _ _
      · obtain ⟨d, member, other⟩ : ∃ d ∈ c :: s, ¬ isTabOrSpace d := by
          simpa only [not_forall, exists_prop] using blanks
        exact List.ne_nil_of_mem (mem_prune member other)

variable {run : List Node} (texts : ∀ n ∈ run, n.isText)

include texts

theorem textContentOf_eq_empty_iff :
    Node.textContentOf run = "" ↔ ∀ n ∈ run, n.isEmptyText := by
  induction run with
  | nil => simp
  | cons n run ih =>
      obtain ⟨here, rest⟩ := List.forall_mem_cons.mp texts
      obtain ⟨value, origin, rfl⟩ := exists_of_isText here
      rw [Node.textContentOf, String.append_eq_empty_iff, ih rest, List.forall_mem_cons]
      exact and_congr_left' beq_iff_eq.symm

theorem settledRun_eq_nil_iff :
    settledRun false false run = [] ↔ ∀ n ∈ run, n.isEmptyText := by
  rw [← textContentOf_eq_empty_iff texts]
  constructor
  · intro none
    by_contra filled
    have kept : (Node.textContentOf run).toList ≠ [] := by simpa using filled
    rw [settledRun, if_neg (by simpa using prune_ne_nil kept)] at none
    exact List.cons_ne_nil _ _ none
  · intro empty
    rw [settledRun, empty]
    rfl

omit texts in
theorem Node.Regular.isPhrasing_text {n : Node} (regular : n.Regular)
    (isText : n.isText) : n.isPhrasing :=
  of_not_not fun block => regular.not_isText block isText

theorem isPhrasing_of_mem_settledRun (filled : run ≠ []) (regular : ∀ n ∈ run, n.Regular) :
    ∀ m ∈ settledRun false false run, m.isPhrasing := by
  obtain ⟨n, rest, rfl⟩ := List.exists_cons_of_ne_nil filled
  obtain ⟨value, origin, rfl⟩ := exists_of_isText (texts n List.mem_cons_self)
  have phrasing := (regular _ List.mem_cons_self).isPhrasing_text rfl
  unfold settledRun
  dsimp only
  split
  · exact List.forall_mem_nil _
  · exact List.forall_mem_singleton.mpr
      (isPhrasing_retext value _ origin _ phrasing rfl)

omit texts

theorem Settles.isPhrasing {n m : Node} (settles : Settles n m) :
    m.isPhrasing = n.isPhrasing := by
  cases settles <;> rfl

/-- Where nothing is trimmed, only empty texts go away. -/
theorem SettlesAll.blocks_iff {trims first : Bool} {ns ms : List Node}
    (settles : SettlesAll trims first ns ms) (untrimmed : trims = false)
    (regular : ∀ n ∈ ns, n.Regular) :
    (∀ m ∈ ms, ¬ m.isPhrasing) ↔ ∀ n ∈ ns, n.isPhrasing → n.isEmptyText := by
  match settles with
  | .nil => simp
  | .node other here rest =>
      rename_i n m ns ms
      obtain ⟨-, regularRest⟩ := List.forall_mem_cons.mp regular
      have filled : ¬ n.isEmptyText := by
        intro empty
        cases n with
        | parent shape origin children => cases empty
        | leaf content origin => cases content <;> first | exact other rfl | cases empty
      rw [List.forall_mem_cons, List.forall_mem_cons, here.isPhrasing,
        rest.blocks_iff untrimmed regularRest]
      exact and_congr_left'
        ⟨fun block phrasing => absurd phrasing block, fun empty phrasing => filled (empty phrasing)⟩
  | .run filled texts _ rest =>
      obtain ⟨regularRun, regularRest⟩ := List.forall_mem_append.mp regular
      rw [List.forall_mem_append, List.forall_mem_append, rest.blocks_iff untrimmed regularRest,
        untrimmed, Bool.false_and, Bool.false_and]
      have shown := isPhrasing_of_mem_settledRun texts filled regularRun
      refine and_congr_left' ⟨fun blocks n member _ => ?_, fun empty => ?_⟩
      · have nothing := List.eq_nil_iff_forall_not_mem.mpr fun m inside =>
          blocks m inside (shown m inside)
        exact (settledRun_eq_nil_iff texts).mp nothing n member
      · have nothing := (settledRun_eq_nil_iff texts).mpr fun n member =>
          empty n member ((regularRun n member).isPhrasing_text (texts n member))
        rw [nothing]
        exact List.forall_mem_nil _

end Untrimmed

section Keeps

variable {asked made : Shape → List Node → Prop}

mutual

/-- If content is as asked for in the end whenever it was before in some way, and the other way
round, this is so for all content of a tree. -/
theorem Settles.keeps_iff
    (same : ∀ {shape : Shape} {ns ms : List Node}, (∀ n ∈ ns, n.Regular) →
      SettlesAll shape.trimsEdges true ns ms → (asked shape ms ↔ made shape ns))
    {n m : Node} (regular : n.Throughout Node.Regular) (settles : Settles n m) :
    m.Throughout (Node.Keeps asked) ↔ n.Throughout (Node.Keeps made) := by
  match settles with
  | .leaf content origin =>
      exact iff_of_true (Node.throughout_leaf.mpr trivial) (Node.throughout_leaf.mpr trivial)
  | .parent inside =>
      have below := (Node.throughout_parent.mp regular).2
      rw [Node.throughout_parent, Node.throughout_parent]
      exact and_congr (same (fun n member => (below n member).self) inside)
        (inside.keeps_iff same below)

theorem SettlesAll.keeps_iff
    (same : ∀ {shape : Shape} {ns ms : List Node}, (∀ n ∈ ns, n.Regular) →
      SettlesAll shape.trimsEdges true ns ms → (asked shape ms ↔ made shape ns))
    {trims first : Bool} {ns ms : List Node} (regular : ∀ n ∈ ns, n.Throughout Node.Regular)
    (settles : SettlesAll trims first ns ms) :
    (∀ m ∈ ms, m.Throughout (Node.Keeps asked)) ↔ ∀ n ∈ ns, n.Throughout (Node.Keeps made) := by
  match settles with
  | .nil => simp
  | .node _ here rest =>
      obtain ⟨regularHere, regularRest⟩ := List.forall_mem_cons.mp regular
      rw [List.forall_mem_cons, List.forall_mem_cons, here.keeps_iff same regularHere,
        rest.keeps_iff same regularRest]
  | .run _ texts _ rest =>
      have kept : ∀ {ok : Shape → List Node → Prop} {ns : List Node}, (∀ n ∈ ns, n.isText) →
          ∀ n ∈ ns, n.Throughout (Node.Keeps ok) := by
        intro ok ns texts n member
        obtain ⟨value, origin, rfl⟩ := exists_of_isText (texts n member)
        exact Node.throughout_leaf.mpr trivial
      rw [List.forall_mem_append, List.forall_mem_append,
        rest.keeps_iff same (List.forall_mem_append.mp regular).2]
      exact and_congr_left' (iff_of_true (kept (isText_of_mem_settledRun _ _ _)) (kept texts))

end

end Keeps

end HtmlToMarkdown.Markdown
