import Mathlib.Data.List.Chain
import HtmlToMarkdown.Proofs.Whitespace.Settle

namespace HtmlToMarkdown.Html

variable {newlines : Bool} {run rest s : List Char}

/-- A text is empty, or begins with a character that is not white, or with a run of white space that
goes on no further. -/
@[elab_as_elim]
theorem runs_induction {P : List Char → Prop} (s : List Char) (nil : P [])
    (ink : ∀ c s, ¬ isWhite c → P s → P (c :: s))
    (run : ∀ run rest, run ≠ [] → (∀ c ∈ run, isWhite c) → (∀ c ∈ rest.head?, ¬ isWhite c) →
      P rest → P (run ++ rest)) : P s := by
  match s with
  | [] => exact nil
  | c :: s =>
      by_cases white : isWhite c
      · have parts : c :: s = (c :: s.takeWhile isWhite) ++ s.dropWhile isWhite := by
          rw [List.cons_append, List.takeWhile_append_dropWhile]
        have shorter : (s.dropWhile isWhite).length ≤ s.length :=
          (List.dropWhile_sublist isWhite).length_le
        rw [parts]
        refine run _ _ (List.cons_ne_nil _ _) ?_ ?_ (runs_induction _ nil ink run)
        · exact List.forall_mem_cons.mpr ⟨white, List.all_eq_true.mp List.all_takeWhile⟩
        · intro d first
          have stops := List.head?_dropWhile_not isWhite s
          rw [Option.mem_def.mp first] at stops
          simpa using stops
      · exact ink c s white (runs_induction s nil ink run)
termination_by s.length
decreasing_by
  all_goals
    rw [List.length_cons]
    omega

section Collapsing

theorem collapse_ink {c : Char} (ink : ¬ isWhite c) :
    collapse newlines (c :: s) = c :: collapse newlines s := by
  rw [collapse, collapseFrom, if_neg ink]
  rfl

theorem collapseFrom_eq (filled : run ≠ []) :
    collapseFrom newlines run s =
      collapsedRun newlines (run.reverse ++ s.takeWhile isWhite) ++
        collapse newlines (s.dropWhile isWhite) := by
  have here : run.isEmpty = false := List.isEmpty_eq_false_iff.mpr filled
  induction s generalizing run with
  | nil => simp [collapseFrom, collapse, here]
  | cons c s ih =>
      rw [collapseFrom]
      by_cases white : isWhite c
      · rw [if_pos white, ih (List.cons_ne_nil _ _) rfl, List.reverse_cons, List.append_assoc,
          List.takeWhile_cons_of_pos white, List.dropWhile_cons_of_pos white, List.singleton_append]
      · rw [if_neg white, here, List.takeWhile_cons_of_neg white, List.dropWhile_cons_of_neg white,
          List.append_nil, collapse_ink white]
        rfl

theorem collapse_run (filled : run ≠ []) (white : ∀ c ∈ run, isWhite c)
    (apart : ∀ c ∈ rest.head?, ¬ isWhite c) :
    collapse newlines (run ++ rest) = collapsedRun newlines run ++ collapse newlines rest := by
  obtain ⟨c, more, rfl⟩ := List.exists_cons_of_ne_nil filled
  obtain ⟨here, whiteMore⟩ := List.forall_mem_cons.mp white
  have ends : rest.takeWhile isWhite = [] ∧ rest.dropWhile isWhite = rest := by
    cases rest with
    | nil => exact ⟨rfl, rfl⟩
    | cons d rest =>
        have ink := apart d rfl
        exact ⟨List.takeWhile_cons_of_neg ink, List.dropWhile_cons_of_neg ink⟩
  rw [collapse, List.cons_append, collapseFrom, if_pos here,
    collapseFrom_eq (List.cons_ne_nil _ _), List.takeWhile_append_of_pos whiteMore,
    List.dropWhile_append_of_pos whiteMore, ends.1, ends.2, List.append_nil]
  rfl

theorem head_collapse_of_ink (apart : ∀ c ∈ s.head?, ¬ isWhite c) :
    ∀ c ∈ (collapse newlines s).head?, ¬ isWhite c := by
  cases s with
  | nil => exact fun c first => nomatch first
  | cons d s =>
      have ink := apart d rfl
      rw [collapse_ink ink]
      exact apart

end Collapsing

/-- What a run of white space may become: one space, or one line ending if these are kept. -/
def blanks (newlines : Bool) : List (List Char) :=
  if newlines then [[' '], ['\n'], ['\r'], ['\r', '\n']] else [[' ']]

theorem firstLineEnd_mem_blanks {lineEnd : List Char} (found : firstLineEnd s = some lineEnd) :
    lineEnd ∈ blanks true := by
  fun_induction firstLineEnd s with
  | case1 => cases found
  | case2 => cases found; decide
  | case3 => cases found; decide
  | case4 => cases found; decide
  | case5 => rename_i ih; exact ih found

theorem collapsedRun_mem_blanks (newlines : Bool) (run : List Char) :
    collapsedRun newlines run ∈ blanks newlines := by
  unfold collapsedRun
  cases newlines with
  | false => exact List.mem_singleton_self _
  | true =>
      rw [if_pos rfl]
      cases found : firstLineEnd run with
      | none => exact List.mem_cons_self
      | some lineEnd => exact firstLineEnd_mem_blanks found

theorem ne_nil_of_mem_blanks (blank : run ∈ blanks newlines) : run ≠ [] := by
  revert blank run
  cases newlines <;> decide

theorem collapsedRun_of_mem_blanks (blank : run ∈ blanks newlines) :
    collapsedRun newlines run = run := by
  revert blank run
  cases newlines <;> decide

theorem collapse_eq_nil : collapse newlines s = [] ↔ s = [] := by
  induction s using runs_induction with
  | nil => exact Iff.rfl
  | ink c s ink => simp [collapse_ink ink]
  | run run rest filled white apart =>
      have blank := collapsedRun_mem_blanks newlines run
      simp [collapse_run filled white apart, filled, ne_nil_of_mem_blanks blank]

/-- Side by side only the characters of one line ending are both white. -/
def Joined (c d : Char) : Prop := isWhite c → isWhite d → c = '\r' ∧ d = '\n'

structure Collapsed (newlines : Bool) (s : List Char) : Prop where
  settled : ∀ c ∈ s, isWhite c → [c] ∈ blanks newlines
  joined : s.IsChain Joined

theorem collapsed_of_mem_blanks (blank : run ∈ blanks newlines) : Collapsed newlines run := by
  cases newlines with
  | false =>
      obtain rfl : run = [' '] := List.mem_singleton.mp blank
      exact ⟨by simp [blanks], .singleton _⟩
  | true =>
      have either : run = [' '] ∨ run = ['\n'] ∨ run = ['\r'] ∨ run = ['\r', '\n'] := by
        simpa [blanks] using blank
      rcases either with rfl | rfl | rfl | rfl
      · exact ⟨by simp [blanks], .singleton _⟩
      · exact ⟨by simp [blanks], .singleton _⟩
      · exact ⟨by simp [blanks], .singleton _⟩
      · exact ⟨by simp [blanks], .cons_cons (fun _ _ => ⟨rfl, rfl⟩) (.singleton _)⟩

namespace Collapsed

theorem nil : Collapsed newlines [] := ⟨fun _ member => (nomatch member), .nil⟩

/-- A part of a collapsed text is collapsed. -/
theorem of_infix {part : List Char} (collapsed : Collapsed newlines s) (isPart : part <:+: s) :
    Collapsed newlines part :=
  ⟨fun c member => collapsed.settled c (isPart.subset member), collapsed.joined.infix isPart⟩

theorem append {t : List Char} (first : Collapsed newlines s) (second : Collapsed newlines t)
    (meeting : ∀ c ∈ s.getLast?, ∀ d ∈ t.head?, Joined c d) : Collapsed newlines (s ++ t) := by
  constructor
  · intro c member white
    rcases List.mem_append.mp member with here | there
    · exact first.settled c here white
    · exact second.settled c there white
  · exact List.isChain_append.mpr ⟨first.joined, second.joined, meeting⟩

theorem mem_blanks (collapsed : Collapsed newlines run) (filled : run ≠ [])
    (white : ∀ c ∈ run, isWhite c) : run ∈ blanks newlines := by
  obtain ⟨settled, joined⟩ := collapsed
  match run with
  | [] => exact absurd rfl filled
  | [c] => exact settled c (List.mem_singleton_self c) (white c (List.mem_singleton_self c))
  | [c, d] =>
      obtain ⟨rfl, rfl⟩ : c = '\r' ∧ d = '\n' :=
        (List.isChain_cons_cons.mp joined).1 (white c (by simp)) (white d (by simp))
      have kept := settled '\r' List.mem_cons_self rfl
      revert kept
      cases newlines <;> decide
  | c :: d :: e :: run =>
      obtain ⟨first, rest⟩ := List.isChain_cons_cons.mp joined
      have lineFeed := (first (white c (by simp)) (white d (by simp))).2
      have carriageReturn :=
        ((List.isChain_cons_cons.mp rest).1 (white d (by simp)) (white e (by simp))).1
      exact absurd (lineFeed.symm.trans carriageReturn) (by decide)

theorem collapse_eq (collapsed : Collapsed newlines s) : collapse newlines s = s := by
  induction s using runs_induction with
  | nil => rfl
  | ink c s ink ih => rw [collapse_ink ink, ih (collapsed.of_infix (List.suffix_cons c s).isInfix)]
  | run run rest filled white apart ih =>
      have first := collapsed.of_infix (List.prefix_append run rest).isInfix
      have second := collapsed.of_infix (List.suffix_append run rest).isInfix
      rw [collapse_run filled white apart, ih second,
        collapsedRun_of_mem_blanks (first.mem_blanks filled white)]

end Collapsed

theorem collapsed_collapse (newlines : Bool) (s : List Char) :
    Collapsed newlines (collapse newlines s) := by
  induction s using runs_induction with
  | nil => exact .nil
  | ink c s ink ih =>
      rw [collapse_ink ink]
      have alone : Collapsed newlines [c] :=
        ⟨fun d member white => absurd (List.mem_singleton.mp member ▸ white) ink, .singleton c⟩
      refine alone.append ih fun d last _ _ white => ?_
      obtain rfl : c = d := Option.some.inj last
      exact absurd white ink
  | run run rest filled white apart ih =>
      rw [collapse_run filled white apart]
      have blank := collapsed_of_mem_blanks (collapsedRun_mem_blanks newlines run)
      refine blank.append ih fun c _ d next _ white => ?_
      exact absurd white (head_collapse_of_ink apart d next)

section Trimming

def endsRemovable (s : List Char) : Bool := (s.getLast?.map isRemovable).getD false

def cutEnd (s : List Char) : List Char := if endsRemovable s then s.dropLast else s

theorem trimEnd_true (s : List Char) : trimEnd true s = (cutEnd s, false) := by
  unfold trimEnd cutEnd endsRemovable
  split <;> rfl

theorem trimEnd_false (s : List Char) : trimEnd false s = (s, endsRemovable s) := by
  unfold trimEnd endsRemovable
  split
  next removable => rw [removable]; rfl
  next stays => rw [Bool.of_not_eq_true stays]

theorem cutEnd_append_singleton (s : List Char) (d : Char) :
    cutEnd (s ++ [d]) = if isRemovable d then s else s ++ [d] := by
  simp [cutEnd, endsRemovable]

theorem trimStart_suffix (before : Bool) (s : List Char) : trimStart before s <:+ s := by
  unfold trimStart
  split
  · exact s.tail_suffix
  · exact List.suffix_rfl

theorem isInfix_trimEnd (after : Bool) (s : List Char) : (trimEnd after s).1 <:+: s := by
  unfold trimEnd
  split
  · split
    · exact s.dropLast_prefix.isInfix
    · exact List.infix_rfl
  · exact List.infix_rfl

/-- Which end is trimmed first does not matter. -/
theorem trimStart_cutEnd (before : Bool) (s : List Char) :
    trimStart before (cutEnd s) = cutEnd (trimStart before s) := by
  match s with
  | [] => cases before <;> rfl
  | [c] =>
      by_cases removable : isRemovable c <;> cases before <;>
        simp [trimStart, cutEnd, opensRemovable, endsRemovable, removable]
  | c :: d :: s =>
      have later : endsRemovable (c :: d :: s) = endsRemovable (d :: s) := by
        rw [endsRemovable, endsRemovable, List.getLast?_cons_cons]
      have apart : opensRemovable (cutEnd (c :: d :: s)) = opensRemovable (c :: d :: s) ∧
          (cutEnd (c :: d :: s)).tail = cutEnd (d :: s) := by
        unfold cutEnd
        rw [later]
        split <;> exact ⟨rfl, rfl⟩
      rw [trimStart, trimStart, apart.1, apart.2]
      split
      · rfl
      · rfl

theorem endsRemovable_trimStart {before : Bool} (filled : trimStart before s ≠ []) :
    endsRemovable (trimStart before s) = endsRemovable s := by
  unfold trimStart at filled ⊢
  split
  next opens =>
    rw [if_pos opens] at filled
    cases s with
    | nil => rfl
    | cons c s =>
        obtain ⟨d, s, rfl⟩ := List.exists_cons_of_ne_nil filled
        rw [List.tail_cons, endsRemovable, endsRemovable, List.getLast?_cons_cons]
  next => rfl

/-- If white space after a text may go, it still may where more of the text may go at its start. -/
theorem strips_of_trimEnd {first before after : Bool} (le : first → before)
    (strips : (trimEnd after (trimStart first s)).2) :
    if (trimEnd after (trimStart before s)).1 = [] then before = true
    else (trimEnd after (trimStart before s)).2 = true := by
  cases after with
  | true => simp [trimEnd_true] at strips
  | false =>
      rw [trimEnd_false] at strips ⊢
      have ends : endsRemovable s := by
        rwa [endsRemovable_trimStart] at strips
        rintro empty
        rw [empty] at strips
        cases strips
      split
      next empty =>
        cases before with
        | true => rfl
        | false =>
            obtain rfl : s = [] := empty
            cases ends
      next filled => rwa [endsRemovable_trimStart filled]

/-- What may go is no carriage return, so no white space comes after it. -/
theorem not_isRemovable_of_joined {c d : Char} (joined : Joined c d) (removable : isRemovable c) :
    ¬ isRemovable d := by
  intro also
  have carriageReturn :=
    (joined (isWhite_of_isRemovable removable) (isWhite_of_isRemovable also)).1
  rw [carriageReturn] at removable
  cases removable

namespace Collapsed

/-- What may go at the start of a collapsed text goes at once. -/
theorem trimStart_trimStart (collapsed : Collapsed newlines s) {first before : Bool}
    (le : first → before) : trimStart before (trimStart first s) = trimStart before s := by
  cases first with
  | false => rfl
  | true =>
      rw [le rfl]
      match s, collapsed.joined with
      | [], _ => rfl
      | [c], _ =>
          by_cases removable : isRemovable c <;> simp [trimStart, opensRemovable, removable]
      | c :: d :: s, joined =>
          have apart := not_isRemovable_of_joined (List.isChain_cons_cons.mp joined).1
          by_cases removable : isRemovable c
          · simp [trimStart, opensRemovable, removable, apart removable]
          · simp [trimStart, opensRemovable, removable]

/-- What may go at the end of a collapsed text goes at once. -/
theorem cutEnd_cutEnd (collapsed : Collapsed newlines s) : cutEnd (cutEnd s) = cutEnd s := by
  rcases s.eq_nil_or_concat' with rfl | ⟨front, d, rfl⟩
  · rfl
  · by_cases removable : isRemovable d
    · rw [cutEnd_append_singleton, if_pos removable]
      rcases front.eq_nil_or_concat' with rfl | ⟨front, c, rfl⟩
      · rfl
      · have last : [c, d] <:+: front ++ [c] ++ [d] := ⟨front, [], by simp⟩
        have both := collapsed.of_infix last
        have joined : Joined c d := (List.isChain_cons_cons.mp both.joined).1
        have stays : ¬ isRemovable c := fun also => not_isRemovable_of_joined joined also removable
        rw [cutEnd_append_singleton, if_neg stays]
    · rw [cutEnd_append_singleton, if_neg removable, cutEnd_append_singleton, if_neg removable]

/-- Trimming a text again, where no less of it may go at its start, is the same as trimming it so
from the beginning. -/
theorem trimEnd_trimStart_again (collapsed : Collapsed newlines s) {first before : Bool}
    (le : first → before) (after : Bool) :
    trimEnd after (trimStart before (trimEnd after (trimStart first s)).1) =
      trimEnd after (trimStart before s) := by
  cases after with
  | false => rw [trimEnd_false (trimStart first s), collapsed.trimStart_trimStart le]
  | true =>
      have inner := collapsed.of_infix (trimStart_suffix before s).isInfix
      calc trimEnd true (trimStart before (trimEnd true (trimStart first s)).1)
        _ = (cutEnd (trimStart before (cutEnd (trimStart first s))), false) := by
          rw [trimEnd_true, trimEnd_true]
        _ = (cutEnd (cutEnd (trimStart before s)), false) := by
          rw [trimStart_cutEnd, collapsed.trimStart_trimStart le]
        _ = trimEnd true (trimStart before s) := by
          rw [inner.cutEnd_cutEnd, trimEnd_true]

end Collapsed

end Trimming

end HtmlToMarkdown.Html
