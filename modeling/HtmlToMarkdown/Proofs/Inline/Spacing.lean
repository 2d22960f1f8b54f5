import Mathlib.Data.List.TakeWhile
import HtmlToMarkdown.Proofs.Inline.Signs

/-!
Words kept apart. The text of minified inline markup is the text of the markup with one space for
each run of white space, if and only if no run is cut off by hidden elements: some white character
of the run must see a character ahead, and so must the end of each element that ends in the run
before that character.
-/

namespace HtmlToMarkdown.Html

section Spaced

/-- The characters with one space for each run of white space; `white` tells that there is white
space before them. -/
def oneSpaced (white : Bool) : List Char → List Char
  | [] => []
  | c :: s =>
    if isWhite c then (if white then oneSpaced true s else ' ' :: oneSpaced true s)
    else c :: oneSpaced false s

/-- A text with one space for each run of white space within it and none at its ends. -/
def spaced (s : List Char) : List Char :=
  Text.dropRightWhile (· == ' ') ((oneSpaced false s).dropWhile (· == ' '))

def spacedFrom (white : Bool) (s : List Char) : List Char :=
  Text.dropRightWhile (· == ' ') (oneSpaced white s)

variable {s t w : List Char} {c : Char}

theorem ne_space (ink : ¬ isWhite c) : ¬ (c == ' ') := by
  rintro space
  rw [beq_iff_eq.mp space] at ink
  exact ink rfl

theorem dropWhile_oneSpaced (white : Bool) (s : List Char) :
    (oneSpaced white s).dropWhile (· == ' ') = oneSpaced true s := by
  induction s generalizing white with
  | nil => rfl
  | cons c s ih =>
      by_cases here : isWhite c
      · cases white <;> simp [oneSpaced, here, ih]
      · simp [oneSpaced, here, ne_space here]

theorem spaced_eq (s : List Char) : spaced s = spacedFrom true s := by
  rw [spaced, dropWhile_oneSpaced, spacedFrom]

theorem dropRightWhile_append {p : Char → Bool} (stays : ¬ p c) :
    Text.dropRightWhile p (s ++ c :: t) = s ++ c :: Text.dropRightWhile p t := by
  have stop : (c :: s.reverse).dropWhile p = c :: s.reverse := List.dropWhile_cons_of_neg stays
  simp only [Text.dropRightWhile, List.reverse_append, List.reverse_cons, List.append_assoc,
    List.singleton_append, List.dropWhile_append, stop]
  split
  next gone => simp [List.isEmpty_iff.mp gone]
  next => simp

theorem oneSpaced_white (white : Bool) (blank : ∀ c ∈ w, isWhite c) (s : List Char) :
    oneSpaced white (w ++ s) = (if !white && !w.isEmpty then [' '] else []) ++
      oneSpaced (white || !w.isEmpty) s := by
  induction w generalizing white with
  | nil => simp
  | cons c w ih =>
      obtain ⟨here, rest⟩ := List.forall_mem_cons.mp blank
      cases white <;> simp [oneSpaced, here, ih true rest]

theorem spacedFrom_append (white : Bool) (blank : ∀ c ∈ w, isWhite c) (ink : ¬ isWhite c) :
    spacedFrom white (w ++ c :: s) =
      (if !white && !w.isEmpty then [' '] else []) ++ c :: spacedFrom false s := by
  rw [spacedFrom, oneSpaced_white white blank, oneSpaced, if_neg ink,
    dropRightWhile_append (p := (· == ' ')) (ne_space ink), spacedFrom]

theorem spacedFrom_white (white : Bool) (blank : ∀ c ∈ w, isWhite c) : spacedFrom white w = [] := by
  have whole := oneSpaced_white white blank []
  rw [List.append_nil] at whole
  rw [spacedFrom, whole, oneSpaced, List.append_nil]
  split <;> rfl

end Spaced

namespace Sign

def isInk : Sign → Bool
  | char c => !isWhite c
  | _ => false

def isSpace : Sign → Bool
  | char c => isWhite c
  | _ => false

theorem isInk_char {c : Char} : (char c).isInk ↔ ¬ isWhite c := by simp [isInk]

theorem not_isInk_char {c : Char} : ¬ (char c).isInk ↔ isWhite c := by simp [isInk]

end Sign

def charsOf (ms : List Sign) : List Char :=
  ms.filterMap fun
    | .char c => some c
    | _ => none

/-- White space up to the next character that is not white, if there are both, is read somewhere
from where such a character is seen ahead, as one is from the end of each element that ends
earlier. -/
def KeepsSpace (ms : List Sign) : Prop :=
  let gap := ms.takeWhile (!·.isInk)
  let ahead := ms.dropWhile (!·.isInk)
  ahead ≠ [] → gap.any Sign.isSpace →
    ∃ front c back, gap = front ++ .char c :: back ∧ sees (back ++ ahead) ∧
      ∀ inner rest, front = inner ++ .closing :: rest → sees (rest ++ .char c :: back ++ ahead)

def KeepsSpaces (ms : List Sign) : Prop :=
  ∀ c rest, .char c :: rest <:+ ms → ¬ isWhite c → KeepsSpace rest

section Gaps

variable {gap ahead ms rest : List Sign} {d : Char}

@[elab_as_elim]
theorem gaps_induction {P : List Sign → Prop} (ms : List Sign)
    (last : ∀ gap, (∀ m ∈ gap, ¬ m.isInk) → P gap)
    (next : ∀ gap d rest, (∀ m ∈ gap, ¬ m.isInk) → ¬ isWhite d → P rest →
      P (gap ++ .char d :: rest)) : P ms := by
  have behind : ∀ gap, (∀ m ∈ gap, ¬ m.isInk) → P (gap ++ ms) := by
    induction ms with
    | nil => exact fun gap inkless => (List.append_nil gap).symm ▸ last gap inkless
    | cons m ms ih =>
        intro gap inkless
        by_cases ink : m.isInk
        · cases m with
          | char d => exact next gap d ms inkless (Sign.isInk_char.mp ink) (ih [] nofun)
          | _ => cases ink
        · rw [← List.singleton_append, ← List.append_assoc]
          refine ih (gap ++ [m]) fun n member => ?_
          rcases List.mem_append.mp member with here | there
          · exact inkless n here
          · exact List.mem_singleton.mp there ▸ ink
  exact behind [] nofun

theorem sees_of_inkless (inkless : ∀ m ∈ gap, ¬ m.isInk) (depth : Nat) :
    seesFrom depth gap = false := by
  induction gap generalizing depth with
  | nil => rfl
  | cons m gap ih =>
      obtain ⟨here, rest⟩ := List.forall_mem_cons.mp inkless
      cases m with
      | char c =>
          have white : (!isWhite c) = false := Bool.of_not_eq_true here
          rw [seesFrom, white, Bool.and_false, Bool.false_or, ih rest]
      | opening hidden => exact ih rest _
      | closing => exact ih rest _

theorem settled_last (inkless : ∀ m ∈ gap, ¬ m.isInk) (before : Bool) :
    (settled true before gap).1 = [] := by
  induction gap generalizing before with
  | nil => rfl
  | cons m gap ih =>
      obtain ⟨here, rest⟩ := List.forall_mem_cons.mp inkless
      have blind : sees gap = false := sees_of_inkless rest 0
      cases m with
      | char c =>
          have white := Sign.not_isInk_char.mp here
          simp [settled, Sign.settle, white, blind, ih rest]
      | opening hidden => exact ih rest before
      | closing => exact ih rest _

def keeps (ahead : List Sign) (before : Bool) : List Sign → Bool
  | [] => false
  | .char _ :: gap => !before && sees (gap ++ ahead) || keeps ahead before gap
  | .opening _ :: gap => keeps ahead before gap
  | .closing :: gap => keeps ahead (before || !sees (gap ++ ahead)) gap

theorem keeps_true (ahead gap : List Sign) : keeps ahead true gap = false := by
  induction gap with
  | nil => rfl
  | cons m gap ih =>
      cases m with
      | char c => simp [keeps, ih]
      | opening hidden => exact ih
      | closing => exact ih

theorem settled_gap (inkless : ∀ m ∈ gap, ¬ m.isInk) (ink : ¬ isWhite d) (before : Bool) :
    (settled true before (gap ++ .char d :: rest)).1 =
      (if keeps (.char d :: rest) before gap then [' '] else []) ++
        d :: (settled true false rest).1 := by
  induction gap generalizing before with
  | nil => simp [settled, Sign.settle, ink, keeps]
  | cons m gap ih =>
      obtain ⟨here, later⟩ := List.forall_mem_cons.mp inkless
      cases m with
      | char c =>
          have white := Sign.not_isInk_char.mp here
          cases before with
          | true => simp [settled, Sign.settle, white, ih later, keeps]
          | false =>
              by_cases seen : sees (gap ++ .char d :: rest)
              · simp [settled, Sign.settle, white, ih later, keeps, keeps_true, seen]
              · simp [settled, Sign.settle, white, ih later, keeps, seen]
      | opening hidden => exact ih later before
      | closing =>
          have next := ih later (before || !sees (gap ++ .char d :: rest))
          rw [← Bool.and_true (!sees (gap ++ .char d :: rest))] at next
          rw [List.cons_append, settled_closing, next, keeps, Bool.and_true]

theorem forall_closing_cons {Q : List Sign → Prop} {m : Sign} {front : List Sign} :
    (∀ inner rest, m :: front = inner ++ .closing :: rest → Q rest) ↔
      (m = .closing → Q front) ∧ ∀ inner rest, front = inner ++ .closing :: rest → Q rest := by
  constructor
  · intro holds
    refine ⟨?_, fun inner rest split => holds (m :: inner) rest (congrArg (m :: ·) split)⟩
    rintro rfl
    exact holds [] front rfl
  · rintro ⟨here, later⟩ inner rest split
    cases inner with
    | nil =>
        obtain ⟨rfl, rfl⟩ := List.cons.inj split
        exact here rfl
    | cons n inner => exact later inner rest (List.cons.inj split).2

theorem keeps_iff :
    keeps ahead false gap ↔
      ∃ front c back, gap = front ++ .char c :: back ∧ sees (back ++ ahead) ∧
        ∀ inner rest, front = inner ++ .closing :: rest →
          sees (rest ++ .char c :: back ++ ahead) := by
  induction gap with
  | nil => exact ⟨nofun, fun ⟨front, c, back, split, _⟩ => by simp at split⟩
  | cons m gap ih =>
      -- The first sign is the white character, or that comes later.
      have cases_front : (∃ front c back, m :: gap = front ++ .char c :: back ∧
          sees (back ++ ahead) ∧ ∀ inner rest, front = inner ++ .closing :: rest →
            sees (rest ++ .char c :: back ++ ahead)) ↔
          (∃ c, m = .char c ∧ sees (gap ++ ahead)) ∨
            (m = .closing → sees (gap ++ ahead)) ∧ keeps ahead false gap := by
        rw [ih]
        constructor
        · rintro ⟨front, c, back, split, seen, ends⟩
          cases front with
          | nil =>
              obtain ⟨rfl, rfl⟩ := List.cons.inj split
              exact .inl ⟨c, rfl, seen⟩
          | cons n front =>
              obtain ⟨rfl, rfl⟩ := List.cons.inj split
              obtain ⟨here, later⟩ := forall_closing_cons.mp ends
              exact .inr ⟨here, front, c, back, rfl, seen, later⟩
        · rintro (⟨c, rfl, seen⟩ | ⟨here, front, c, back, rfl, seen, later⟩)
          · exact ⟨[], c, gap, rfl, seen, fun inner rest split => by simp at split⟩
          · exact ⟨m :: front, c, back, rfl, seen, forall_closing_cons.mpr ⟨here, later⟩⟩
      rw [cases_front]
      cases m with
      | char c => simp [keeps]
      | opening hidden => simp [keeps]
      | closing =>
          by_cases seen : sees (gap ++ ahead)
          · simp [keeps, seen]
          · simp [keeps, seen, keeps_true]

end Gaps

section Words

variable {gap ms rest : List Sign} {d : Char}

theorem white_of_inkless (inkless : ∀ m ∈ gap, ¬ m.isInk) : ∀ c ∈ charsOf gap, isWhite c := by
  intro c member
  obtain ⟨m, inside, found⟩ := List.mem_filterMap.mp member
  cases m with
  | char e =>
      obtain rfl : e = c := Option.some.inj found
      exact Sign.not_isInk_char.mp (inkless _ inside)
  | _ => cases found

theorem charsOf_isEmpty (inkless : ∀ m ∈ gap, ¬ m.isInk) :
    (!(charsOf gap).isEmpty) = gap.any Sign.isSpace := by
  induction gap with
  | nil => rfl
  | cons m gap ih =>
      obtain ⟨here, later⟩ := List.forall_mem_cons.mp inkless
      cases m with
      | char c =>
          have white := Sign.not_isInk_char.mp here
          rw [List.any_cons, Sign.isSpace, white, Bool.true_or]
          rfl
      | opening hidden => exact ih later
      | closing => exact ih later

theorem charsOf_gap (gap rest : List Sign) (d : Char) :
    charsOf (gap ++ .char d :: rest) = charsOf gap ++ d :: charsOf rest :=
  List.filterMap_append

/-- The gap in front of a character that is not white. -/
theorem gap_eq (inkless : ∀ m ∈ gap, ¬ m.isInk) (ink : ¬ isWhite d) (rest : List Sign) :
    (gap ++ .char d :: rest).takeWhile (!·.isInk) = gap ∧
      (gap ++ .char d :: rest).dropWhile (!·.isInk) = .char d :: rest := by
  have passes : ∀ m ∈ gap, (!m.isInk) = true := fun m member => by simpa using inkless m member
  have stops : ¬ (!(Sign.char d).isInk) = true := by simpa using Sign.isInk_char.mpr ink
  rw [List.takeWhile_append_of_pos passes, List.dropWhile_append_of_pos passes,
    List.takeWhile_cons_of_neg (p := (!Sign.isInk ·)) stops,
    List.dropWhile_cons_of_neg (p := (!Sign.isInk ·)) stops, List.append_nil]
  exact ⟨rfl, rfl⟩

theorem keepsSpace_iff (inkless : ∀ m ∈ gap, ¬ m.isInk) (ink : ¬ isWhite d) :
    KeepsSpace (gap ++ .char d :: rest) ↔
      (gap.any Sign.isSpace → keeps (.char d :: rest) false gap) := by
  obtain ⟨before, behind⟩ := gap_eq inkless ink rest
  simp only [KeepsSpace, before, behind]
  rw [forall_prop_of_true (List.cons_ne_nil _ _), keeps_iff]

theorem keepsSpace_last (inkless : ∀ m ∈ gap, ¬ m.isInk) : KeepsSpace gap := by
  intro filled
  have whole : ∀ m ∈ gap, (!m.isInk) = true := fun m member => by simpa using inkless m member
  exact absurd (List.dropWhile_eq_nil_iff.mpr whole) filled

theorem keepsSpaces_last (inkless : ∀ m ∈ gap, ¬ m.isInk) : KeepsSpaces gap := by
  intro c rest isSuffix ink
  have stays := inkless (.char c) (isSuffix.subset List.mem_cons_self)
  exact absurd (Sign.not_isInk_char.mp stays) ink

theorem keepsSpaces_iff (inkless : ∀ m ∈ gap, ¬ m.isInk) (ink : ¬ isWhite d) :
    KeepsSpaces (gap ++ .char d :: rest) ↔ KeepsSpace rest ∧ KeepsSpaces rest := by
  constructor
  · intro holds
    refine ⟨holds d rest (List.suffix_append gap _) ink, fun c more isSuffix inkC => ?_⟩
    have within : rest <:+ gap ++ .char d :: rest := ⟨gap ++ [.char d], by simp⟩
    exact holds c more (isSuffix.trans within) inkC
  · rintro ⟨here, later⟩ c more ⟨front, split⟩ inkC
    rcases List.append_eq_append_iff.mp split with ⟨inner, rfl, same⟩ | ⟨inner, rfl, same⟩
    · cases inner with
      | nil =>
          obtain ⟨-, rfl⟩ := List.cons.inj same
          exact here
      | cons m inner =>
          obtain ⟨rfl, -⟩ := List.cons.inj same
          have stays := inkless (.char c) (by simp)
          exact absurd (Sign.not_isInk_char.mp stays) inkC
    · cases inner with
      | nil =>
          obtain ⟨-, rfl⟩ := List.cons.inj same
          exact here
      | cons m inner =>
          obtain ⟨-, rfl⟩ := List.cons.inj same
          exact later c more ⟨inner, rfl⟩ inkC

/-- White space is kept in a gap only if there is any. -/
theorem any_of_keeps (inkless : ∀ m ∈ gap, ¬ m.isInk) {ahead : List Sign} {before : Bool}
    (kept : keeps ahead before gap) : gap.any Sign.isSpace := by
  induction gap generalizing before with
  | nil => cases kept
  | cons m gap ih =>
      obtain ⟨here, later⟩ := List.forall_mem_cons.mp inkless
      cases m with
      | char c =>
          have white := Sign.not_isInk_char.mp here
          rw [List.any_cons, Sign.isSpace, white, Bool.true_or]
      | opening hidden => exact ih later kept
      | closing => exact ih later kept

theorem settled_eq_spacedFrom_iff (ms : List Sign) :
    (settled true false ms).1 = spacedFrom false (charsOf ms) ↔ KeepsSpace ms ∧ KeepsSpaces ms := by
  induction ms using gaps_induction with
  | last gap inkless =>
      rw [settled_last inkless, spacedFrom_white false (white_of_inkless inkless)]
      exact iff_of_true rfl ⟨keepsSpace_last inkless, keepsSpaces_last inkless⟩
  | next gap d rest inkless ink ih =>
      rw [settled_gap inkless ink, charsOf_gap,
        spacedFrom_append false (white_of_inkless inkless) ink, charsOf_isEmpty inkless,
        keepsSpaces_iff inkless ink, ← ih, keepsSpace_iff inkless ink]
      have notSpace : d ≠ ' ' := fun space => ne_space ink (beq_iff_eq.mpr space)
      by_cases kept : keeps (.char d :: rest) false gap
      · simp [kept, any_of_keeps inkless kept]
      · by_cases blank : gap.any Sign.isSpace
        · simp [kept, blank, notSpace]
        · simp [kept, blank]

/-- Minification keeps the words of inline markup apart if and only if no white space is cut off. -/
theorem settled_eq_spaced_iff (ms : List Sign) :
    (settled true true ms).1 = spaced (charsOf ms) ↔ KeepsSpaces ms := by
  induction ms using gaps_induction with
  | last gap inkless =>
      rw [settled_last inkless, spaced_eq, spacedFrom_white true (white_of_inkless inkless)]
      exact iff_of_true rfl (keepsSpaces_last inkless)
  | next gap d rest inkless ink =>
      rw [settled_gap inkless ink, keeps_true, spaced_eq, charsOf_gap,
        spacedFrom_append true (white_of_inkless inkless) ink, keepsSpaces_iff inkless ink,
        ← settled_eq_spacedFrom_iff]
      exact List.cons_inj_right d

structure Tidy (before : Bool) (s : List Char) : Prop where
  space : ∀ c ∈ s, isWhite c → c = ' '
  front : before → ∀ c ∈ s.head?, ¬ isWhite c
  back : ∀ c ∈ s.getLast?, ¬ isWhite c

theorem tidy_settled (before : Bool) (ms : List Sign) : Tidy before (settled true before ms).1 := by
  induction ms using gaps_induction generalizing before with
  | last gap inkless =>
      rw [settled_last inkless]
      exact ⟨nofun, fun _ => nofun, nofun⟩
  | next gap d rest inkless ink ih =>
      rw [settled_gap inkless ink]
      obtain ⟨space, -, back⟩ := ih false
      constructor
      · intro c member white
        rcases List.mem_append.mp member with kept | later
        · split at kept
          · exact List.mem_singleton.mp kept
          · cases kept
        · rcases List.mem_cons.mp later with rfl | later
          · exact absurd white ink
          · exact space c later white
      · rintro rfl c found
        rw [keeps_true] at found
        obtain rfl : d = c := Option.some.inj found
        exact ink
      · intro c found
        rw [List.getLast?_append_cons, List.getLast?_cons] at found
        cases last : (settled true false rest).1.getLast? with
        | none =>
            rw [last] at found
            obtain rfl : d = c := Option.some.inj found
            exact ink
        | some e =>
            rw [last] at found
            obtain rfl : e = c := Option.some.inj found
            exact back e last

end Words

section Shown

variable {ms : List Sign}

/-- Without hidden elements every character ahead is seen. -/
theorem sees_of_shown (shown : .opening true ∉ ms) : sees ms = ms.any Sign.isInk := by
  induction ms with
  | nil => rfl
  | cons m ms ih =>
      have later := ih (List.not_mem_of_not_mem_cons shown)
      cases m with
      | char c => rw [List.any_cons, ← later]; rfl
      | opening hidden =>
          cases hidden with
          | true => exact absurd List.mem_cons_self shown
          | false => exact later
      | closing => exact later

/-- Without hidden elements no white space is cut off. -/
theorem keepsSpaces_of_shown (shown : .opening true ∉ ms) : KeepsSpaces ms := by
  intro c rest isSuffix _
  have whole : rest.takeWhile (!·.isInk) ++ rest.dropWhile (!·.isInk) = rest :=
    List.takeWhile_append_dropWhile
  have first := List.head?_dropWhile_not (!Sign.isInk ·) rest
  simp only [KeepsSpace]
  generalize rest.takeWhile (!·.isInk) = gap at whole ⊢
  generalize rest.dropWhile (!·.isInk) = ahead at whole first ⊢
  intro filled blank
  obtain ⟨d, ahead, rfl⟩ := List.exists_cons_of_ne_nil filled
  have seen : ∀ part, part <:+ gap → sees (part ++ d :: ahead) := by
    rintro part ⟨front, split⟩
    have within : part ++ d :: ahead <:+ ms := by
      refine List.IsSuffix.trans ⟨.char c :: front, ?_⟩ isSuffix
      rw [← whole, ← split, List.cons_append, List.append_assoc]
    rw [sees_of_shown fun hidden => shown (within.subset hidden), List.any_append, List.any_cons]
    simp [show d.isInk = true by simpa using first]
  obtain ⟨m, member, space⟩ := List.any_eq_true.mp blank
  cases m with
  | char e =>
      obtain ⟨front, back, rfl⟩ := List.append_of_mem member
      refine ⟨front, e, back, rfl, seen back ⟨front ++ [.char e], by simp⟩, ?_⟩
      rintro inner rest rfl
      exact seen (rest ++ .char e :: back) ⟨inner ++ [.closing], by simp⟩
  | _ => cases space

mutual

theorem opening_notMem_signs {n : Node} (inline : n.Throughout Node.Inline)
    (shown : n.Throughout Node.Shown) : .opening true ∉ n.signs := by
  match n with
  | .root children position => exact inline.1.elim
  | .text value position => simp [Node.signs]
  | .comment value position => exact inline.elim
  | .doctype position => exact inline.elim
  | .element tag properties children position =>
      have below := opening_notMem_signsOf inline.2 shown.2
      simp [Node.signs, below, shown.1.1]

theorem opening_notMem_signsOf {ns : List Node} (inline : ThroughoutAll Node.Inline ns)
    (shown : ThroughoutAll Node.Shown ns) : .opening true ∉ signsOf ns := by
  match ns with
  | [] => exact nofun
  | n :: ns =>
      rw [signsOf, List.mem_append]
      rintro (here | later)
      · exact opening_notMem_signs inline.1 shown.1 here
      · exact opening_notMem_signsOf inline.2 shown.2 later

end

end Shown

mutual

theorem charsOf_signs {n : Node} (inline : n.Throughout Node.Inline) :
    charsOf n.signs = n.toText.toList := by
  match n with
  | .root children position => exact inline.1.elim
  | .text value position =>
      rw [Node.signs, charsOf, List.filterMap_map]
      exact List.filterMap_some
  | .comment value position => exact inline.elim
  | .doctype position => exact inline.elim
  | .element tag properties children position =>
      rw [toText_inline inline.1.1, ← charsOf_signsOf inline.2, Node.signs]
      simp [charsOf]

theorem charsOf_signsOf {ns : List Node} (inline : ThroughoutAll Node.Inline ns) :
    charsOf (signsOf ns) = (Node.textOf ns).toList := by
  match ns with
  | [] => rfl
  | n :: ns =>
      rw [signsOf, Node.textOf, String.toList_append, ← charsOf_signs inline.1,
        ← charsOf_signsOf inline.2]
      exact List.filterMap_append

end

end HtmlToMarkdown.Html
