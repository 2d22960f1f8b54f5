import HtmlToMarkdown.Proofs.Grid.Seats

/-!
Which rows of a table keep their columns. Empty cells are put into a row for one cell from above
after the other, each time at the column where that cell begins, and they push what stands there to
the right. A cell ends up in its own column exactly when nothing was pushed away that stands to the
left of it, and none of the cells before it in the row takes up further columns before one from
above.
-/

namespace HtmlToMarkdown.Html

/-- Where the value at place `q` of a row goes as the cells from above move it aside. -/
def pushed (above : List Seat) (q : Nat) : Nat :=
  above.foldl (fun q s => if s.column ≤ q then q + s.span.columns else q) q

/-- The cells of a row are not displaced. Of those from above to the left of a cell each stands to
the right of all that come before it in the document, and no wide cell stands to the left of one
from above that has another cell of the row to its right. -/
structure Undisturbed (above own : List Seat) : Prop where
  ordered : ∀ m ∈ own, (leftOf m.column above).Pairwise (·.column < ·.column)
  narrow : ∀ l ∈ own, ∀ t ∈ above, ∀ m ∈ own, l.column < t.column → t.column < m.column →
    l.span.columns = 1

theorem undisturbed_iff_and {above own : List Seat} :
    Undisturbed above own ↔
      (∀ m ∈ own, (leftOf m.column above).Pairwise (·.column < ·.column)) ∧
        ∀ l ∈ own, ∀ t ∈ above, ∀ m ∈ own, l.column < t.column → t.column < m.column →
          l.span.columns = 1 :=
  ⟨fun undisturbed => ⟨undisturbed.ordered, undisturbed.narrow⟩, fun both => ⟨both.1, both.2⟩⟩

instance (above own : List Seat) : Decidable (Undisturbed above own) :=
  decidable_of_iff _ undisturbed_iff_and.symm

/-- Each cell from above to the left of the column pushes the value that stands at place `q` at
first. -/
def Pushes (ss : List Seat) (q : Nat) : Prop :=
  ∀ before t after, ss = before ++ t :: after → t.column ≤ q + widthOf before

section Pushed

variable {above ss : List Seat} {q n : Nat}

theorem pushed_cons (s : Seat) (ss : List Seat) (q : Nat) :
    pushed (s :: ss) q = pushed ss (if s.column ≤ q then q + s.span.columns else q) := rfl

theorem pushed_le (ss : List Seat) (q : Nat) : pushed ss q ≤ q + widthOf ss := by
  induction ss generalizing q with
  | nil => exact Nat.le_refl _
  | cons s ss ih =>
      rw [pushed_cons, widthOf_cons]
      split
      · have rest := ih (q + s.span.columns)
        omega
      · have rest := ih q
        omega

theorem pushed_leftOf (apart : ∀ t ∈ above, t.column ≠ n)
    (fits : q + widthOf (leftOf n above) ≤ n) :
    pushed above q = pushed (leftOf n above) q := by
  induction above generalizing q with
  | nil => rfl
  | cons s above ih =>
      rcases List.forall_mem_cons.mp apart with ⟨here, rest⟩
      by_cases left : s.column < n
      · have kept : leftOf n (s :: above) = s :: leftOf n above :=
          List.filter_cons_of_pos (by simpa using left)
        rw [kept, widthOf_cons] at fits
        rw [kept, pushed_cons, pushed_cons]
        apply ih rest
        split <;> omega
      · have gone : leftOf n (s :: above) = leftOf n above :=
          List.filter_cons_of_neg (by simpa using left)
        rw [gone] at fits
        have beyond : ¬ s.column ≤ q := by omega
        rw [gone, pushed_cons, if_neg beyond, ih rest fits]

theorem pushes_cons {s : Seat} :
    Pushes (s :: ss) q ↔ s.column ≤ q ∧ Pushes ss (q + s.span.columns) := by
  constructor
  · intro pushes
    refine ⟨pushes [] s ss rfl, ?_⟩
    rintro before t after rfl
    have more := pushes (s :: before) t after rfl
    rw [widthOf_cons] at more
    omega
  · rintro ⟨here, rest⟩ before t after split
    cases before with
    | nil =>
        rcases List.cons.inj split with ⟨rfl, -⟩
        exact here
    | cons first before =>
        rcases List.cons.inj split with ⟨rfl, later⟩
        have more := rest before t after later
        rw [widthOf_cons]
        omega

/-- A value goes as far as it can when all push it. -/
theorem pushed_eq_iff (positive : ∀ s ∈ ss, 0 < s.span.columns) :
    pushed ss q = q + widthOf ss ↔ Pushes ss q := by
  induction ss generalizing q with
  | nil =>
      refine iff_of_true rfl ?_
      intro before t after split
      exact absurd split.symm (by simp)
  | cons s ss ih =>
      rcases List.forall_mem_cons.mp positive with ⟨here, rest⟩
      rw [pushed_cons, widthOf_cons, pushes_cons, ← ih rest]
      split
      next left => rw [Nat.add_assoc, and_iff_right left]
      next beyond =>
        have short := pushed_le ss q
        exact iff_of_false (by omega) fun both => beyond both.1

end Pushed

theorem pairwise_of_parts {α : Type} {R : α → α → Prop} {as : List α}
    (each : ∀ front a back, as = front ++ a :: back → ∀ b ∈ back, R a b) : as.Pairwise R := by
  induction as with
  | nil => exact .nil
  | cons a as ih =>
      refine List.pairwise_cons.mpr ⟨each [] a as rfl, ih fun front b back split => ?_⟩
      exact each (a :: front) b back (congrArg (a :: ·) split)

section Row

variable {above own before after : List Seat} {m : Seat}

theorem leftOf_leftOf {n k : Nat} (less : n ≤ k) (ss : List Seat) :
    leftOf n (leftOf k ss) = leftOf n ss := by
  rw [leftOf, leftOf, List.filter_filter]
  apply List.filter_congr
  intro s _
  simp only [Bool.and_eq_decide, decide_eq_true_eq, decide_eq_decide]
  omega

theorem leftOf_eq_self {n : Nat} {ss : List Seat} (left : ∀ s ∈ ss, s.column < n) :
    leftOf n ss = ss :=
  List.filter_eq_self.mpr fun s member => decide_eq_true (left s member)

theorem leftOf_eq_nil {n : Nat} {ss : List Seat} :
    leftOf n ss = [] ↔ ∀ s ∈ ss, n ≤ s.column := by
  simp [leftOf, List.filter_eq_nil_iff]

theorem widthOf_eq_length_iff {ss : List Seat} (positive : ∀ s ∈ ss, 0 < s.span.columns) :
    widthOf ss = ss.length ↔ ∀ s ∈ ss, s.span.columns = 1 := by
  induction ss with
  | nil => exact iff_of_true rfl fun s member => nomatch member
  | cons s ss ih =>
      rcases List.forall_mem_cons.mp positive with ⟨here, rest⟩
      have least := length_le_widthOf rest
      rw [widthOf_cons, List.length_cons, List.forall_mem_cons, ← ih rest]
      omega

variable (filled : Filled above own) (split : own = before ++ m :: after)

include filled

theorem column_ne {t l : Seat} (here : t ∈ above) (there : l ∈ own) : t.column ≠ l.column := by
  intro same
  have separate := (List.pairwise_append.mp filled.apart).2.2 t here l there
  have within := filled.over_column (List.mem_append_left own here)
  have other := filled.over_column (List.mem_append_right above there)
  exact separate t.column ⟨within, same ▸ other⟩

include split

theorem column_lt_of_before : ∀ l ∈ before, l.column < m.column := by
  intro l member
  have ascending := filled.ascending
  have inside : l ∈ above ++ own := by
    rw [split]
    exact List.mem_append_right _ (List.mem_append_left _ member)
  rw [split] at ascending
  have ends := (List.pairwise_append.mp ascending).2.2 l member m List.mem_cons_self
  exact Nat.lt_of_lt_of_le (filled.over_column inside).2 ends

theorem column_le_of_after : ∀ l ∈ after, m.column ≤ l.column := by
  intro l member
  have ascending := filled.ascending
  rw [split] at ascending
  have beyond := (List.pairwise_cons.mp (List.pairwise_append.mp ascending).2.1).1 l member
  unfold Seat.stop at beyond
  omega

theorem leftOf_own {n : Nat} (left : n ≤ m.column) : leftOf n own = leftOf n before := by
  have none : leftOf n (m :: after) = [] := by
    rw [leftOf_eq_nil, List.forall_mem_cons]
    exact ⟨left, fun l member => Nat.le_trans left (column_le_of_after filled split l member)⟩
  rw [split, leftOf_append, none, List.append_nil]

/-- A cell comes to its column exactly when all from above to the left of it push it. -/
theorem pushed_eq_column_iff :
    pushed above before.length + widthOf before = m.column + before.length ↔
      Pushes (leftOf m.column above) before.length := by
  have member : m ∈ own := by simp [split]
  have inside : m ∈ above ++ own := List.mem_append_right _ member
  have column := filled.column_eq inside member (Nat.le_refl _)
  rw [leftOf_own filled split (Nat.le_refl _),
    leftOf_eq_self (column_lt_of_before filled split)] at column
  have short : before.length ≤ widthOf before := by
    apply length_le_widthOf
    intro s found
    apply filled.positive s
    simp [split, found]
  have positive : ∀ s ∈ leftOf m.column above, 0 < s.span.columns := fun s found =>
    filled.positive s (List.mem_append_left _ (mem_leftOf.mp found).1)
  have same : pushed above before.length = pushed (leftOf m.column above) before.length := by
    apply pushed_leftOf
    · exact fun t found => column_ne filled found member
    · omega
  rw [same, ← pushed_eq_iff positive]
  omega

/-- Where the cells from above stand in the order of their columns and all others to the left are
narrow, each pushes the cell. -/
theorem pushes_of_undisturbed (undisturbed : Undisturbed above own) :
    Pushes (leftOf m.column above) before.length := by
  have member : m ∈ own := by simp [split]
  intro first t rest parts
  have found : t ∈ leftOf m.column above := by simp [parts]
  rcases mem_leftOf.mp found with ⟨inside, left⟩
  have ordered := undisturbed.ordered m member
  rw [parts] at ordered
  have sorted := List.pairwise_append.mp ordered
  have lesser : leftOf t.column above = first := by
    have smaller : leftOf t.column first = first :=
      leftOf_eq_self fun s early => sorted.2.2 s early t List.mem_cons_self
    have none : leftOf t.column (t :: rest) = [] := by
      rw [leftOf_eq_nil, List.forall_mem_cons]
      exact ⟨Nat.le_refl _, fun s late =>
        Nat.le_of_lt ((List.pairwise_cons.mp sorted.2.1).1 s late)⟩
    rw [← leftOf_leftOf (Nat.le_of_lt left), parts, leftOf_append, smaller, none, List.append_nil]
  have narrow : ∀ l ∈ leftOf t.column before, l.span.columns = 1 := by
    intro l early
    rcases mem_leftOf.mp early with ⟨own, less⟩
    exact undisturbed.narrow l (by simp [split, own]) t inside m member less left
  have count : widthOf (leftOf t.column before) ≤ before.length := by
    have positive : ∀ l ∈ leftOf t.column before, 0 < l.span.columns := fun l early => by
      rw [narrow l early]
      exact Nat.one_pos
    rw [(widthOf_eq_length_iff positive).mpr narrow]
    exact List.length_filter_le _ _
  have column :=
    filled.column_eq (List.mem_append_left own inside) member (Nat.le_of_lt left)
  rw [lesser, leftOf_own filled split (Nat.le_of_lt left)] at column
  omega

omit split in
theorem columns_ne (n : Nat) :
    (leftOf n above).Pairwise fun s t => s.column ≠ t.column := by
  have apart : (leftOf n above).Pairwise Seat.Separate :=
    (List.pairwise_append.mp filled.apart).1.filter _
  refine apart.imp_of_mem fun {s t} here there separate same => ?_
  have within := filled.over_column (List.mem_append_left own (mem_leftOf.mp here).1)
  have other := filled.over_column (List.mem_append_left own (mem_leftOf.mp there).1)
  exact separate s.column ⟨within, same ▸ other⟩

/-- If what comes before it in the document stands to the left of a cell from above, then nothing
else from above does, as there is no room, and the cells before it in the row are narrow. -/
theorem tight_of_pushes (pushes : Pushes (leftOf m.column above) before.length)
    {first rest : List Seat} {t : Seat} (parts : leftOf m.column above = first ++ t :: rest)
    (next : ∀ l ∈ before, l.column < t.column) (earlier : ∀ s ∈ first, s.column < t.column) :
    leftOf t.column (t :: rest) = [] ∧ ∀ l ∈ before, l.span.columns = 1 := by
  have member : m ∈ own := by simp [split]
  have found : ∀ s ∈ first ++ t :: rest, s ∈ above ∧ s.column < m.column := by
    rw [← parts]
    exact fun s here => mem_leftOf.mp here
  have inside := List.mem_append_left own (found t (by simp)).1
  have left := (found t (by simp)).2
  have column := filled.column_eq inside member (Nat.le_of_lt left)
  rw [← leftOf_leftOf (Nat.le_of_lt left), parts, leftOf_append, leftOf_eq_self earlier,
    widthOf_append, leftOf_own filled split (Nat.le_of_lt left), leftOf_eq_self next] at column
  have reach := pushes first t rest parts
  have positive : ∀ l ∈ before, 0 < l.span.columns := fun l early =>
    filled.positive l (by simp [split, early])
  have least := length_le_widthOf positive
  have whole : ∀ s ∈ leftOf t.column (t :: rest), 0 < s.span.columns := fun s here =>
    filled.positive s (List.mem_append_left own
      (found s (List.mem_append_right first (mem_leftOf.mp here).1)).1)
  have fewer := length_le_widthOf whole
  constructor
  · apply List.eq_nil_of_length_eq_zero
    omega
  · rw [← widthOf_eq_length_iff positive]
    omega

/-- Between a cell and the one before it in the row, the cells from above come from left to right,
and all the cells before are narrow. This is shown from the right: what comes before one of them in
the document cannot stand to its right, as it would come after it by what is known of that one. -/
theorem clear_of_pushes (pushes : Pushes (leftOf m.column above) before.length)
    {first rest : List Seat} {t : Seat} (parts : leftOf m.column above = first ++ t :: rest)
    (next : ∀ l ∈ before, l.column < t.column) :
    (∀ b ∈ rest, t.column < b.column) ∧ ∀ l ∈ before, l.span.columns = 1 := by
  have distinct := columns_ne filled m.column
  rw [parts, List.pairwise_append] at distinct
  have earlier : ∀ s ∈ first, s.column < t.column := by
    intro s early
    by_contra beyond
    have apart := distinct.2.2 s early t List.mem_cons_self
    have later : t.column < s.column := by omega
    have found : s ∈ leftOf m.column above := by simp [parts, early]
    have nearer := (mem_leftOf.mp found).2
    rcases List.append_of_mem early with ⟨front, back, rfl⟩
    rw [List.append_assoc, List.cons_append] at parts
    have ascends := (clear_of_pushes pushes parts fun l own =>
      Nat.lt_trans (next l own) later).1 t (by simp)
    omega
  rcases tight_of_pushes filled split pushes parts next earlier with ⟨none, narrow⟩
  refine ⟨fun b late => ?_, narrow⟩
  have apart := (List.pairwise_cons.mp distinct.2.1).1 b late
  have beyond := leftOf_eq_nil.mp none b (List.mem_cons_of_mem t late)
  omega
termination_by m.column - t.column

omit split in
/-- The first cell of the row to the right of one from above. -/
theorem exists_next {t : Seat} (here : t ∈ above) (there : m ∈ own) (left : t.column < m.column) :
    ∃ before next after, own = before ++ next :: after ∧ (∀ l ∈ before, l.column < t.column) ∧
      t.column < next.column ∧ (m ∈ next :: after ∧ next.column ≤ m.column) := by
  have some : (own.find? (t.column < ·.column)).isSome :=
    List.find?_isSome.mpr ⟨m, there, decide_eq_true left⟩
  rcases Option.isSome_iff_exists.mp some with ⟨next, found⟩
  rcases List.find?_eq_some_iff_append.mp found with ⟨later, before, after, split, early⟩
  have sooner : ∀ l ∈ before, l.column < t.column := by
    intro l member
    have apart := column_ne filled here (by simp [split, member] : l ∈ own)
    have least : l.column ≤ t.column := by simpa using early l member
    omega
  have among : m ∈ next :: after := by
    rw [split] at there
    refine (List.mem_append.mp there).resolve_left fun member => ?_
    exact absurd (sooner m member) (by omega)
  refine ⟨before, next, after, split, sooner, of_decide_eq_true later, among, ?_⟩
  rcases List.mem_cons.mp among with rfl | last
  · exact Nat.le_refl _
  · exact column_le_of_after filled split m last

omit split in
theorem narrow_of_pushes (pushes : ∀ before m after, own = before ++ m :: after →
      Pushes (leftOf m.column above) before.length) {t : Seat} (here : t ∈ above)
    (there : m ∈ own) (left : t.column < m.column) :
    ∀ l ∈ own, l.column < t.column → l.span.columns = 1 := by
  intro l member less
  rcases exists_next filled here there left with ⟨before, next, after, split, early, later, -⟩
  rcases List.append_of_mem (mem_leftOf.mpr ⟨here, later⟩) with ⟨front, back, parts⟩
  have clear := clear_of_pushes filled split (pushes before next after split) parts early
  apply clear.2
  rw [split] at member
  refine (List.mem_append.mp member).resolve_right fun beyond => ?_
  rcases List.mem_cons.mp beyond with rfl | last
  · omega
  · have after := column_le_of_after filled split l last
    omega

omit split in
theorem ordered_of_pushes (pushes : ∀ before m after, own = before ++ m :: after →
      Pushes (leftOf m.column above) before.length) (there : m ∈ own)
    {front back : List Seat} {t : Seat} (parts : leftOf m.column above = front ++ t :: back) :
    ∀ b ∈ back, t.column < b.column := by
  intro b member
  have found : t ∈ leftOf m.column above := by simp [parts]
  rcases mem_leftOf.mp found with ⟨here, left⟩
  rcases exists_next filled here there left with
    ⟨before, next, after, split, early, later, -, near⟩
  by_cases inside : b.column < next.column
  · have kept : leftOf next.column above =
        leftOf next.column front ++ t :: leftOf next.column back := by
      rw [← leftOf_leftOf near, parts, leftOf_append]
      exact congrArg (_ ++ ·) (List.filter_cons_of_pos (by simpa using later))
    have clear := clear_of_pushes filled split (pushes before next after split) kept early
    exact clear.1 b (mem_leftOf.mpr ⟨member, inside⟩)
  · omega

omit split in
/-- A row is undisturbed exactly when each of its cells is pushed by all from above that belong to
the left of it. -/
theorem undisturbed_iff :
    Undisturbed above own ↔ ∀ before m after, own = before ++ m :: after →
      Pushes (leftOf m.column above) before.length := by
  constructor
  · exact fun undisturbed before m after split => pushes_of_undisturbed filled split undisturbed
  · intro pushes
    constructor
    · intro m member
      apply pairwise_of_parts
      intro front t back parts
      exact ordered_of_pushes filled pushes member parts
    · intro l before t here m member less left
      exact narrow_of_pushes filled pushes here member left l before less

end Row

end HtmlToMarkdown.Html
