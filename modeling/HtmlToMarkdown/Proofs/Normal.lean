import HtmlToMarkdown.Markdown.Normalize
import HtmlToMarkdown.Proofs.Flow.Subtree

namespace HtmlToMarkdown.Markdown

theorem data_extend (o next : Origin) : (o.extend next).data = o.data := by
  unfold Origin.extend
  split <;> rfl

section Siblings

variable {p : Node → Prop}

theorem forall_mergeTexts {held : Option (String × Origin)} {ns : List Node}
    (join : ∀ value more origin next, p (.leaf (.text value) origin) →
      p (.leaf (.text more) next) → p (.leaf (.text (value ++ more)) (origin.extend next)))
    (before : ∀ n ∈ heldText held, p n) (holds : ∀ n ∈ ns, p n) :
    ∀ m ∈ mergeTexts held ns, p m := by
  fun_induction mergeTexts held ns with
  | case1 held => exact before
  | case2 value origin ns =>
      rename_i ih
      obtain ⟨here, rest⟩ := List.forall_mem_cons.mp holds
      exact ih (List.forall_mem_singleton.mpr here) rest
  | case3 value origin more next ns =>
      rename_i ih
      obtain ⟨here, rest⟩ := List.forall_mem_cons.mp holds
      have first := List.forall_mem_singleton.mp before
      exact ih (List.forall_mem_singleton.mpr (join value more origin next first here)) rest
  | case4 held n ns =>
      rename_i ih
      obtain ⟨here, rest⟩ := List.forall_mem_cons.mp holds
      have after := ih (by simp [heldText]) rest
      exact List.forall_mem_append.mpr ⟨before, List.forall_mem_cons.mpr ⟨here, after⟩⟩

theorem forall_tidyTexts {trims first : Bool} {ns : List Node}
    (retext : ∀ value other origin, p (.leaf (.text value) origin) →
      p (.leaf (.text other) origin)) (holds : ∀ n ∈ ns, p n) :
    ∀ m ∈ tidyTexts trims first ns, p m := by
  fun_induction tidyTexts trims first ns with
  | case1 => exact holds
  | case2 first value origin ns tidied empty =>
      rename_i ih
      exact ih (List.forall_mem_cons.mp holds).2
  | case3 first value origin ns tidied filled =>
      rename_i ih
      obtain ⟨here, rest⟩ := List.forall_mem_cons.mp holds
      exact List.forall_mem_cons.mpr ⟨retext value tidied origin here, ih rest⟩
  | case4 first n ns =>
      rename_i ih
      obtain ⟨here, rest⟩ := List.forall_mem_cons.mp holds
      exact List.forall_mem_cons.mpr ⟨here, ih rest⟩

theorem mergeTexts_of_not_isText {held : Option (String × Origin)} {n : Node} {ns : List Node}
    (other : ¬ n.isText) :
    mergeTexts held (n :: ns) = heldText held ++ n :: mergeTexts none ns := by
  rw [mergeTexts]
  · rintro value origin - rfl
    exact other rfl
  · rintro value origin more next - rfl
    exact other rfl

theorem tidyTexts_of_not_isText {trims first : Bool} {n : Node} {ns : List Node}
    (other : ¬ n.isText) :
    tidyTexts trims first (n :: ns) = n :: tidyTexts trims false ns := by
  rw [tidyTexts]
  rintro value origin rfl
  exact other rfl

theorem mergeTexts_of_textFree {ns : List Node} (textFree : ∀ n ∈ ns, ¬ n.isText) :
    mergeTexts none ns = ns := by
  induction ns with
  | nil => rfl
  | cons n ns ih =>
      obtain ⟨here, rest⟩ := List.forall_mem_cons.mp textFree
      rw [mergeTexts_of_not_isText here, heldText, ih rest, List.nil_append]

theorem tidyTexts_of_textFree {trims first : Bool} {ns : List Node}
    (textFree : ∀ n ∈ ns, ¬ n.isText) : tidyTexts trims first ns = ns := by
  induction ns generalizing first with
  | nil => rfl
  | cons n ns ih =>
      obtain ⟨here, rest⟩ := List.forall_mem_cons.mp textFree
      rw [tidyTexts_of_not_isText here, ih rest]

end Siblings

theorem normalizeAll_eq_map (ns : List Node) : normalizeAll ns = ns.map Node.normalize := by
  induction ns with
  | nil => rfl
  | cons n ns ih => rw [normalizeAll, ih, List.map_cons]

theorem kind_normalize (n : Node) : n.normalize.kind = n.kind := by
  cases n <;> rfl

theorem isText_iff_kind {n : Node} : n.isText ↔ n.kind = .text := by
  cases n with
  | parent shape origin children => cases shape <;> simp [Node.isText, Shape.kind]
  | leaf content origin => cases content <;> simp [Node.isText, Leaf.kind]

theorem isPhrasing_normalize (n : Node) : n.normalize.isPhrasing = n.isPhrasing := by
  cases n <;> rfl

theorem isText_normalize (n : Node) : n.normalize.isText = n.isText := by
  cases n <;> rfl

theorem normalize_of_textFree {shape : Shape} {origin : Origin} {children : List Node}
    (textFree : ∀ c ∈ children, ¬ c.isText) :
    (Node.parent shape origin children).normalize =
      .parent shape origin (children.map Node.normalize) := by
  have normal : ∀ c ∈ children.map Node.normalize, ¬ c.isText := by
    intro c member
    obtain ⟨d, inside, rfl⟩ := List.mem_map.mp member
    rw [isText_normalize]
    exact textFree d inside
  rw [Node.normalize, normalizeAll_eq_map, mergeTexts_of_textFree normal,
    tidyTexts_of_textFree normal]

theorem normalize_of_kind {shape : Shape} {origin : Origin} {children : List Node} {kind : Kind}
    (apart : kind ≠ .text) (kinds : ∀ c ∈ children, c.kind = kind) :
    (Node.parent shape origin children).normalize =
      .parent shape origin (children.map Node.normalize) := by
  apply normalize_of_textFree
  intro c member
  rw [isText_iff_kind, kinds c member]
  exact apart

theorem Node.induction {p : Node → Prop} (leaf : ∀ content origin, p (.leaf content origin))
    (parent : ∀ shape origin children, (∀ c ∈ children, p c) → p (.parent shape origin children))
    (n : Node) : p n := by
  cases n with
  | leaf content origin => exact leaf content origin
  | parent shape origin children =>
      apply parent
      intro c member
      exact Node.induction leaf parent c

theorem throughout_tidied {p : Node → Prop}
    (retext : ∀ value other origin next, p (.leaf (.text value) origin) → next.data = origin.data →
      p (.leaf (.text other) next))
    {trims : Bool} {ns : List Node} (normal : ∀ n ∈ ns, n.normalize.Throughout p) :
    ∀ m ∈ tidyTexts trims true (mergeTexts none (normalizeAll ns)), m.Throughout p := by
  have each : ∀ n ∈ normalizeAll ns, n.Throughout p := by
    rw [normalizeAll_eq_map]
    exact List.forall_mem_map.mpr normal
  refine forall_tidyTexts ?_ (forall_mergeTexts ?_ ?_ each)
  · intro value other origin here
    exact Node.throughout_leaf.mpr (retext _ _ _ _ (Node.throughout_leaf.mp here) rfl)
  · intro value more origin next here _
    exact Node.throughout_leaf.mpr
      (retext _ _ _ _ (Node.throughout_leaf.mp here) (data_extend origin next))
  · simp [heldText]

/-- Whatever holds throughout a tree holds throughout its normal form. -/
theorem throughout_normalize {p : Node → Prop}
    (retext : ∀ value other origin next, p (.leaf (.text value) origin) → next.data = origin.data →
      p (.leaf (.text other) next))
    (parent : ∀ shape origin children,
      (Node.parent shape origin children).Throughout p →
      p (Node.parent shape origin children).normalize)
    {n : Node} (holds : n.Throughout p) : n.normalize.Throughout p := by
  induction n using Node.induction with
  | leaf content origin => exact holds
  | parent shape origin children ih =>
      have whole := parent shape origin children holds
      have below := (Node.throughout_parent.mp holds).2
      have normal : ∀ c ∈ children, c.normalize.Throughout p :=
        fun c member => ih c member (below c member)
      exact Node.throughout_parent.mpr ⟨whole, throughout_tidied retext normal⟩

end HtmlToMarkdown.Markdown
