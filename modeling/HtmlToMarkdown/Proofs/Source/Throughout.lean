import HtmlToMarkdown.Html.Whitespace

namespace HtmlToMarkdown.Html

mutual

def Node.Throughout (p : Node → Prop) : Node → Prop
  | .root children position => p (.root children position) ∧ ThroughoutAll p children
  | .element tag properties children position =>
    p (.element tag properties children position) ∧ ThroughoutAll p children
  | n => p n

def ThroughoutAll (p : Node → Prop) : List Node → Prop
  | [] => True
  | n :: ns => n.Throughout p ∧ ThroughoutAll p ns

end

variable {p q : Node → Prop}

theorem throughoutAll_iff {ns : List Node} : ThroughoutAll p ns ↔ ∀ n ∈ ns, n.Throughout p := by
  induction ns with
  | nil => simp [ThroughoutAll]
  | cons n ns ih => rw [ThroughoutAll, ih, List.forall_mem_cons]

theorem Node.Throughout.self {n : Node} (holds : n.Throughout p) : p n := by
  cases n with
  | root children position => exact holds.1
  | element tag properties children position => exact holds.1
  | _ => exact holds

theorem Node.Throughout.children {n : Node} (holds : n.Throughout p) :
    ∀ m ∈ n.children, m.Throughout p := by
  cases n with
  | root children position => exact throughoutAll_iff.mp holds.2
  | element tag properties children position => exact throughoutAll_iff.mp holds.2
  | _ => exact fun m member => nomatch member

theorem ThroughoutAll.filter {ns : List Node} (holds : ThroughoutAll p ns) (f : Node → Bool) :
    ThroughoutAll p (ns.filter f) := by
  rw [throughoutAll_iff] at holds ⊢
  intro n member
  exact holds n (List.mem_filter.mp member).1

mutual

theorem Node.Throughout.and {n : Node} (holds : n.Throughout p) (also : n.Throughout q) :
    n.Throughout fun m => p m ∧ q m := by
  match n with
  | .root children position => exact ⟨⟨holds.1, also.1⟩, holds.2.and also.2⟩
  | .element tag properties children position => exact ⟨⟨holds.1, also.1⟩, holds.2.and also.2⟩
  | .text value position => exact ⟨holds, also⟩
  | .comment value position => exact ⟨holds, also⟩
  | .doctype position => exact ⟨holds, also⟩

theorem ThroughoutAll.and {ns : List Node} (holds : ThroughoutAll p ns)
    (also : ThroughoutAll q ns) : ThroughoutAll (fun m => p m ∧ q m) ns := by
  match ns with
  | [] => trivial
  | n :: ns => exact ⟨holds.1.and also.1, holds.2.and also.2⟩

end

mutual

theorem Node.Throughout.of_forall (all : ∀ n, p n) (n : Node) : n.Throughout p := by
  match n with
  | .root children position => exact ⟨all _, ThroughoutAll.of_forall all children⟩
  | .element tag properties children position =>
      exact ⟨all _, ThroughoutAll.of_forall all children⟩
  | .text value position => exact all _
  | .comment value position => exact all _
  | .doctype position => exact all _

theorem ThroughoutAll.of_forall (all : ∀ n, p n) (ns : List Node) : ThroughoutAll p ns := by
  match ns with
  | [] => trivial
  | n :: ns => exact ⟨Node.Throughout.of_forall all n, ThroughoutAll.of_forall all ns⟩

end

/-- Minification changes texts and takes children away, and nothing else. -/
structure Minifiable (p : Node → Prop) : Prop where
  root {children fewer : List Node} {position : Option Position}
    (holds : p (.root children position)) : p (.root fewer position)
  element {tag : String} {properties : Properties} {children fewer : List Node}
    {position : Option Position} (holds : p (.element tag properties children position))
    (none : children = [] → fewer = []) : p (.element tag properties fewer position)
  text {value : String} {position : Option Position} (holds : p (.text value position))
    (other : String) : p (.text other position)

mutual

theorem throughout_minifyNode (minifiable : Minifiable p) (cx : Surroundings) {n : Node}
    (holds : n.Throughout p) : (minifyNode cx n).1.Throughout p := by
  match n with
  | .root children position =>
      simp only [minifyNode]
      exact ⟨minifiable.root holds.1, (throughout_minifyAll minifiable _ _ holds.2).filter _⟩
  | .element tag properties children position =>
      simp only [minifyNode]
      refine ⟨minifiable.element holds.1 ?_, (throughout_minifyAll minifiable _ _ holds.2).filter _⟩
      intro none
      simp [none, minifyAll]
  | .text value position => exact minifiable.text holds _
  | .comment value position => exact holds
  | .doctype position => exact holds

theorem throughout_minifyAll (minifiable : Minifiable p) (cx : Surroundings) (before : Bool)
    {ns : List Node} (holds : ThroughoutAll p ns) :
    ThroughoutAll p (minifyAll cx before ns).1 := by
  match ns with
  | [] => trivial
  | n :: ns =>
      simp only [minifyAll]
      split
      · exact throughout_minifyAll minifiable _ _ holds.2
      · constructor
        · exact throughout_minifyNode minifiable _ holds.1
        · exact throughout_minifyAll minifiable _ _ holds.2

end

theorem throughout_minify (minifiable : Minifiable p) (newlines : Bool) {n : Node}
    (holds : n.Throughout p) : (n.minify newlines).Throughout p :=
  throughout_minifyNode minifiable _ holds

end HtmlToMarkdown.Html
