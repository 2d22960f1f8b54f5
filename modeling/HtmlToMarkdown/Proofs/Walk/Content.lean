import HtmlToMarkdown.Proofs.Source.Throughout
import HtmlToMarkdown.Proofs.Walk.Handlers

namespace HtmlToMarkdown

open Html (Element ThroughoutAll throughoutAll_iff)

namespace Handler

def Refillable (p : Html.Node → Prop) : Prop :=
  ∀ {tag : String} {properties : Html.Properties} {children : List Html.Node}
    {position : Option Position} (others : List Html.Node),
    p (.element tag properties children position) → p (.element tag properties others position)

section Content

variable {p : Html.Node → Prop}

theorem throughout_leadingToggle (refillable : Refillable p) {ns content : List Html.Node}
    {toggle : Element} (found : leadingToggle ns = some (toggle, content))
    (holds : ThroughoutAll p ns) : ThroughoutAll p content := by
  fun_induction leadingToggle ns generalizing toggle content with
  | case1 tag properties children position rest head =>
      rcases Prod.mk.inj (Option.some.inj found) with ⟨rfl, rfl⟩
      exact holds.2
  | case2 tag properties children position rest head notToggle paragraph =>
      rename_i ih
      rcases Option.map_eq_some_iff.mp found with ⟨⟨inner, shorter⟩, foundInside, same⟩
      rcases Prod.mk.inj same with ⟨rfl, rfl⟩
      rcases holds with ⟨⟨here, below⟩, later⟩
      exact ⟨⟨refillable _ here, ih foundInside below⟩, later⟩
  | case3 => cases found
  | case4 => cases found

theorem throughout_taskOf (refillable : Refillable p) {e : Element}
    (holds : ThroughoutAll p e.children) : ThroughoutAll p (taskOf e).2 := by
  unfold taskOf
  split
  next found => exact throughout_leadingToggle refillable found holds
  next => exact holds

theorem size_of_mem_taskOf {e : Element} {n : Html.Node} (member : n ∈ (taskOf e).2) :
    n.size < e.toNode.size := by
  unfold taskOf at member
  split at member
  next toggle content found =>
    have small : n.size ≤ Html.Node.sizeAll content := Html.size_le_of_mem member
    have shorter := sizeAll_leadingToggle found
    apply Nat.lt_succ_of_le
    omega
  next => exact Html.size_lt_of_mem_children member

theorem throughout_unwrapDivs {ns : List Html.Node} (holds : ThroughoutAll p ns) :
    ∀ n ∈ unwrapDivs ns, n.Throughout p := by
  intro n member
  rcases List.mem_flatMap.mp member with ⟨m, inside, here⟩
  have whole := throughoutAll_iff.mp holds m inside
  split at here
  · exact whole.children n here
  · rw [List.mem_singleton.mp here]
    exact whole

theorem throughout_groups {e : Element} (holds : ThroughoutAll p e.children) {g : Group}
    (found : g ∈ groupFrom {} false (unwrapDivs e.children)) :
    ∀ n ∈ g.nodes, n.Throughout p := by
  intro n member
  rcases mem_of_mem_groupFrom found member with none | inside
  · cases none
  · exact throughout_unwrapDivs holds n inside

end Content

end Handler

end HtmlToMarkdown
