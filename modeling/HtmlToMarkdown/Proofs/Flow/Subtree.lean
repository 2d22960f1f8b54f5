import HtmlToMarkdown.Markdown.Node

namespace HtmlToMarkdown.Markdown

mutual

def Node.subtree : Node → List Node
  | .parent shape origin children => .parent shape origin children :: subtreeAll children
  | .leaf content origin => [.leaf content origin]

def subtreeAll : List Node → List Node
  | [] => []
  | n :: ns => n.subtree ++ subtreeAll ns

end

theorem mem_subtreeAll {m : Node} {ns : List Node} :
    m ∈ subtreeAll ns ↔ ∃ n ∈ ns, m ∈ n.subtree := by
  induction ns with
  | nil => simp [subtreeAll]
  | cons n ns ih => simp [subtreeAll, ih]

theorem self_mem_subtree (n : Node) : n ∈ n.subtree := by
  cases n <;> simp [Node.subtree]

def Node.Throughout (p : Node → Prop) (n : Node) : Prop := ∀ m ∈ n.subtree, p m

variable {p : Node → Prop}

theorem Node.throughout_parent {shape : Shape} {origin : Origin} {children : List Node} :
    (Node.parent shape origin children).Throughout p ↔
      p (.parent shape origin children) ∧ ∀ c ∈ children, c.Throughout p := by
  rw [Throughout, subtree, List.forall_mem_cons]
  refine and_congr_right fun _ => ⟨fun all c member m inside => ?_, fun all m inside => ?_⟩
  · exact all m (mem_subtreeAll.mpr ⟨c, member, inside⟩)
  · obtain ⟨c, member, inside⟩ := mem_subtreeAll.mp inside
    exact all c member m inside

theorem Node.throughout_leaf {content : Leaf} {origin : Origin} :
    (Node.leaf content origin).Throughout p ↔ p (.leaf content origin) := by
  rw [Throughout, subtree, List.forall_mem_singleton]

theorem Node.Throughout.self {n : Node} (all : n.Throughout p) : p n := all n (self_mem_subtree n)

theorem Node.Throughout.mono {q : Node → Prop} {n : Node} (all : n.Throughout p)
    (weaker : ∀ m, p m → q m) : n.Throughout q :=
  fun m inside => weaker m (all m inside)

theorem Node.Throughout.below {n : Node} (all : n.Throughout p) :
    n.Throughout fun m => m.Throughout p := by
  cases n with
  | leaf content origin => exact Node.throughout_leaf.mpr all
  | parent shape origin children =>
      obtain ⟨-, inside⟩ := Node.throughout_parent.mp all
      exact Node.throughout_parent.mpr ⟨all, fun c member => (inside c member).below⟩

end HtmlToMarkdown.Markdown
