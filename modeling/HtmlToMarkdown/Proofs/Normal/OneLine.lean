import HtmlToMarkdown.Proofs.Ink.Markdown
import HtmlToMarkdown.Proofs.Normal.Blanks

namespace HtmlToMarkdown.Markdown

open Node (textContentOf)
open Text (isLineEnd isTabOrSpace)

def OneLine (value : String) : Prop := ∀ c ∈ value.toList, ¬ isLineEnd c

structure Trimmed (first last : Bool) (value : String) : Prop where
  front : first → ∀ c ∈ value.toList.head?, ¬ isTabOrSpace c
  back : last → ∀ c ∈ value.toList.getLast?, ¬ isTabOrSpace c

/-- Where edges are trimmed, there is nothing to trim. -/
def Node.Trimmed : Node → Prop
  | .parent shape _ children =>
    Markdown.Trimmed shape.trimsEdges shape.trimsEdges (textContentOf children)
  | .leaf _ _ => True

variable {trims first last : Bool} {value rest : String} {ns : List Node}

theorem Node.trimmed_of_untrimmed {shape : Shape} (untrimmed : shape.trimsEdges = false)
    (origin : Origin) (children : List Node) : (Node.parent shape origin children).Trimmed := by
  rw [Node.Trimmed, untrimmed]
  exact ⟨fun edge => absurd edge Bool.false_ne_true, fun edge => absurd edge Bool.false_ne_true⟩

theorem oneLine_append : OneLine (value ++ rest) ↔ OneLine value ∧ OneLine rest := by
  rw [OneLine, String.toList_append, List.forall_mem_append]
  rfl

theorem OneLine.of_mem (oneLine : OneLine (textContentOf ns)) {n : Node} (member : n ∈ ns) :
    OneLine n.textContent := by
  induction ns with
  | nil => cases member
  | cons m ns ih =>
      obtain ⟨here, later⟩ := oneLine_append.mp oneLine
      rcases List.mem_cons.mp member with rfl | inside
      · exact here
      · exact ih later inside

theorem Trimmed.behind (trimmed : Trimmed first last (value ++ rest)) :
    Trimmed false last rest where
  front := nofun
  back edge c found := by
    apply trimmed.back edge c
    rw [String.toList_append, List.getLast?_append, Option.mem_def.mp found]
    rfl

theorem Trimmed.ahead (trimmed : Trimmed first last (value ++ textContentOf ns)) :
    Trimmed first (last && ns.isEmpty) value where
  front edge c found := by
    apply trimmed.front edge c
    rw [String.toList_append, List.head?_append, Option.mem_def.mp found]
    rfl
  back edge c found := by
    obtain ⟨isEdge, alone⟩ := Bool.and_eq_true_iff.mp edge
    apply trimmed.back isEdge c
    rw [List.isEmpty_iff.mp alone, textContentOf, String.append_empty]
    exact found

theorem tidy_of_trimmed (oneLine : OneLine value) (trimmed : Trimmed first last value) :
    tidy first last value = value := by
  by_cases empty : value = ""
  · rw [empty]
    cases first <;> cases last <;> rfl
  · have beside : ∀ c ∈ value.toList, ∀ d ∈ value.toList, Beside c d := fun c inside d member =>
      ⟨fun both => oneLine d member both.2, fun both => oneLine c inside both.1⟩
    have lines := (List.pairwise_of_forall_mem_list beside).isChain
    exact tidy_of_tidied ⟨empty, lines, trimmed.front, trimmed.back⟩

theorem textContentOf_tidyTexts (oneLine : OneLine (textContentOf ns))
    (trimmed : Trimmed (trims && first) trims (textContentOf ns)) :
    textContentOf (tidyTexts trims first ns) = textContentOf ns := by
  have next : ∀ {first : Bool} {value rest : String},
      Trimmed (trims && first) trims (value ++ rest) → Trimmed (trims && false) trims rest :=
    fun trimmed => (Bool.and_false trims).symm ▸ trimmed.behind
  fun_induction tidyTexts trims first ns with
  | case1 => rfl
  | case2 first value origin ns tidied empty ih =>
      obtain ⟨here, later⟩ := oneLine_append.mp oneLine
      have same : tidied = value := tidy_of_trimmed here trimmed.ahead
      have none : value = "" := same ▸ eq_of_beq empty
      rw [ih later (next trimmed), textContentOf, Node.textContent, Leaf.textContent, none,
        String.empty_append]
  | case3 first value origin ns tidied filled ih =>
      obtain ⟨here, later⟩ := oneLine_append.mp oneLine
      have same : tidied = value := tidy_of_trimmed here trimmed.ahead
      rw [textContentOf, textContentOf, same, ih later (next trimmed)]
  | case4 first n ns notText ih =>
      rw [textContentOf, textContentOf, ih (oneLine_append.mp oneLine).2 (next trimmed)]

theorem textContentOf_map {f : Node → Node} (same : ∀ n ∈ ns, (f n).textContent = n.textContent) :
    textContentOf (ns.map f) = textContentOf ns := by
  induction ns with
  | nil => rfl
  | cons n ns ih =>
      obtain ⟨here, later⟩ := List.forall_mem_cons.mp same
      rw [List.map_cons, textContentOf, textContentOf, here, ih later]

/-- The normal form keeps a text of one line that is trimmed. -/
theorem textContent_normalize {n : Node} (trimmed : n.Throughout Node.Trimmed)
    (oneLine : OneLine n.textContent) : n.normalize.textContent = n.textContent := by
  induction n using Node.induction with
  | leaf content origin => rfl
  | parent shape origin children ih =>
      obtain ⟨here, below⟩ := Node.throughout_parent.mp trimmed
      have merged : textContentOf (mergeTexts none (normalizeAll children)) =
          textContentOf children := by
        rw [textContentOf_mergeTexts, normalizeAll_eq_map, textContentOf_map fun c member =>
          ih c member (below c member) (OneLine.of_mem oneLine member)]
        exact String.empty_append
      rw [Node.normalize, Node.textContent, Node.textContent, textContentOf_tidyTexts, merged]
      · exact merged ▸ oneLine
      · rw [merged, Bool.and_true]
        exact here

end HtmlToMarkdown.Markdown
