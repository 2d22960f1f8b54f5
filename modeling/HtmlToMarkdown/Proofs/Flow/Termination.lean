import HtmlToMarkdown.Proofs.Flow.Clean

/-!
The making of flow content comes to an end. A link or deletion is split by handing the blocks inside
it to `nest`, which may wrap a new node around their content: neither is a part of what was there
at the start, and the copies of links and deletions add to it all the time. So the calls are written
down here as they are made, without a bound, and it is shown that no chain of them is endless and
that each of them comes to the result that the functions give.
-/

namespace HtmlToMarkdown.Markdown

instance : DecidablePred Node.Straddles
  | .parent shape _ children =>
    inferInstanceAs (Decidable (shape.isSplittable && wrapNeeded children))
  | .leaf _ _ => .isFalse id

/-- The calls that are made. `runs` either makes paragraphs or puts copies of a cover around runs
and into blocks. -/
inductive Call
  | wrap (nodes : List Node)
  | runs (nodes : List Node) (around : Option Cover)
  | flatten (nodes : List Node)
  | split (cover : Cover) (children : List Node)
  | nest (cover : Cover) (block : Node)

def Piece.copy (cover : Cover) (nested : Node → Node) : Piece → Node
  | run nodes => .parent cover.1 cover.2 nodes
  | block b => nested b

inductive Evaluates : Call → List Node → Prop
  | wrap {nodes result : List Node} (runs : Evaluates (.runs nodes none) result) :
    Evaluates (.wrap nodes) result
  | paragraphs {nodes flat : List Node} (flattened : Evaluates (.flatten nodes) flat) :
    Evaluates (.runs nodes none) ((pieces flat).flatMap Piece.toFlow)
  | copies {nodes flat : List Node} {cover : Cover} {nested : Node → Node}
    (flattened : Evaluates (.flatten nodes) flat)
    (blocks : ∀ b ∈ flat, ¬ b.isPhrasing → Evaluates (.nest cover b) [nested b]) :
    Evaluates (.runs nodes (some cover)) ((pieces flat).map (Piece.copy cover nested))
  | flatten {nodes : List Node} {parts : Node → List Node}
    (straddling : ∀ shape origin children, .parent shape origin children ∈ nodes →
      (Node.parent shape origin children).Straddles →
      Evaluates (.split (shape, origin) children) (parts (.parent shape origin children))) :
    Evaluates (.flatten nodes) (nodes.flatMap fun n => if n.Straddles then parts n else [n])
  | split {cover : Cover} {children result : List Node}
    (runs : Evaluates (.runs children (some cover)) result) :
    Evaluates (.split cover children) result
  | leaf {cover : Cover} {content : Leaf} {place : Origin} :
    Evaluates (.nest cover (.leaf content place)) [.leaf content place]
  | empty {cover : Cover} {kind : Shape} {place : Origin} :
    Evaluates (.nest cover (.parent kind place [])) [.parent kind place []]
  | grid {cover : Cover} {kind : Shape} {place : Origin} {children : List Node}
    {nested : Node → Node} (filled : children ≠ []) (isGrid : kind.isGrid)
    (items : ∀ c ∈ children, Evaluates (.nest cover c) [nested c]) :
    Evaluates (.nest cover (.parent kind place children)) [.parent kind place (children.map nested)]
  | container {cover : Cover} {kind : Shape} {place : Origin} {children content : List Node}
    (filled : children ≠ []) (isContainer : kind.isContainer)
    (wrapped : Evaluates (.wrap [.parent cover.1 cover.2 children]) content) :
    Evaluates (.nest cover (.parent kind place children)) [.parent kind place content]
  | other {cover : Cover} {kind : Shape} {place : Origin} {children : List Node}
    (filled : children ≠ []) (notGrid : ¬ kind.isGrid) (notContainer : ¬ kind.isContainer) :
    Evaluates (.nest cover (.parent kind place children))
      [.parent kind place [.parent cover.1 cover.2 children]]

namespace Call

inductive MadeBy : Call → Call → Prop
  | wrap {nodes : List Node} : MadeBy (.runs nodes none) (.wrap nodes)
  | runs {nodes : List Node} {around : Option Cover} :
    MadeBy (.flatten nodes) (.runs nodes around)
  | block {nodes flat : List Node} {cover : Cover} {b : Node}
    (flattened : Evaluates (.flatten nodes) flat) (member : b ∈ flat) (block : ¬ b.isPhrasing) :
    MadeBy (.nest cover b) (.runs nodes (some cover))
  | flatten {nodes children : List Node} {shape : Shape} {origin : Origin}
    (member : .parent shape origin children ∈ nodes)
    (straddles : (Node.parent shape origin children).Straddles) :
    MadeBy (.split (shape, origin) children) (.flatten nodes)
  | split {cover : Cover} {children : List Node} :
    MadeBy (.runs children (some cover)) (.split cover children)
  | item {cover : Cover} {kind : Shape} {place : Origin} {children : List Node} {c : Node}
    (isGrid : kind.isGrid) (member : c ∈ children) :
    MadeBy (.nest cover c) (.nest cover (.parent kind place children))
  | refill {cover : Cover} {kind : Shape} {place : Origin} {children : List Node}
    (filled : children ≠ []) (isContainer : kind.isContainer) :
    MadeBy (.wrap [.parent cover.1 cover.2 children]) (.nest cover (.parent kind place children))

def result : Call → List Node
  | wrap nodes => Markdown.wrap nodes
  | runs nodes none => Markdown.wrap nodes
  | runs nodes (some cover) =>
    (pieces (Markdown.flatten nodes)).map (Piece.around cover.1 cover.2)
  | flatten nodes => Markdown.flatten nodes
  | split cover children =>
    (pieces (Markdown.flatten children)).map (Piece.around cover.1 cover.2)
  | nest cover block => [Markdown.nest cover.1 cover.2 block]

/-- Six times how far splitting can descend, and the place of the call in a round. -/
def height : Call → Nat
  | split _ children => 6 * (splitDepthAll children + 1)
  | flatten nodes => 6 * splitDepthAll nodes + 1
  | runs nodes none => 6 * splitDepthAll nodes + 2
  | wrap nodes => 6 * splitDepthAll nodes + 3
  | nest _ block => 6 * block.splitDepth + 4
  | runs nodes (some _) => 6 * splitDepthAll nodes + 5

end Call

section Evaluation

theorem map_copy {nodes : List Node} {cover : Cover} {nested : Node → Node}
    (blocks : ∀ b ∈ nodes, ¬ b.isPhrasing → nested b = nest cover.1 cover.2 b) :
    (pieces nodes).map (Piece.copy cover nested) =
      (pieces nodes).map (Piece.around cover.1 cover.2) := by
  refine List.map_congr_left fun p found => ?_
  cases p with
  | run nodes => rfl
  | block b =>
      exact blocks b (mem_of_mem_pieces found (List.mem_singleton_self b)) (sorted_pieces _ _ found)

theorem flatten_eq_ite (nodes : List Node) :
    flatten nodes = nodes.flatMap fun n => if n.Straddles then split n else [n] := by
  rw [flatten]
  refine List.flatMap_congr fun n _ => ?_
  split
  next => rfl
  next compact => exact split_of_compact compact

theorem Evaluates.eq_result {call : Call} {result : List Node} (evaluates : Evaluates call result) :
    result = call.result := by
  induction evaluates with
  | wrap _ ih => exact ih
  | @paragraphs nodes flat _ ih =>
      rw [ih, Call.result, Call.result, Markdown.wrap]
  | @copies nodes flat cover nested _ _ ih blocks =>
      rw [ih] at blocks ⊢
      exact map_copy fun b member block => (List.cons.inj (blocks b member block)).1
  | @flatten nodes parts _ ih =>
      rw [Call.result, flatten_eq_ite]
      refine List.flatMap_congr fun n member => ite_congr rfl (fun straddles => ?_) fun _ => rfl
      cases n with
      | leaf content origin => cases straddles
      | parent shape origin children =>
          rw [split_parent straddles]
          exact ih shape origin children member straddles
  | split _ ih => exact ih
  | leaf => rw [Call.result, nest_leaf]
  | empty => rw [Call.result, nest_empty]
  | grid filled isGrid _ ih =>
      rw [Call.result, nest_grid _ _ isGrid]
      have same := List.map_congr_left fun c member => (List.cons.inj (ih c member)).1
      rw [same]
  | container filled isContainer _ ih =>
      rw [Call.result, nest_container _ _ isContainer _ filled, ih, Call.result]
  | other filled notGrid notContainer =>
      rw [Call.result, nest_other _ _ notGrid notContainer _ filled]

/-- A call is always lower than the one that makes it. -/
theorem Call.MadeBy.height_lt {inner outer : Call} (made : inner.MadeBy outer) :
    inner.height < outer.height := by
  cases made with
  | wrap => exact Nat.lt_succ_self _
  | @runs nodes around =>
      cases around with
      | none => exact Nat.lt_succ_self _
      | some cover =>
          simp only [Call.height]
          omega
  | @block nodes flat cover b flattened member block =>
      rw [flattened.eq_result, Call.result] at member
      have low := splitDepth_le_of_mem member
      have flat := splitDepthAll_flatten_le nodes
      simp only [Call.height]
      omega
  | @flatten nodes children shape origin member straddles =>
      have splittable : shape.isSplittable := (Bool.and_eq_true_iff.mp straddles).1
      have low := splitDepth_le_of_mem member
      rw [splitDepth_parent (by simp [splittable])] at low
      simp only [Call.height]
      omega
  | split =>
      simp only [Call.height]
      omega
  | @item cover kind place children c isGrid member =>
      have low := splitDepth_le_of_mem member
      simp only [Call.height]
      rw [splitDepth_parent (by simp [isGrid])]
      omega
  | @refill cover kind place children filled isContainer =>
      have low := splitDepth_parent_le cover.1 cover.2 children
      simp only [Call.height, splitDepthAll]
      rw [@splitDepth_parent kind place children (by simp [isContainer])]
      omega

theorem Call.wellFounded_madeBy : WellFounded Call.MadeBy :=
  Subrelation.wf Call.MadeBy.height_lt (InvImage.wf Call.height Nat.lt_wfRel.wf)

theorem evaluates_nest (cover : Cover) (b : Node)
    (ih : ∀ inner, Call.MadeBy inner (.nest cover b) → Evaluates inner inner.result) :
    Evaluates (.nest cover b) [nest cover.1 cover.2 b] := by
  cases b with
  | leaf content place =>
      rw [nest_leaf]
      exact .leaf
  | parent kind place children =>
      by_cases filled : children = []
      · rw [filled, nest_empty]
        exact .empty
      · by_cases isGrid : kind.isGrid
        · rw [nest_grid _ _ isGrid]
          exact .grid filled isGrid fun c member => ih _ (.item isGrid member)
        · by_cases isContainer : kind.isContainer
          · rw [nest_container _ _ isContainer place filled]
            exact .container filled isContainer (ih _ (.refill filled isContainer))
          · rw [nest_other _ _ isGrid isContainer place filled]
            exact .other filled isGrid isContainer

theorem evaluates_flatten (nodes : List Node)
    (ih : ∀ inner, Call.MadeBy inner (.flatten nodes) → Evaluates inner inner.result) :
    Evaluates (.flatten nodes) (flatten nodes) := by
  rw [flatten_eq_ite]
  refine .flatten fun shape origin children member straddles => ?_
  rw [split_parent straddles]
  exact ih _ (.flatten member straddles)

/-- Each call comes to a result, the one that the functions give. -/
theorem evaluates_result (call : Call) : Evaluates call call.result := by
  induction call using Call.wellFounded_madeBy.induction with
  | _ call ih =>
      cases call with
      | wrap nodes => exact .wrap (ih _ .wrap)
      | runs nodes around =>
          have flattened := ih (.flatten nodes) .runs
          cases around with
          | none =>
              rw [Call.result, Markdown.wrap]
              exact .paragraphs flattened
          | some cover =>
              exact .copies flattened fun b member block => ih _ (.block flattened member block)
      | flatten nodes => exact evaluates_flatten nodes ih
      | split cover children => exact .split (ih _ .split)
      | nest cover b => exact evaluates_nest cover b ih

/-- No chain of calls is endless, every call comes to a result, and wrapping comes to what `wrap`
gives and to nothing else. -/
theorem terminates_wrap :
    WellFounded Call.MadeBy ∧ (∀ call, ∃ result, Evaluates call result) ∧
      ∀ nodes result, Evaluates (.wrap nodes) result ↔ result = wrap nodes := by
  refine ⟨Call.wellFounded_madeBy, fun call => ⟨call.result, evaluates_result call⟩, ?_⟩
  intro nodes result
  constructor
  · intro evaluates
    exact evaluates.eq_result
  · rintro rfl
    exact evaluates_result (.wrap nodes)

end Evaluation

end HtmlToMarkdown.Markdown
