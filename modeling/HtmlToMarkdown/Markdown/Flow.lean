import HtmlToMarkdown.Markdown.Node

/-!
Flow content out of mixed content: runs of phrasing nodes become paragraphs and blocks stay. Links
and deletions may hold blocks in HTML. Such a node is split first, so that each block gets its own
copy of the node around its content.
-/

namespace HtmlToMarkdown.Markdown

mutual

def Node.hasBlock (n : Node) : Bool :=
  !n.isPhrasing ||
    match n with
    | .parent _ _ children => wrapNeeded children
    | .leaf _ _ => false

def wrapNeeded : List Node → Bool
  | [] => false
  | n :: ns => n.hasBlock || wrapNeeded ns

end

def dropSurroundingBreaks (nodes : List Node) : List Node :=
  ((nodes.reverse.dropWhile Node.isBreak).reverse).dropWhile Node.isBreak

/-- A maximal run of phrasing nodes, or a single block. -/
inductive Piece
  | run (nodes : List Node)
  | block (node : Node)

def pieces : List Node → List Piece
  | [] => []
  | n :: ns =>
    if n.isPhrasing then
      match pieces ns with
      | .run nodes :: ps => .run (n :: nodes) :: ps
      | ps => .run [n] :: ps
    else .block n :: pieces ns

/-- The paragraph of a run; white space alone makes none. -/
def Piece.toFlow : Piece → List Node
  | run nodes =>
    if nodes.all Node.isWhitespaceText then [] else [.paragraph (dropSurroundingBreaks nodes)]
  | block node => [node]

def Shape.isSplittable : Shape → Bool
  | delete => true
  | link _ _ => true
  | _ => false

def Shape.isGrid : Shape → Bool
  | list _ _ _ => true
  | table _ => true
  | tableRow => true
  | _ => false

def Shape.isContainer : Shape → Bool
  | root => true
  | blockquote => true
  | listItem _ _ => true
  | _ => false

mutual

def Node.splitDepth : Node → Nat
  | .parent shape _ children =>
    if shape.isSplittable || shape.isGrid || shape.isContainer then splitDepthAll children + 1
    else 0
  | .leaf _ _ => 0

def splitDepthAll : List Node → Nat
  | [] => 0
  | n :: ns => max n.splitDepth (splitDepthAll ns)

end

theorem splitDepth_le_of_mem {n : Node} {ns : List Node} (h : n ∈ ns) :
    n.splitDepth ≤ splitDepthAll ns := by
  induction ns with
  | nil => cases h
  | cons m ns ih =>
    rcases List.mem_cons.mp h with rfl | h
    · exact Nat.le_max_left _ _
    · exact Nat.le_trans (ih h) (Nat.le_max_right _ _)

theorem splitDepth_parent_le (shape : Shape) (origin : Origin) (children : List Node) :
    (Node.parent shape origin children).splitDepth ≤ splitDepthAll children + 1 := by
  unfold Node.splitDepth
  split <;> omega

theorem splitDepth_parent {shape : Shape} {origin : Origin} {children : List Node}
    (h : shape.isSplittable || shape.isGrid || shape.isContainer) :
    (Node.parent shape origin children).splitDepth = splitDepthAll children + 1 := by
  rw [Node.splitDepth, if_pos h]

theorem lex_of_le {a b m n : Nat} (h : a ≤ b) (hmn : m < n) :
    Prod.Lex (· < ·) (· < ·) (a, m) (b, n) := by
  rcases Nat.lt_or_eq_of_le h with h | rfl
  · exact .left _ _ h
  · exact .right _ hmn

mutual

/-- Splits the links and deletions that hold blocks. -/
def flatten (nodes : List Node) : List Node := nodes.flatMap fun n => split n
termination_by (splitDepthAll nodes, 1)
decreasing_by
  next member => exact lex_of_le (splitDepth_le_of_mem member) (by decide)

/-- The parts of a link or deletion that holds blocks; any other node is its only part. The blocks
inside are never deeper than the content they come from, so none is left as it is. -/
def split : Node → List Node
  | .parent shape origin children =>
    if shape.isSplittable && wrapNeeded children then
      (pieces (flatten children)).map fun piece =>
        match piece with
        | .run nodes => .parent shape origin nodes
        | .block b =>
          if b.splitDepth ≤ splitDepthAll children then nest shape origin b else b
    else [.parent shape origin children]
  | .leaf content origin => [.leaf content origin]
termination_by n => (n.splitDepth, 0)
decreasing_by
  all_goals
    rw [splitDepth_parent (by simp_all)]
    exact .left _ _ (by omega)

/-- Puts a copy of a link or deletion around the content of a block. Items, rows and cells get
their own, and flow content is wrapped again. -/
def nest (shape : Shape) (origin : Origin) : Node → Node
  | .parent kind place children =>
    if children.isEmpty then .parent kind place children
    else if kind.isGrid then .parent kind place (children.map fun c => nest shape origin c)
    else if kind.isContainer then .parent kind place (wrap [.parent shape origin children])
    else .parent kind place [.parent shape origin children]
  | .leaf content place => .leaf content place
termination_by n => (n.splitDepth, 3)
decreasing_by
  · next member =>
      rw [splitDepth_parent (by simp_all)]
      exact .left _ _ (Nat.lt_succ_of_le (splitDepth_le_of_mem member))
  · rw [@splitDepth_parent kind place children (by simp_all)]
    exact lex_of_le (by simpa [splitDepthAll] using splitDepth_parent_le shape origin children)
      (by decide)

/-- Flow content: paragraphs for the runs of phrasing nodes between the blocks. -/
def wrap (nodes : List Node) : List Node := (pieces (flatten nodes)).flatMap Piece.toFlow
termination_by (splitDepthAll nodes, 2)
decreasing_by
  exact .right _ (by decide)

end

end HtmlToMarkdown.Markdown
