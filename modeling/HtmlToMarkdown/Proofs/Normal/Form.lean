import HtmlToMarkdown.Proofs.Coercion
import HtmlToMarkdown.Proofs.Normal.Blanks
import HtmlToMarkdown.Proofs.Positions.Units

namespace HtmlToMarkdown.Markdown

/-- Siblings in normal form. With `trims` the ends of the list are edges, its beginning only if
nothing stands before it. -/
structure TidiedAll (trims first : Bool) (ns : List Node) : Prop where
  apart : ns.IsChain fun n m => ¬ (n.isText ∧ m.isText)
  texts : ∀ before value origin after, ns = before ++ .leaf (.text value) origin :: after →
    Tidied (trims && (first && before.isEmpty)) (trims && after.isEmpty) value

def Node.Normal : Node → Prop
  | .parent shape _ children => TidiedAll shape.trimsEdges true children
  | .leaf _ _ => True

mutual

def Node.withoutTexts : Node → List Node
  | .parent shape origin children => [.parent shape origin (withoutTextsIn children)]
  | .leaf (.text _) _ => []
  | .leaf content origin => [.leaf content origin]

def withoutTextsIn : List Node → List Node
  | [] => []
  | n :: ns => n.withoutTexts ++ withoutTextsIn ns

end

/-- From the start of the first one to the end of the last one that has a position. -/
def runPosition : List Node → Option Position
  | [] => none
  | n :: ns => n.position.map fun p =>
    { p with stop := ((ns.filterMap Node.position).getLast?.getD p).stop }

def runOrigin (run : List Node) : Origin :=
  { position := runPosition run, data := run.head?.bind Node.data }

/-- What texts side by side become; `first` and `last` say which of their ends are edges. -/
def settledRun (first last : Bool) (run : List Node) : List Node :=
  let value := String.ofList (prune first last [] (Node.textContentOf run).toList)
  if value = "" then [] else [.leaf (.text value) (runOrigin run)]

mutual

inductive Settles : Node → Node → Prop
  | leaf (content : Leaf) (origin : Origin) : Settles (.leaf content origin) (.leaf content origin)
  | parent {shape : Shape} {origin : Origin} {children settled : List Node}
    (inside : SettlesAll shape.trimsEdges true children settled) :
    Settles (.parent shape origin children) (.parent shape origin settled)

/-- What siblings become: each run of texts at most one text, and every other node one node. -/
inductive SettlesAll : Bool → Bool → List Node → List Node → Prop
  | nil {trims first : Bool} : SettlesAll trims first [] []
  | node {trims first : Bool} {n m : Node} {ns ms : List Node} (other : ¬ n.isText)
    (here : Settles n m) (rest : SettlesAll trims false ns ms) :
    SettlesAll trims first (n :: ns) (m :: ms)
  | run {trims first : Bool} {run ns ms : List Node} (filled : run ≠ [])
    (texts : ∀ n ∈ run, n.isText) (whole : ∀ n ∈ ns.head?, ¬ n.isText)
    (rest : SettlesAll trims false ns ms) :
    SettlesAll trims first (run ++ ns)
      (settledRun (trims && first) (trims && ns.isEmpty) run ++ ms)

end

section TidiedAll

variable {trims first : Bool} {n : Node} {ns : List Node} {value : String} {origin : Origin}

theorem tidiedAll_nil : TidiedAll trims first [] := by
  refine ⟨.nil, ?_⟩
  intro before value origin after split
  exact absurd split.symm (by simp)

theorem tidiedAll_cons_of_not_isText (other : ¬ n.isText) :
    TidiedAll trims first (n :: ns) ↔ TidiedAll trims false ns := by
  constructor
  · rintro ⟨apart, texts⟩
    refine ⟨(List.isChain_cons.mp apart).2, ?_⟩
    rintro before value origin after rfl
    have tidied := texts (n :: before) value origin after rfl
    rwa [List.isEmpty_cons, Bool.and_false] at tidied
  · rintro ⟨apart, texts⟩
    refine ⟨List.isChain_cons.mpr ⟨fun m _ both => other both.1, apart⟩, ?_⟩
    intro before value origin after split
    cases before with
    | nil =>
        rcases List.cons.inj split with ⟨rfl, -⟩
        exact absurd rfl other
    | cons m before =>
        have tidied := texts before value origin after (List.cons.inj split).2
        rwa [List.isEmpty_cons, Bool.and_false]

theorem tidiedAll_cons_text :
    TidiedAll trims first (.leaf (.text value) origin :: ns) ↔
      Tidied (trims && first) (trims && ns.isEmpty) value ∧ (∀ m ∈ ns.head?, ¬ m.isText) ∧
        TidiedAll trims false ns := by
  constructor
  · rintro ⟨apart, texts⟩
    rcases List.isChain_cons.mp apart with ⟨next, rest⟩
    have here := texts [] value origin ns rfl
    rw [List.isEmpty_nil, Bool.and_true] at here
    refine ⟨here, fun m member isText => next m member ⟨rfl, isText⟩, rest, ?_⟩
    rintro before other place after rfl
    have tidied := texts (.leaf (.text value) origin :: before) other place after rfl
    rwa [List.isEmpty_cons, Bool.and_false] at tidied
  · rintro ⟨here, next, apart, texts⟩
    refine ⟨List.isChain_cons.mpr ⟨fun m member both => next m member both.2, apart⟩, ?_⟩
    intro before other place after split
    cases before with
    | nil =>
        rcases List.cons.inj split with ⟨same, rfl⟩
        cases same
        rwa [List.isEmpty_nil, Bool.and_true]
    | cons m before =>
        have tidied := texts before other place after (List.cons.inj split).2
        rwa [List.isEmpty_cons, Bool.and_false]

theorem TidiedAll.front (tidied : TidiedAll trims false ns) (other : ∀ m ∈ ns.head?, ¬ m.isText) :
    TidiedAll trims first ns := by
  cases ns with
  | nil => exact tidiedAll_nil
  | cons n ns =>
      have here := other n rfl
      rw [tidiedAll_cons_of_not_isText here] at tidied ⊢
      exact tidied

end TidiedAll

section Siblings

variable {trims first : Bool} {held : Option (String × Origin)} {ns : List Node}

theorem mergeTexts_cons_text (held : Option (String × Origin)) (value : String) (origin : Origin)
    (ns : List Node) :
    ∃ next, mergeTexts held (.leaf (.text value) origin :: ns) = mergeTexts (some next) ns ∧
      (held = none → next = (value, origin)) := by
  rcases held with - | ⟨before, place⟩
  · exact ⟨_, rfl, fun _ => rfl⟩
  · exact ⟨_, rfl, nofun⟩

theorem isChain_mergeTexts :
    (mergeTexts held ns).IsChain fun n m => ¬ (n.isText ∧ m.isText) := by
  induction ns generalizing held with
  | nil => cases held <;> simp [mergeTexts, heldText]
  | cons n ns ih =>
      by_cases isText : n.isText
      · rcases exists_of_isText isText with ⟨value, origin, rfl⟩
        rcases mergeTexts_cons_text held value origin ns with ⟨next, same, -⟩
        rw [same]
        exact ih
      · have rest : (n :: mergeTexts none ns).IsChain fun n m => ¬ (n.isText ∧ m.isText) :=
          List.isChain_cons.mpr ⟨fun m _ both => isText both.1, ih⟩
        rw [mergeTexts_of_not_isText isText]
        cases held with
        | none => exact rest
        | some =>
            refine List.isChain_cons.mpr ⟨fun m member both => ?_, rest⟩
            rw [← Option.some.inj member] at both
            exact isText both.2

theorem mergeTexts_of_apart (apart : ns.IsChain fun n m => ¬ (n.isText ∧ m.isText))
    (next : ∀ text, held = some text → ∀ m ∈ ns.head?, ¬ m.isText) :
    mergeTexts held ns = heldText held ++ ns := by
  induction ns generalizing held with
  | nil => rw [mergeTexts, List.append_nil]
  | cons n ns ih =>
      rcases List.isChain_cons.mp apart with ⟨beside, rest⟩
      by_cases isText : n.isText
      · rcases exists_of_isText isText with ⟨value, origin, rfl⟩
        have bare : held = none := by
          cases held with
          | none => rfl
          | some text => exact absurd rfl (next text rfl _ rfl)
        rw [bare, mergeTexts, ih rest fun _ _ m member both => beside m member ⟨rfl, both⟩]
        rfl
      · rw [mergeTexts_of_not_isText isText, @ih none rest nofun]
        rfl

theorem tidyTexts_of_tidied (tidied : TidiedAll trims first ns) :
    tidyTexts trims first ns = ns := by
  induction ns generalizing first with
  | nil => rfl
  | cons n ns ih =>
      by_cases isText : n.isText
      · rcases exists_of_isText isText with ⟨value, origin, rfl⟩
        rcases tidiedAll_cons_text.mp tidied with ⟨here, -, rest⟩
        rw [tidyTexts, tidy_of_tidied here, ih rest]
        exact if_neg (by simpa using here.filled)
      · rw [tidyTexts_of_not_isText isText, ih ((tidiedAll_cons_of_not_isText isText).mp tidied)]

theorem head_tidyTexts (other : ∀ m ∈ ns.head?, ¬ m.isText) :
    (∀ m ∈ (tidyTexts trims first ns).head?, ¬ m.isText) ∧
      (tidyTexts trims first ns).isEmpty = ns.isEmpty := by
  cases ns with
  | nil => exact ⟨fun m member => (nomatch member), rfl⟩
  | cons n ns =>
      have here := other n rfl
      rw [tidyTexts_of_not_isText here]
      refine ⟨fun m member => ?_, rfl⟩
      rw [← Option.some.inj member]
      exact here

theorem tidiedAll_tidyTexts (apart : ns.IsChain fun n m => ¬ (n.isText ∧ m.isText)) :
    TidiedAll trims first (tidyTexts trims first ns) := by
  induction ns generalizing first with
  | nil => exact tidiedAll_nil
  | cons n ns ih =>
      rcases List.isChain_cons.mp apart with ⟨beside, rest⟩
      by_cases isText : n.isText
      · rcases exists_of_isText isText with ⟨value, origin, rfl⟩
        have other : ∀ m ∈ ns.head?, ¬ m.isText :=
          fun m member both => beside m member ⟨rfl, both⟩
        obtain ⟨next, ends⟩ := @head_tidyTexts trims false ns other
        rw [tidyTexts]
        split
        next => exact (ih rest).front next
        next filled =>
          rw [tidiedAll_cons_text, ends]
          exact ⟨tidied_tidy (by simpa using filled), next, ih rest⟩
      · rw [tidyTexts_of_not_isText isText, tidiedAll_cons_of_not_isText isText]
        exact ih rest

end Siblings

section Normal

theorem normal_normalize (n : Node) : n.normalize.Throughout Node.Normal := by
  induction n using Node.induction with
  | leaf content origin => exact Node.throughout_leaf.mpr trivial
  | parent shape origin children ih =>
      rw [Node.normalize]
      refine Node.throughout_parent.mpr ⟨?_, ?_⟩
      · exact tidiedAll_tidyTexts isChain_mergeTexts
      · exact throughout_tidied (fun _ _ _ _ _ _ => trivial) ih

theorem normalize_of_normal {n : Node} (normal : n.Throughout Node.Normal) : n.normalize = n := by
  induction n using Node.induction with
  | leaf content origin => rfl
  | parent shape origin children ih =>
      rcases Node.throughout_parent.mp normal with ⟨here, below⟩
      have tidied : TidiedAll shape.trimsEdges true children := here
      have same : normalizeAll children = children := by
        rw [normalizeAll_eq_map]
        exact List.map_congr_left (fun c member => ih c member (below c member)) |>.trans
          (List.map_id children)
      have merged : mergeTexts none children = children :=
        @mergeTexts_of_apart none _ tidied.apart nofun
      rw [Node.normalize, same, merged, tidyTexts_of_tidied tidied]

/-- Normalization leaves a normal form as it is. -/
theorem normalize_normalize (n : Node) : n.normalize.normalize = n.normalize :=
  normalize_of_normal (normal_normalize n)

end Normal

section Runs

variable {run : List Node} {value : String} {origin : Origin}

theorem runOrigin_append (filled : run ≠ []) (n : Node) :
    runOrigin (run ++ [n]) = (runOrigin run).extend n.origin := by
  cases run with
  | nil => exact absurd rfl filled
  | cons m run =>
      simp only [runOrigin, List.cons_append, runPosition, List.head?_cons, Origin.extend,
        List.filterMap_append]
      cases m.position with
      | none => rfl
      | some p =>
          cases same : n.origin.position with
          | none =>
              have nothing : [n].filterMap Node.position = [] := List.filterMap_cons_none same
              rw [nothing, List.append_nil]
              rfl
          | some q =>
              have last : [n].filterMap Node.position = [q] := List.filterMap_cons_some same
              rw [last, List.getLast?_append]
              rfl

/-- The value of joined texts is all they say, and their origin that of the run. -/
theorem Joined.settled (joined : Joined run value origin) :
    Node.textContentOf run = value ∧ runOrigin run = origin ∧ ∀ n ∈ run, n.isText := by
  induction joined with
  | one value origin =>
      refine ⟨String.append_empty, ?_, List.forall_mem_singleton.mpr rfl⟩
      rcases origin with ⟨- | position, data⟩ <;> rfl
  | @more run value origin joined next place ih =>
      rcases ih with ⟨content, place', texts⟩
      refine ⟨?_, ?_, ?_⟩
      · rw [textContentOf_append, content]
        exact congrArg (value ++ ·) String.append_empty
      · rw [runOrigin_append joined.ne_nil, place']
        rfl
      · exact List.forall_mem_append.mpr ⟨texts, List.forall_mem_singleton.mpr rfl⟩

theorem tidyTexts_held (joined : Joined run value origin) (trims first : Bool) (ns : List Node) :
    tidyTexts trims first (heldText (some (value, origin)) ++ ns) =
      settledRun (trims && first) (trims && ns.isEmpty) run ++ tidyTexts trims false ns := by
  rcases joined.settled with ⟨content, place, -⟩
  rw [heldText, List.singleton_append, tidyTexts, settledRun, content, place, tidy_eq]
  simp only [beq_iff_eq]
  split <;> rfl

theorem settlesAll_of_held {held : Option (String × Origin)} (holds : Holds held run)
    {trims first : Bool} {ns ms : List Node} (whole : ∀ n ∈ ns.head?, ¬ n.isText)
    (empty : ms.isEmpty = ns.isEmpty)
    (rest : ∀ before, SettlesAll trims before ns (tidyTexts trims before ms)) :
    SettlesAll trims first (run ++ ns) (tidyTexts trims first (heldText held ++ ms)) := by
  rcases held with - | ⟨value, origin⟩
  · rw [show run = [] from holds]
    exact rest first
  · have joined : Joined run value origin := holds
    rw [tidyTexts_held joined, empty]
    exact .run joined.ne_nil joined.settled.2.2 whole (rest false)

mutual

theorem settles_normalize (n : Node) : Settles n n.normalize := by
  match n with
  | .leaf content origin => exact .leaf content origin
  | .parent shape origin children =>
      exact .parent (settlesAll_normalizeAll children holds_none shape.trimsEdges true)

theorem settlesAll_normalizeAll (ns : List Node) {held : Option (String × Origin)}
    {run : List Node} (holds : Holds held run) (trims first : Bool) :
    SettlesAll trims first (run ++ ns)
      (tidyTexts trims first (mergeTexts held (normalizeAll ns))) := by
  match ns with
  | [] =>
      rw [normalizeAll, mergeTexts, ← List.append_nil (heldText held)]
      exact settlesAll_of_held holds (fun n member => nomatch member) rfl fun _ => .nil
  | n :: ns =>
      -- A text goes on to be held with the run; another node ends the run before it.
      by_cases isText : n.isText
      · rcases exists_of_isText isText with ⟨value, origin, rfl⟩
        rcases holds.more value origin (normalizeAll ns) with ⟨next, same, stillHolds⟩
        rw [normalizeAll, Node.normalize, same, List.append_cons]
        exact settlesAll_normalizeAll ns stillHolds trims first
      · have other : ¬ n.normalize.isText := by rwa [isText_normalize]
        have rest := settlesAll_normalizeAll ns holds_none trims false
        rw [normalizeAll, mergeTexts_of_not_isText other]
        refine settlesAll_of_held holds (fun m member => ?_) rfl fun before => ?_
        · rwa [← Option.some.inj member]
        · rw [tidyTexts_of_not_isText other]
          exact .node isText (settles_normalize n) rest

end

@[simp] theorem withoutTextsIn_append (ns ms : List Node) :
    withoutTextsIn (ns ++ ms) = withoutTextsIn ns ++ withoutTextsIn ms := by
  induction ns with
  | nil => rfl
  | cons n ns ih => rw [List.cons_append, withoutTextsIn, ih, withoutTextsIn, List.append_assoc]

theorem withoutTextsIn_texts {ns : List Node} (texts : ∀ n ∈ ns, n.isText) :
    withoutTextsIn ns = [] := by
  induction ns with
  | nil => rfl
  | cons n ns ih =>
      rcases List.forall_mem_cons.mp texts with ⟨here, rest⟩
      rcases exists_of_isText here with ⟨value, origin, rfl⟩
      rw [withoutTextsIn, ih rest]
      rfl

theorem isText_of_mem_settledRun (first last : Bool) (run : List Node) :
    ∀ n ∈ settledRun first last run, n.isText := by
  unfold settledRun
  dsimp only
  split
  · exact fun n member => nomatch member
  · exact List.forall_mem_singleton.mpr rfl

mutual

theorem Settles.withoutTexts {n m : Node} (settles : Settles n m) :
    m.withoutTexts = n.withoutTexts := by
  match settles with
  | .leaf _ _ => rfl
  | .parent inside => rw [Node.withoutTexts, Node.withoutTexts, inside.withoutTextsIn]

theorem SettlesAll.withoutTextsIn {trims first : Bool} {ns ms : List Node}
    (settles : SettlesAll trims first ns ms) : withoutTextsIn ms = withoutTextsIn ns := by
  match settles with
  | .nil => rfl
  | .node _ here rest =>
      rw [Markdown.withoutTextsIn, Markdown.withoutTextsIn, here.withoutTexts,
        rest.withoutTextsIn]
  | .run _ texts _ rest =>
      rw [withoutTextsIn_append, withoutTextsIn_append, withoutTextsIn_texts texts,
        withoutTextsIn_texts (isText_of_mem_settledRun _ _ _), rest.withoutTextsIn]

end

/-- Normalization reaches the normal form and changes nothing else. Each run of texts side by side
becomes one text at most, in its place, without the tabs and spaces that touch a line ending or an
edge; everything but the texts stays as it was. -/
theorem normalForm_normalize (n : Node) :
    n.normalize.Throughout Node.Normal ∧ n.normalize.withoutTexts = n.withoutTexts ∧
      Settles n n.normalize :=
  ⟨normal_normalize n, (settles_normalize n).withoutTexts, settles_normalize n⟩

end Runs

end HtmlToMarkdown.Markdown
