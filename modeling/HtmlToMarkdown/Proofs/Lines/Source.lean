import HtmlToMarkdown.Proofs.Lines.Strokes
import HtmlToMarkdown.Proofs.Pushed.Room

/-!
What can be told of a conversion from the source. Each node of the source has a sketch of the nodes
that come of it. It depends on what is around, for the texts of controls and quotation marks do; and
of a block it only says that it is one. A rule says which sketches the content of lines and of flow
content may have, and whether lists may have inline content directly in them; a document meets it if
all elements do whose content is converted.
-/

namespace HtmlToMarkdown

open Handler (isToggle leadingToggle taskOf unwrapDivs)
open Html (Element)
open Text (isTabOrSpace)

/-- What the conversion of a node depends on besides the node, as far as sketches show. -/
structure Around where
  options : Options
  elements : List (String × Element)
  quoteDepth : Nat
  inTable : Bool

def State.around (s : State) : Around := ⟨s.options, s.elements, s.quoteDepth, s.inTable⟩

namespace Around

def inside (c : Around) (e : Element) : Around :=
  if Text.lower e.tag == "q" then { c with quoteDepth := c.quoteDepth + 1 }
  else if Text.lower e.tag == "table" then { c with inTable := true }
  else c

/-- A state with the same around, in which no base can be found. -/
def state (c : Around) : State :=
  { options := c.options, readBase := fun _ => none, elements := c.elements }

def start (options : Options) (tree : Html.Node) : Around := ⟨options, identified tree, 0, false⟩

end Around

def textStroke (value : String) : Stroke := if value.toList.all isTabOrSpace then .blank else .ink

namespace Html.Element

/-- The strokes of an element with a tag, in lower case, whose children are not converted. -/
def strokesOf (c : Around) (e : Element) (tag : String) : List Stroke :=
  if tag == "base" || Handlers.ignoredTags.contains tag then []
  else if tag == "br" then [.feed]
  else if tag == "iframe" then
    if (e.attribute? "src").isSome && (e.attribute? "title").isSome then [.ink] else []
  else if tag == "input" then
    (Output.nodes (Handler.inputOutput c.state e)).map Markdown.Node.stroke
  else if tag == "select" then
    let choices := Handler.shownChoices e e
    if choices.isEmpty then [] else [textStroke (Handler.Choice.textOf choices)]
  else if tag == "textarea" || tag == "table" then [textStroke e.toText]
  else [.ink]

def atomSketch (c : Around) (e : Element) : List Stroke :=
  if e.isIgnored then [] else e.strokesOf c (Text.lower e.tag)

/-- The sketch of an element, `content` being the one of its content. -/
def sketch (c : Around) (e : Element) (content : List Stroke) : List Stroke :=
  match e.role false c.inTable with
  | .through =>
    if Text.lower e.tag == "q" then
      let marks := c.options.quotePair c.quoteDepth
      sideStroke marks.1 :: (content ++ [sideStroke marks.2])
    else if ["audio", "video"].contains (Text.lower e.tag) then
      .wisp :: content.map Stroke.loosen
    else content
  | .cover => [if content.all Stroke.isInline then .ink else .other]
  | .mark => [if content.all Stroke.isInline then .ink else .other]
  | .atom => e.atomSketch c
  | _ => [.block]

end Html.Element

mutual

def Html.Node.sketch (c : Around) : Html.Node → List Stroke
  | .root _ _ => [.block]
  | .element tag properties children position =>
    let e : Element := ⟨tag, properties, children, position⟩
    e.sketch c (sketchOf (c.inside e) children)
  | .text value _ => [textStroke value]
  | .comment _ _ => [.ink]
  | .doctype _ => []

def sketchOf (c : Around) : List Html.Node → List Stroke
  | [] => []
  | n :: ns => n.sketch c ++ sketchOf c ns

end

section Sketch

theorem apart_of_passThrough : ∀ tag ∈ Handlers.passThroughTags,
    tag ∉ ["q", "table", "audio", "video"] := by
  decide +kernel

variable {c : Around} {e : Element}

theorem sketch_of_ignored (marked : e.isIgnored) : e.toNode.sketch c = [] := by
  have role : e.role false c.inTable = .atom := by simp [Element.role, marked]
  change e.sketch c _ = _
  rw [Element.sketch, role]
  exact if_pos marked

theorem sketch_of_atom (role : e.role false c.inTable = .atom) (shown : ¬ e.isIgnored) :
    e.toNode.sketch c = e.strokesOf c (Text.lower e.tag) := by
  change e.sketch c _ = _
  rw [Element.sketch, role]
  exact if_neg shown

theorem sketch_of_through (role : e.role false c.inTable = .through)
    (apart : Text.lower e.tag ∉ ["q", "audio", "video"]) :
    e.toNode.sketch c = sketchOf (c.inside e) e.children := by
  simp only [List.mem_cons, List.not_mem_nil, or_false, not_or] at apart
  change e.sketch c _ = _
  simp [Element.sketch, role, apart]

theorem sketch_of_media (role : e.role false c.inTable = .through)
    (named : Text.lower e.tag ∈ ["audio", "video"]) :
    e.toNode.sketch c = .wisp :: (sketchOf (c.inside e) e.children).map Stroke.loosen := by
  have apart : Text.lower e.tag ≠ "q" := by
    intro same
    simp [same] at named
  have medium : ["audio", "video"].contains (Text.lower e.tag) := by simpa using named
  change e.sketch c _ = _
  simp only [Element.sketch, role, apart, medium, beq_iff_eq, if_true, if_false]

theorem sketch_of_quote (role : e.role false c.inTable = .through)
    (named : Text.lower e.tag = "q") :
    e.toNode.sketch c =
      let marks := c.options.quotePair c.quoteDepth
      sideStroke marks.1 :: (sketchOf (c.inside e) e.children ++ [sideStroke marks.2]) := by
  change e.sketch c _ = _
  simp [Element.sketch, role, named]

theorem sketch_of_cover (covers : e.role false c.inTable ∈ [.cover, .mark]) :
    e.toNode.sketch c =
      [if (sketchOf (c.inside e) e.children).all Stroke.isInline then .ink else .other] := by
  change e.sketch c _ = _
  rw [Element.sketch]
  split <;> simp_all

theorem sketch_of_block (block : e.role false c.inTable ∉ [.through, .cover, .mark, .atom]) :
    e.toNode.sketch c = [.block] := by
  change e.sketch c _ = _
  rw [Element.sketch]
  split <;> simp_all

end Sketch

/-- What may come of the content of lines, headings and flow content, and whether a list may have
inline content directly in it. -/
structure Rule where
  line : List Stroke → Bool
  heading : List Stroke → Bool
  flow : List Stroke → Bool
  strays : Bool

namespace Rule

variable (r : Rule)

/-- The rule for a line, also without the controls in front that an item may take out of it. -/
def meetsLine (c : Around) : List Html.Node → Bool
  | [] => r.line []
  | n :: ns =>
    r.line (sketchOf c (n :: ns)) && (!(n.asElement?.any isToggle) || meetsLine c ns)

/-- The content of flow content that is converted; an item takes out the control in front. -/
def flowContent (e : Element) : List Html.Node :=
  if ["dd", "dt", "li"].contains (Text.lower e.tag) then (taskOf e).2 else e.children

def meetsContent (c : Around) (e : Element) : Role → Bool
  | .line =>
    if ["p", "summary"].contains (Text.lower e.tag) then r.meetsLine c e.children
    else r.heading (sketchOf c e.children)
  | .flow => r.flow (sketchOf c (flowContent e))
  | .list ofTerms =>
    r.strays ||
      (sketchOf c (if ofTerms then unwrapDivs e.children else e.children)).all (· == .block)
  | _ => true

/-- The rule for the content of a root, which is only wrapped if there is a block in it or a
document is asked for. -/
def meetsRoot (c : Around) (children : List Html.Node) : Bool :=
  (!c.options.document && (sketchOf c children).all Stroke.isInline) || r.flow (sketchOf c children)

end Rule

mutual

/-- Whether the rule is met by the node and by all below it that are converted. -/
def Html.Node.meets (r : Rule) (c : Around) (ofTerms : Bool) : Html.Node → Bool
  | .root children _ => r.meetsRoot c children && meetsAll r c false children
  | .element tag properties children position =>
    let e : Element := ⟨tag, properties, children, position⟩
    let role := e.role ofTerms c.inTable
    role.isAtomic ||
      (r.meetsContent c e role && meetsAll r (c.inside e) role.isListOfTerms children)
  | _ => true

def meetsAll (r : Rule) (c : Around) (ofTerms : Bool) : List Html.Node → Bool
  | [] => true
  | n :: ns => n.meets r c ofTerms && meetsAll r c ofTerms ns

end

def Rule.metBy (r : Rule) (options : Options) (tree : Html.Node) : Bool :=
  tree.meets r (.start options tree) false

section Meets

variable {r : Rule} {c : Around} {ofTerms : Bool} {ns : List Html.Node}

theorem mem_sketchOf {m : Stroke} : m ∈ sketchOf c ns ↔ ∃ n ∈ ns, m ∈ n.sketch c := by
  induction ns with
  | nil => simp [sketchOf]
  | cons n ns ih => simp [sketchOf, ih]

theorem meetsAll_iff : meetsAll r c ofTerms ns ↔ ∀ n ∈ ns, n.meets r c ofTerms := by
  induction ns with
  | nil => simp [meetsAll]
  | cons n ns ih => rw [meetsAll, Bool.and_eq_true, ih, List.forall_mem_cons]

theorem Rule.line_of_meetsLine (meets : r.meetsLine c ns) : r.line (sketchOf c ns) := by
  cases ns with
  | nil => exact meets
  | cons n ns => exact (Bool.and_eq_true_iff.mp meets).1

/-- What stands directly in a list gives only blocks, or a list may have anything in it. -/
theorem Rule.blocks_of_list {e : Element} {ofTerms : Bool}
    (meets : r.meetsContent c e (.list ofTerms)) :
    ∀ n ∈ if ofTerms then unwrapDivs e.children else e.children,
      r.strays ∨ ∀ m ∈ n.sketch c, m = .block := by
  intro n member
  rcases Bool.or_eq_true_iff.mp meets with strays | blocks
  · exact .inl strays
  · refine .inr fun m inside => ?_
    exact eq_of_beq (List.all_eq_true.mp blocks m (mem_sketchOf.mpr ⟨n, member, inside⟩))

theorem inside_of_apart {e : Element}
    (apart : Text.lower e.tag ≠ "q" ∧ Text.lower e.tag ≠ "table") : c.inside e = c := by
  simp [Around.inside, apart]

section Paragraph

variable (properties : Html.Properties) (children others : List Html.Node)
  (position : Option Position)

theorem role_paragraph (inTable : Bool) :
    (Element.mk "p" properties children position).role ofTerms inTable =
      if (Element.mk "p" properties [] none).isIgnored then .atom else .line := by
  have role : roleOf (Text.lower "p") = .line := by decide
  have notTable : Text.lower "p" ≠ "table" := by decide
  have same : (Element.mk "p" properties children position).isIgnored =
      (Element.mk "p" properties [] none).isIgnored := rfl
  simp [Element.role, same, role, notTable]

theorem sketch_paragraph :
    (Html.Node.element "p" properties children position).sketch c =
      (Html.Node.element "p" properties others position).sketch c := by
  simp only [Html.Node.sketch, Element.sketch, role_paragraph]
  by_cases ignored : (Element.mk "p" properties [] none).isIgnored
  · have nothing : ∀ inner, (Element.mk "p" properties inner position).atomSketch c = [] := by
      intro inner
      have same : (Element.mk "p" properties inner position).isIgnored := ignored
      simp [Element.atomSketch, same]
    rw [if_pos ignored]
    exact (nothing children).trans (nothing others).symm
  · rw [if_neg ignored]

theorem meets_paragraph
    (meets : (Html.Node.element "p" properties children position).meets r c ofTerms)
    (below : meetsAll r c false children → meetsAll r c false others)
    (line : r.meetsLine c children → r.meetsLine c others) :
    (Html.Node.element "p" properties others position).meets r c ofTerms := by
  have listed : ["p", "summary"].contains (Text.lower "p") := by decide
  have apart : Text.lower "p" ≠ "q" ∧ Text.lower "p" ≠ "table" := by decide
  have around : ∀ inner, c.inside (Element.mk "p" properties inner position) = c :=
    fun _ => inside_of_apart apart
  simp only [Html.Node.meets, role_paragraph, around] at meets ⊢
  split
  · rfl
  next shown =>
    rw [if_neg shown] at meets
    simp only [Role.isAtomic, Bool.false_or, Bool.and_eq_true, Rule.meetsContent, listed,
      if_true, Role.isListOfTerms] at meets ⊢
    exact ⟨line meets.1, below meets.2⟩

end Paragraph

theorem meetsAll_leadingToggle {content : List Html.Node} {toggle : Element}
    (found : leadingToggle ns = some (toggle, content)) :
    (meetsAll r c ofTerms ns → meetsAll r c ofTerms content) ∧
      (r.meetsLine c ns → r.meetsLine c content) := by
  fun_induction leadingToggle ns generalizing toggle content ofTerms c with
  | case1 tag properties children position rest head =>
      rename_i isToggle
      rcases Prod.mk.inj (Option.some.inj found) with ⟨rfl, rfl⟩
      refine ⟨fun meets => (Bool.and_eq_true_iff.mp meets).2, fun meets => ?_⟩
      have either := Bool.or_eq_true_iff.mp (Bool.and_eq_true_iff.mp meets).2
      simpa [Html.Node.asElement?, head, isToggle] using either
  | case2 tag properties children position rest head notToggle paragraph =>
      rename_i ih
      rcases Option.map_eq_some_iff.mp found with ⟨⟨inner, shorter⟩, foundInside, same⟩
      rcases Prod.mk.inj same with ⟨rfl, rfl⟩
      obtain rfl : tag = "p" := eq_of_beq paragraph
      -- The paragraph stays, with less in it; for what is around it, it is a block as before.
      constructor
      · obtain ⟨below, line⟩ : (meetsAll r c false children → meetsAll r c false shorter) ∧
            (r.meetsLine c children → r.meetsLine c shorter) := ih foundInside
        intro meets
        rw [meetsAll, Bool.and_eq_true] at meets ⊢
        exact ⟨meets_paragraph properties children shorter position meets.1 below line, meets.2⟩
      · intro meets
        rw [Rule.meetsLine, sketchOf, sketch_paragraph properties shorter children, ← sketchOf]
        exact meets
  | case3 => cases found
  | case4 => cases found

theorem meetsAll_taskOf {e : Element} (meets : meetsAll r c ofTerms e.children) :
    meetsAll r c ofTerms (taskOf e).2 := by
  unfold taskOf
  split
  next found => exact (meetsAll_leadingToggle found).1 meets
  next => exact meets

theorem meets_unwrapDivs (meets : meetsAll r c true ns) :
    ∀ n ∈ unwrapDivs ns, n.meets r c false := by
  intro n member
  rcases List.mem_flatMap.mp member with ⟨m, inside, here⟩
  have whole := meetsAll_iff.mp meets m inside
  split at here
  next isDiv =>
    cases m with
    | element tag properties children position =>
        obtain rfl : tag = "div" := eq_of_beq isDiv
        have role : (Element.mk "div" properties children position).role true c.inTable =
            .through := rfl
        have apart : Text.lower "div" ≠ "q" ∧ Text.lower "div" ≠ "table" := by decide
        have around : c.inside (Element.mk "div" properties children position) = c :=
          inside_of_apart apart
        rw [Html.Node.meets, role, around] at whole
        exact meetsAll_iff.mp whole n here
    | _ => cases isDiv
  next apart =>
    rw [List.mem_singleton.mp here]
    cases m with
    | element tag properties children position =>
        have role : (Element.mk tag properties children position).role true c.inTable =
            (Element.mk tag properties children position).role false c.inTable := if_neg apart
        rwa [Html.Node.meets, role] at whole
    | _ => exact whole

theorem meets_content {e : Element} (meets : e.toNode.meets r c false) {role : Role}
    (known : e.role false c.inTable = role) (converted : role.isAtomic = false) :
    r.meetsContent c e role ∧
      ∀ n ∈ e.children, n.meets r (c.inside e) role.isListOfTerms := by
  subst known
  have both := (Bool.or_eq_true_iff.mp meets).resolve_left (Bool.eq_false_iff.mp converted)
  obtain ⟨here, below⟩ := Bool.and_eq_true_iff.mp both
  exact ⟨here, meetsAll_iff.mp below⟩

/-- All is the same around the content, but in quotations and tables. -/
theorem meets_content_of_apart {e : Element} (meets : e.toNode.meets r c false) {role : Role}
    (known : e.role false c.inTable = role) (converted : role.isAtomic = false)
    (apart : Text.lower e.tag ≠ "q" ∧ Text.lower e.tag ≠ "table") :
    r.meetsContent c e role ∧ ∀ n ∈ e.children, n.meets r c role.isListOfTerms := by
  have content := meets_content meets known converted
  rwa [inside_of_apart apart] at content

end Meets

end HtmlToMarkdown
