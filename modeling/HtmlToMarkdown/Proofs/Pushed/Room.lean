import HtmlToMarkdown.Conversion.Lists
import HtmlToMarkdown.Markdown.Node
import HtmlToMarkdown.Proofs.Walk.Handlers
import HtmlToMarkdown.Proofs.Whitespace.Thinning

/-!
Where a document may put blocks so that links and deletions can be pushed down into them. A link
is split only by what wraps the content that it stands in, and it moves only into blocks that hold
flow content. So there is no room for blocks in a link that stands in a paragraph or in marked
text, nor in a paragraph or in marked text that stands in a link.
-/

namespace HtmlToMarkdown

open Html (Element)
open Markdown (Kind)

inductive Role
  /-- It gives way to its content. -/
  | through
  /-- It becomes a link or a deletion. -/
  | cover
  | mark
  /-- It becomes a paragraph or a heading. -/
  | line
  | cell
  | row
  | table
  /-- Its content is wrapped. -/
  | flow
  | list (ofTerms : Bool)
  /-- It becomes phrasing content or nothing, and the elements in it are not converted. -/
  | atom
  /-- The same, but it becomes a block. -/
  | solid
  deriving DecidableEq, Repr

namespace Role

def isAtomic : Role → Bool
  | atom => true
  | solid => true
  | _ => false

def isTable : Role → Bool
  | table => true
  | _ => false

def isListOfTerms : Role → Bool
  | list ofTerms => ofTerms
  | _ => false

end Role

def roles : List (Role × List String) := [
  (.cover, ["a", "del", "s", "strike"]), (.mark, ["b", "em", "i", "mark", "strong", "u"]),
  (.line, ["h1", "h2", "h3", "h4", "h5", "h6", "p", "summary"]), (.cell, ["td", "th"]),
  (.row, ["tr"]), (.table, ["table"]),
  (.flow, ["blockquote", "dd", "dt", "li"] ++ Handlers.flowTags),
  (.list false, ["dir", "ol", "ul"]), (.list true, ["dl"]),
  (.atom, ["base", "br", "code", "iframe", "image", "img", "input", "kbd", "samp", "select",
    "textarea", "tt", "var", "wbr"] ++ Handlers.ignoredTags),
  (.solid, ["hr", "listing", "plaintext", "pre", "xmp"])]

def roleOf (tag : String) : Role :=
  ((roles.find? (·.2.contains tag)).map (·.1)).getD .through

/-- The role of an element. Right below a list of terms a `div` gives way to its content, and
inside of a table another one is only text. -/
def Html.Element.role (ofTerms inTable : Bool) (e : Element) : Role :=
  if ofTerms && e.tag == "div" then .through
  else if e.isIgnored || (inTable && Text.lower e.tag == "table") then .atom
  else roleOf (Text.lower e.tag)

inductive Place
  /-- What is here gets wrapped; `covered` tells whether there is a link around it. -/
  | open (covered : Bool)
  /-- What is here stays as it is. -/
  | closed (covered : Bool)
  /-- The same inside of a link that has room only for blocks of these kinds. -/
  | only (kinds : List Kind)
  deriving DecidableEq, Repr

namespace Place

def isCovered : Place → Bool
  | .open covered => covered
  | closed covered => covered
  | only _ => true

def allows (p : Place) (kind : Kind) : Bool :=
  match p with
  | only kinds => kinds.contains kind
  | _ => true

def isFree : Place → Bool
  | only _ => false
  | _ => true

/-- Inside of something that is not wrapped; a link around leaves room for few blocks. -/
def confine (p : Place) (kinds : List Kind) : Place :=
  if p.isCovered then only kinds else closed false

def admits (p : Place) : Role → Bool
  | .through => true
  | .cover => true
  | .mark => true
  | .atom => true
  | .cell => p.allows .tableCell
  | .row => p.allows .tableRow
  | _ => p.isFree

def inside (p : Place) : Role → Place
  | .cover =>
    match p with
    | .open _ => .open true
    | _ => only []
  | .mark => p.confine []
  | .line => p.confine []
  | .cell => p.confine []
  | .row => p.confine [.tableCell]
  | .table => p.confine [.tableRow, .tableCell]
  | .flow => .open p.isCovered
  | .list _ => closed p.isCovered
  | _ => p

end Place

mutual

/-- Whether blocks have room wherever there are any. -/
def Html.Node.fits (ofTerms inTable : Bool) (p : Place) : Html.Node → Bool
  | .root children _ => p.admits .flow && fitsAll false inTable (p.inside .flow) children
  | .element tag properties children position =>
    let role := (Element.mk tag properties children position).role ofTerms inTable
    p.admits role && (role.isAtomic ||
      fitsAll role.isListOfTerms (role.isTable || inTable) (p.inside role) children)
  | _ => true

def fitsAll (ofTerms inTable : Bool) (p : Place) : List Html.Node → Bool
  | [] => true
  | n :: ns => n.fits ofTerms inTable p && fitsAll ofTerms inTable p ns

end

/-- Whether all blocks of a document have room. -/
def Html.Node.hasRoom (n : Html.Node) : Bool := n.fits false false (.open false)

section Fits

variable {ofTerms inTable : Bool} {p : Place}

theorem fitsAll_iff {ns : List Html.Node} :
    fitsAll ofTerms inTable p ns ↔ ∀ n ∈ ns, n.fits ofTerms inTable p := by
  induction ns with
  | nil => simp [fitsAll]
  | cons n ns ih => rw [fitsAll, Bool.and_eq_true, ih, List.forall_mem_cons]

theorem fits_refill {tag : String} {properties : Html.Properties} {children others : List Html.Node}
    {position : Option Position}
    (fits : (Html.Node.element tag properties children position).fits ofTerms inTable p)
    (inside : ∀ ofTerms inTable p, fitsAll ofTerms inTable p children →
      fitsAll ofTerms inTable p others) :
    (Html.Node.element tag properties others position).fits ofTerms inTable p := by
  rw [Html.Node.fits, Bool.and_eq_true, Bool.or_eq_true] at fits ⊢
  exact ⟨fits.1, fits.2.imp_right (inside _ _ _)⟩

end Fits

namespace Html

mutual

theorem Thinned.fits {n m : Html.Node} (thinned : Thinned n m) {ofTerms inTable : Bool} {p : Place}
    (fits : n.fits ofTerms inTable p) : m.fits ofTerms inTable p := by
  match thinned with
  | .root inside =>
      rw [Html.Node.fits, Bool.and_eq_true] at fits ⊢
      exact ⟨fits.1, inside.fitsAll fits.2⟩
  | .element inside => exact fits_refill fits fun _ _ _ => inside.fitsAll
  | .text _ => rfl
  | .comment => rfl
  | .doctype => rfl

theorem ThinnedAll.fitsAll {ns ms : List Html.Node} (thinned : ThinnedAll ns ms)
    {ofTerms inTable : Bool} {p : Place} (fits : fitsAll ofTerms inTable p ns) :
    HtmlToMarkdown.fitsAll ofTerms inTable p ms := by
  match thinned with
  | .nil => rfl
  | .kept here rest =>
      rw [HtmlToMarkdown.fitsAll, Bool.and_eq_true] at fits ⊢
      exact ⟨here.fits fits.1, rest.fitsAll fits.2⟩
  | .removed _ rest =>
      rw [HtmlToMarkdown.fitsAll, Bool.and_eq_true] at fits
      exact rest.fitsAll fits.2

end

end Html

namespace Handler

variable {ofTerms inTable : Bool} {p : Place}

theorem fitsAll_leadingToggle {ns content : List Html.Node} {toggle : Element}
    (found : leadingToggle ns = some (toggle, content)) (fits : fitsAll ofTerms inTable p ns) :
    fitsAll ofTerms inTable p content := by
  fun_induction leadingToggle ns generalizing toggle content ofTerms inTable p with
  | case1 tag properties children position rest head =>
      rcases Prod.mk.inj (Option.some.inj found) with ⟨rfl, rfl⟩
      rw [fitsAll, Bool.and_eq_true] at fits
      exact fits.2
  | case2 tag properties children position rest head notToggle paragraph =>
      rename_i ih
      rcases Option.map_eq_some_iff.mp found with ⟨⟨inner, shorter⟩, foundInside, same⟩
      rcases Prod.mk.inj same with ⟨rfl, rfl⟩
      rw [fitsAll, Bool.and_eq_true] at fits ⊢
      exact ⟨fits_refill fits.1 fun _ _ _ => ih foundInside, fits.2⟩
  | case3 => cases found
  | case4 => cases found

theorem fitsAll_taskOf {e : Element} (fits : fitsAll ofTerms inTable p e.children) :
    fitsAll ofTerms inTable p (taskOf e).2 := by
  unfold taskOf
  split
  next found => exact fitsAll_leadingToggle found fits
  next => exact fits

theorem fits_unwrapDivs {ns : List Html.Node} (fits : fitsAll true inTable p ns) :
    ∀ n ∈ unwrapDivs ns, n.fits false inTable p := by
  intro n member
  rcases List.mem_flatMap.mp member with ⟨m, inside, here⟩
  have whole := fitsAll_iff.mp fits m inside
  split at here
  next isDiv =>
    cases m with
    | element tag properties children position =>
        have role : (Element.mk tag properties children position).role true inTable = .through :=
          if_pos isDiv
        have below : fitsAll false inTable p children := by
          simpa [Html.Node.fits, role, Place.admits, Place.inside, Role.isAtomic, Role.isTable,
            Role.isListOfTerms] using whole
        exact fitsAll_iff.mp below n here
    | _ => cases isDiv
  next apart =>
    rw [List.mem_singleton.mp here]
    cases m with
    | element tag properties children position =>
        have role : (Element.mk tag properties children position).role true inTable =
            (Element.mk tag properties children position).role false inTable := if_neg apart
        rwa [Html.Node.fits, role] at whole
    | _ => exact whole

end Handler

section Roles

open Handlers (standard standardTags)

theorem roleOf_of_mem : ∀ entry ∈ roles, ∀ tag ∈ entry.2, roleOf tag = entry.1 := by
  decide +kernel

theorem registered_of_roles : ∀ entry ∈ roles, ∀ tag ∈ entry.2,
    tag ∈ standardTags.map (·.1) := by
  decide +kernel

theorem roleOf_ignored : ∀ tag ∈ Handlers.ignoredTags, roleOf tag = .atom := by
  decide +kernel

theorem roleOf_passThrough : ∀ tag ∈ Handlers.passThroughTags, roleOf tag = .through := by
  decide +kernel

theorem roleOf_flow : ∀ tag ∈ Handlers.flowTags, roleOf tag = .flow := by
  decide +kernel

theorem roleOf_unknown {e : Element} (unknown : standard.find? e.tag = none) :
    roleOf (Text.lower e.tag) = .through := by
  rw [roleOf]
  cases found : roles.find? (·.2.contains (Text.lower e.tag)) with
  | none => rfl
  | some entry =>
      have listed : Text.lower e.tag ∈ entry.2 := by simpa using List.find?_some found
      have member := registered_of_roles entry (List.mem_of_find?_eq_some found) _ listed
      rcases List.mem_map.mp member with ⟨⟨key, handler⟩, registered, same⟩
      have lower := Handlers.find?_tags_standard.mpr registered
      rw [Handlers.find?, Option.or_eq_none_iff, ← same, lower] at unknown
      exact absurd unknown.2 (Option.some_ne_none handler)

theorem fits_children {e : Element} {inTable : Bool} {p : Place}
    (fits : e.toNode.fits false inTable p) {role : Role} (known : e.role false inTable = role)
    (converted : role.isAtomic = false) :
    ∀ n ∈ e.children,
      n.fits role.isListOfTerms (role.isTable || inTable) (p.inside role) := by
  subst known
  have either := Bool.or_eq_true_iff.mp (Bool.and_eq_true_iff.mp fits).2
  exact fitsAll_iff.mp (either.resolve_left (Bool.eq_false_iff.mp converted))

theorem admits_of_fits {e : Element} {inTable : Bool} {p : Place}
    (fits : e.toNode.fits false inTable p) {role : Role} (known : e.role false inTable = role) :
    p.admits role :=
  known ▸ (Bool.and_eq_true_iff.mp fits).1

theorem role_of_shown {e : Element} (shown : ¬ e.isIgnored) {role : Role} (apart : role ≠ .table)
    (known : roleOf (Text.lower e.tag) = role) (inTable : Bool) :
    e.role false inTable = role := by
  have notTable : Text.lower e.tag ≠ "table" := by
    intro table
    rw [table] at known
    exact apart (known.symm.trans (roleOf_of_mem (.table, ["table"]) (by decide) _ (by decide)))
  simp [Element.role, shown, notTable, known]

theorem role_of_table {e : Element} (shown : ¬ e.isIgnored) (named : Text.lower e.tag = "table")
    (inTable : Bool) : e.role false inTable = if inTable then .atom else .table := by
  have role : roleOf "table" = .table := by decide
  cases inTable <;> simp [Element.role, shown, named, role]

end Roles

end HtmlToMarkdown
