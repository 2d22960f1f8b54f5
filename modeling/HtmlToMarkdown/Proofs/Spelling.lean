import HtmlToMarkdown.Converter
import HtmlToMarkdown.Html.Path
import HtmlToMarkdown.Proofs.Ignored
import HtmlToMarkdown.Proofs.Walk.Actions

namespace HtmlToMarkdown

open Handlers (standard)
open Html (AlikeAll Element Indistinct NoneHidden Path Properties PropertyValue ThroughoutAll
  canonicalName)
open Html.Node (Tagged)

section Lookup

def Html.Properties.lookupEntry (p : Properties) (name : String) :
    Option (String × PropertyValue) :=
  (p.entries.find? (·.1 == name)).or
    (p.entries.find? fun x => canonicalName x.1 == canonicalName name)

theorem lookup_eq (p : Properties) (name : String) :
    p.lookup name = (p.lookupEntry name).map (·.2) := by
  rw [Properties.lookup, OrderedMap.find?, Properties.lookupEntry]
  cases p.entries.find? (·.1 == name) <;> rfl

theorem spelling_of_lookupEntry {p : Properties} {name : String} {x : String × PropertyValue}
    (found : p.lookupEntry name = some x) : canonicalName x.1 = canonicalName name := by
  rcases Option.or_eq_some_iff.mp found with identical | ⟨-, spelled⟩
  · have key : x.1 = name := eq_of_beq (List.find?_some identical :)
    rw [key]
  · exact eq_of_beq (List.find?_some spelled :)

theorem mem_of_lookupEntry {p : Properties} {name : String} {x : String × PropertyValue}
    (found : p.lookupEntry name = some x) : x ∈ p.entries := by
  rcases Option.or_eq_some_iff.mp found with identical | ⟨-, spelled⟩
  · exact List.mem_of_find?_eq_some identical
  · exact List.mem_of_find?_eq_some spelled

theorem lookupEntry_isSome {p : Properties} {name : String} {x : String × PropertyValue}
    (member : x ∈ p.entries) (spelled : canonicalName x.1 = canonicalName name) :
    (p.lookupEntry name).isSome := by
  have found : (p.entries.find? fun x => canonicalName x.1 == canonicalName name).isSome :=
    List.find?_isSome.mpr ⟨x, member, by simp [spelled]⟩
  rw [Properties.lookupEntry, Option.isSome_or, found, Bool.or_true]

end Lookup

def Html.unspelled (x : String × PropertyValue) : String × PropertyValue := (canonicalName x.1, x.2)

/-- No two properties are spellings of one name. -/
def Html.Properties.Unambiguous (p : Properties) : Prop :=
  (p.entries.map fun x => canonicalName x.1).Nodup

/-- The same properties, with other spellings of their names, in any order. -/
def Html.Respelled (p q : Properties) : Prop :=
  (p.entries.map Html.unspelled).Perm (q.entries.map Html.unspelled)

section Respelled

variable {p q : Properties}

theorem Html.Properties.Unambiguous.lookup_eq_some_iff (single : p.Unambiguous) {name : String}
    {value : PropertyValue} : p.lookup name = some value ↔
      (canonicalName name, value) ∈ p.entries.map Html.unspelled := by
  rw [lookup_eq, Option.map_eq_some_iff, List.mem_map]
  constructor
  · rintro ⟨x, found, rfl⟩
    exact ⟨x, mem_of_lookupEntry found, by rw [Html.unspelled, spelling_of_lookupEntry found]⟩
  · rintro ⟨x, member, same⟩
    rcases Prod.mk.inj same with ⟨spelled, rfl⟩
    rcases Option.isSome_iff_exists.mp (lookupEntry_isSome member spelled) with ⟨y, found⟩
    have shared : canonicalName y.1 = canonicalName x.1 :=
      (spelling_of_lookupEntry found).trans spelled.symm
    have only : y = x := List.inj_on_of_nodup_map single (mem_of_lookupEntry found) member shared
    exact ⟨y, found, by rw [only]⟩

theorem Html.Properties.Unambiguous.respelled (single : p.Unambiguous)
    (respelled : Html.Respelled p q) : q.Unambiguous := by
  have names := respelled.map (·.1)
  rw [List.map_map, List.map_map] at names
  exact names.nodup_iff.mp single

/-- Other spellings are not told apart under any name. -/
theorem lookup_respelled (single : p.Unambiguous) (respelled : Html.Respelled p q)
    (name : String) : q.lookup name = p.lookup name := by
  apply Option.ext
  intro value
  rw [single.lookup_eq_some_iff, (single.respelled respelled).lookup_eq_some_iff,
    respelled.mem_iff]

end Respelled

section Trees

variable {good : Properties → Prop} {same equal : String → Properties → Properties → Prop}

mutual

/-- A relation between properties may be replaced by another one that follows from it for those
properties that the first tree has. -/
theorem Html.Node.Alike.strengthen (stronger : ∀ tag p q, good p → same tag p q → equal tag p q)
    {cx : Html.Sight} {n m : Html.Node} (holds : n.Throughout (Tagged fun _ => good))
    (alike : n.Alike same NoneHidden cx m) : n.Alike equal NoneHidden cx m := by
  match alike with
  | .root inside => exact .root (inside.strengthen stronger holds.2)
  | .element here inside =>
      exact .element (stronger _ _ _ holds.1 here) (inside.strengthen stronger holds.2)
  | .hidden _ _ unseen => exact unseen.elim
  | .text => exact .text
  | .comment => exact .comment
  | .doctype => exact .doctype

theorem Html.AlikeAll.strengthen (stronger : ∀ tag p q, good p → same tag p q → equal tag p q)
    {cx : Html.Sight} {ns ms : List Html.Node}
    (holds : ThroughoutAll (Tagged fun _ => good) ns)
    (alike : AlikeAll same NoneHidden cx ns ms) : AlikeAll equal NoneHidden cx ns ms := by
  match alike with
  | .nil => exact .nil
  | .cons here rest =>
      exact .cons (here.strengthen stronger holds.1) (rest.strengthen stronger holds.2)

end

theorem Html.AlikeAll.getElem? {cx : Html.Sight} {ns ms : List Html.Node}
    (alike : AlikeAll same NoneHidden cx ns ms) (i : Nat) :
    Option.Rel (fun n m => ∃ cx, n.Alike same NoneHidden cx m) ns[i]? ms[i]? := by
  induction i generalizing cx ns ms with
  | zero =>
      cases alike with
      | nil => exact .none
      | cons here rest => exact .some ⟨cx, here⟩
  | succ i ih =>
      cases alike with
      | nil => exact .none
      | cons here rest => exact ih rest

theorem Html.Node.Alike.children {cx : Html.Sight} {n m : Html.Node}
    (alike : n.Alike same NoneHidden cx m) :
    ∃ below, AlikeAll same NoneHidden below n.children m.children := by
  cases alike with
  | root inside => exact ⟨_, inside⟩
  | element here inside => exact ⟨_, inside⟩
  | hidden _ _ unseen => exact unseen.elim
  | text => exact ⟨cx, .nil⟩
  | comment => exact ⟨cx, .nil⟩
  | doctype => exact ⟨cx, .nil⟩

theorem Html.Node.Alike.at? {cx : Html.Sight} {n m : Html.Node}
    (alike : n.Alike same NoneHidden cx m) (path : Path) :
    Option.Rel (fun n m => ∃ cx, n.Alike same NoneHidden cx m) (n.at? path) (m.at? path) := by
  induction path generalizing cx n m with
  | nil => exact .some ⟨cx, alike⟩
  | cons i path ih =>
      rcases alike.children with ⟨below, children⟩
      have child := children.getElem? i
      rw [Html.Node.at?, Html.Node.at?]
      generalize n.children[i]? = here at child ⊢
      generalize m.children[i]? = there at child ⊢
      cases child with
      | none => exact .none
      | some alike => exact ih alike.choose_spec

end Trees

/-- Two elements of which every property is the same, whatever name it is looked up by. -/
def Html.Element.SameProperties (e f : Element) : Prop :=
  ∀ name, f.property? name = e.property? name

theorem Html.Node.Alike.sameProperties {cx : Html.Sight} {n m : Html.Node}
    (alike : n.Alike (fun _ p q => ∀ name, q.lookup name = p.lookup name) NoneHidden cx m) :
    Option.Rel Element.SameProperties n.asElement? m.asElement? := by
  cases alike with
  | element here inside => exact .some here
  | hidden _ _ unseen => exact unseen.elim
  | root _ | text | comment | doctype => exact .none

/-- Where no element has two spellings of one name, other spellings make no difference: neither to
what is found under any name, nor to the result. -/
theorem convert_respelled [UrlReader] {n m : Html.Node}
    (single : n.Throughout (Tagged fun _ p => p.Unambiguous))
    (respelled : n.Alike (fun _ => Html.Respelled) NoneHidden {} m) :
    (∀ path, Option.Rel Element.SameProperties ((n.at? path).bind Html.Node.asElement?)
        ((m.at? path).bind Html.Node.asElement?)) ∧
      ∀ options, convert options standard n = convert options standard m := by
  have alike := respelled.strengthen (fun _ _ _ => lookup_respelled) single
  constructor
  · intro path
    have here := alike.at? path
    generalize n.at? path = first at here ⊢
    generalize m.at? path = second at here ⊢
    cases here with
    | none => exact .none
    | some alike => exact alike.choose_spec.sameProperties
  · intro options
    refine convert_alike (alike.mono ?_ fun _ _ _ _ => False.elim) options
    intro tag p q found
    exact ⟨fun name _ => found name, fun name => .inl (found name)⟩

def spelledPage (cell code block : Properties) : Html.Node :=
  let element (tag : String) (properties : Properties) (children : List Html.Node) : Html.Node :=
    .element tag properties children none
  .root [
    element "table" OrderedMap.empty [
      element "tr" OrderedMap.empty [element "td" cell [.text "a" none]]],
    element "pre" OrderedMap.empty [element "code" code [.text "b" none]],
    element "p" block [.text "c" none]] none

def attributePage : Html.Node :=
  spelledPage ⟨[("colspan", .text "2"), ("align", .text "left")], by decide⟩
    ⟨[("class", .list ["language-c"])], by decide⟩ ⟨[("data-mdast", .text "ignore")], by decide⟩

def propertyPage : Html.Node :=
  spelledPage ⟨[("ALIGN", .text "left"), ("colSpan", .text "2")], by decide⟩
    ⟨[("className", .list ["language-c"])], by decide⟩ ignoreMark

theorem convert_respelled_propertyPage :
    attributePage.Throughout (Tagged fun _ p => p.Unambiguous) ∧
      attributePage.Alike (fun _ => Html.Respelled) NoneHidden {} propertyPage ∧
      (∀ path, Option.Rel Element.SameProperties
        ((attributePage.at? path).bind Html.Node.asElement?)
        ((propertyPage.at? path).bind Html.Node.asElement?)) ∧
      convert {} standard attributePage = convert {} standard propertyPage := by
  have single : attributePage.Throughout (Tagged fun _ p => p.Unambiguous) := by
    refine ⟨trivial, ⟨.nil, ⟨.nil, ⟨?cell, trivial, trivial⟩, trivial⟩, trivial⟩,
      ⟨.nil, ⟨?code, trivial, trivial⟩, trivial⟩, ⟨?block, trivial, trivial⟩, trivial⟩
    case cell =>
      show List.Nodup [canonicalName "colspan", canonicalName "align"]
      decide +kernel
    case code => exact List.nodup_singleton _
    case block => exact List.nodup_singleton _
  have respelled : attributePage.Alike (fun _ => Html.Respelled) NoneHidden {} propertyPage := by
    have plain : Html.Respelled OrderedMap.empty OrderedMap.empty := .refl _
    have spelled : ∀ {a b : String} (value : PropertyValue), canonicalName a = canonicalName b →
        Html.unspelled (a, value) = Html.unspelled (b, value) :=
      fun value same => congrArg (·, value) same
    refine .root (.cons (.element plain (.cons (.element plain (.cons (.element ?cell
      (.cons .text .nil)) .nil)) .nil)) (.cons (.element plain (.cons (.element ?code
      (.cons .text .nil)) .nil)) (.cons (.element ?block (.cons .text .nil)) .nil)))
    case cell =>
      have first : Html.unspelled ("colspan", .text "2") = Html.unspelled ("colSpan", .text "2") :=
        spelled _ (by decide +kernel)
      have second :
          Html.unspelled ("align", .text "left") = Html.unspelled ("ALIGN", .text "left") :=
        spelled _ (by decide +kernel)
      show List.Perm [Html.unspelled ("colspan", .text "2"), Html.unspelled ("align", .text "left")]
        [Html.unspelled ("ALIGN", .text "left"), Html.unspelled ("colSpan", .text "2")]
      rw [first, second]
      exact .swap _ _ _
    case code => exact .of_eq (congrArg ([·]) (spelled _ (by decide +kernel)))
    case block => exact .of_eq (congrArg ([·]) (spelled _ (by decide +kernel)))
  have same := convert_respelled single respelled
  exact ⟨single, respelled, same.1, same.2 {}⟩

end HtmlToMarkdown
