import HtmlToMarkdown.Converter
import HtmlToMarkdown.Proofs.Spelling

namespace HtmlToMarkdown

open Handlers (standard)
open Html (Element Indistinct IsPassword NoneHidden Properties PropertyValue canonicalName
  secretNames)

/-- An entry that has the same value, or else another password of the same length. -/
def Html.SameButSecret (password : Prop) (x y : String × PropertyValue) : Prop :=
  y.1 = x.1 ∧ (y.2 = x.2 ∨ password ∧ canonicalName x.1 ∈ secretNames ∧
    ∃ a b, x.2 = .text a ∧ y.2 = .text b ∧ a.length = b.length)

def Html.SameButPassword (tag : String) (p q : Properties) : Prop :=
  List.Forall₂ (SameButSecret (IsPassword tag p)) p.entries q.entries

section Lookup

variable {password : Prop} {entries others : List (String × PropertyValue)}

theorem find?_sameButSecret (same : List.Forall₂ (Html.SameButSecret password) entries others)
    (key : String → Bool) :
    Option.Rel (Html.SameButSecret password) (entries.find? fun x => key x.1)
      (others.find? fun y => key y.1) := by
  induction same with
  | nil => exact .none
  | cons here _ ih =>
      rw [List.find?_cons, List.find?_cons, here.1]
      split
      · exact .some here
      · exact ih

theorem lookupEntry_sameButSecret {p q : Properties}
    (same : List.Forall₂ (Html.SameButSecret password) p.entries q.entries) (name : String) :
    Option.Rel (Html.SameButSecret password) (p.lookupEntry name) (q.lookupEntry name) := by
  have identical := find?_sameButSecret same (· == name)
  have spelled := find?_sameButSecret same (canonicalName · == canonicalName name)
  rw [Properties.lookupEntry, Properties.lookupEntry]
  generalize p.entries.find? (·.1 == name) = here at identical ⊢
  generalize q.entries.find? (·.1 == name) = there at identical ⊢
  cases identical with
  | none => exact spelled
  | some entry => exact .some entry

end Lookup

theorem Html.SameButPassword.indistinct {tag : String} {p q : Properties}
    (same : SameButPassword tag p q) : Indistinct tag p q := by
  have related : ∀ name, (p.lookup name = none ∧ q.lookup name = none) ∨
      ∃ x y, SameButSecret (IsPassword tag p) x y ∧ p.lookupEntry name = some x ∧
        p.lookup name = some x.2 ∧ q.lookup name = some y.2 := by
    intro name
    have entries := lookupEntry_sameButSecret same name
    rw [lookup_eq, lookup_eq]
    generalize p.lookupEntry name = here at entries ⊢
    generalize q.lookupEntry name = there at entries ⊢
    cases entries with
    | none => exact .inl ⟨rfl, rfl⟩
    | some entry => exact .inr ⟨_, _, entry, rfl, rfl, rfl⟩
  constructor
  · intro name shown
    rcases related name with ⟨here, there⟩ | ⟨x, y, entry, found, here, there⟩
    · rw [here, there]
    · rcases entry.2 with equal | ⟨-, secret, -⟩
      · rw [here, there, equal]
      · exact absurd (spelling_of_lookupEntry found ▸ secret) shown
  · intro name
    rcases related name with ⟨here, there⟩ | ⟨x, y, entry, -, here, there⟩
    · exact .inl (there.trans here.symm)
    · rcases entry.2 with equal | ⟨password, -, a, b, isText, isOther, length⟩
      · exact .inl (by rw [here, there, equal])
      · rw [isText] at here
        rw [isOther] at there
        exact .inr ⟨password, a, b, here, there, length⟩

/-- Documents that differ in nothing but passwords, and not in their lengths, have one result. -/
theorem convert_sameButPassword [UrlReader] (options : Options) {n m : Html.Node}
    (same : n.Alike Html.SameButPassword NoneHidden {} m) :
    convert options standard n = convert options standard m :=
  convert_alike (same.mono (fun _ _ _ equal => equal.indistinct) fun _ _ _ _ => False.elim) options

def loginPage (password hint : String) : Html.Node :=
  let element (tag : String) (children : List Html.Node) : Html.Node :=
    .element tag OrderedMap.empty children none
  let valued := ⟨[("type", .text "password"), ("value", .text password)], by simp⟩
  let hinted := ⟨[("placeholder", .text hint), ("type", .text "Password")], by simp⟩
  .root [element "form" [
    element "p" [.text "Old" none, .element "input" valued [] none],
    element "table" [element "tr" [element "td" [.element "input" hinted [] none]]]]] none

theorem convert_loginPage :
    (loginPage "secret" "four").Alike Html.SameButPassword NoneHidden {}
        (loginPage "qwerty" "five") ∧
      convert {} standard (loginPage "secret" "four") =
        convert {} standard (loginPage "qwerty" "five") := by
  have plain : ∀ tag, Html.SameButPassword tag OrderedMap.empty OrderedMap.empty := fun _ => .nil
  have kept : ∀ {password : Prop} name value,
      Html.SameButSecret password (name, .text value) (name, .text value) :=
    fun _ _ => ⟨rfl, .inl rfl⟩
  have changed : ∀ {password : Prop} name a b, password → canonicalName name ∈ secretNames →
      a.length = b.length → Html.SameButSecret password (name, .text a) (name, .text b) :=
    fun _ _ _ holds secret length => ⟨rfl, .inr ⟨holds, secret, _, _, rfl, rfl, length⟩⟩
  have same : (loginPage "secret" "four").Alike Html.SameButPassword NoneHidden {}
      (loginPage "qwerty" "five") := by
    refine .root (.cons (.element (plain _) (.cons (.element (plain _) ?paragraph)
      (.cons (.element (plain _) ?table) .nil))) .nil)
    case paragraph =>
      refine .cons .text (.cons (.element (.cons (kept _ _) (.cons ?_ .nil)) .nil) .nil)
      exact changed "value" _ _ ⟨by decide, by decide⟩ (by decide) (by decide)
    case table =>
      refine .cons (.element (plain _) (.cons (.element (plain _)
        (.cons (.element (.cons ?_ (.cons (kept _ _) .nil)) .nil) .nil)) .nil)) .nil
      exact changed "placeholder" _ _ ⟨by decide, by decide⟩ (by decide) (by decide)
  exact ⟨same, convert_sameButPassword {} same⟩

end HtmlToMarkdown
