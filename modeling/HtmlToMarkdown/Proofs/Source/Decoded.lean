import HtmlToMarkdown.Html.Json
import HtmlToMarkdown.Proofs.Json.Numbers
import HtmlToMarkdown.Proofs.Source.Throughout

namespace HtmlToMarkdown

namespace Text

theorem toLower_toLower (c : Char) : c.toLower.toLower = c.toLower := by
  by_cases capital : c.val ≥ 'A'.val ∧ c.val ≤ 'Z'.val
  · have small : ¬ (c.toLower.val ≥ 'A'.val ∧ c.toLower.val ≤ 'Z'.val) := by
      have first : 'A'.val.toNat = 65 := by decide
      have last : 'Z'.val.toNat = 90 := by decide
      have moved : c.toLower.val = c.val + 32 := congrArg Char.val (dif_pos capital)
      have thirtyTwo : (32 : UInt32).toNat = 32 := by decide
      simp only [ge_iff_le, UInt32.le_iff_toNat_le, first, last] at capital
      simp only [moved, ge_iff_le, UInt32.le_iff_toNat_le, UInt32.toNat_add, first, last]
      omega
    exact dif_neg small
  · have same : c.toLower = c := dif_neg capital
    rw [same, same]

theorem asciiLower_asciiLower (s : String) : asciiLower (asciiLower s) = asciiLower s := by
  have twice : Char.toLower ∘ Char.toLower = Char.toLower := funext toLower_toLower
  rw [asciiLower, asciiLower, String.toList_ofList, List.map_map, twice]

end Text

namespace Html

/-- The tag of an element is in lower case as far as it is ASCII. -/
def Node.Lowered : Node → Prop
  | .element tag _ _ _ => Text.asciiLower tag = tag
  | _ => True

namespace Node

structure Fields.Lowered (f : Fields) : Prop where
  tag : ∀ tag ∈ f.tag, Text.asciiLower tag = tag
  children : ∀ children ∈ f.children, ThroughoutAll Node.Lowered children

theorem Fields.Lowered.build {f : Fields} {kind : String} {n : Node} (lowered : f.Lowered)
    (built : f.build kind = .ok n) : n.Throughout Node.Lowered := by
  have children : ThroughoutAll Node.Lowered (f.children.getD []) := by
    cases given : f.children with
    | none => trivial
    | some children => exact lowered.children children given
  unfold Fields.build at built
  split at built
  · cases built
    exact ⟨trivial, children⟩
  · rcases Json.exists_of_bind built with ⟨tag, required, same⟩
    cases same
    refine ⟨lowered.tag tag ?_, children⟩
    cases given : f.tag with
    | none => rw [given] at required; cases required
    | some other => rw [given] at required; cases required; rfl
  · rcases Json.exists_of_bind built with ⟨value, -, same⟩
    cases same
    trivial
  · rcases Json.exists_of_bind built with ⟨value, -, same⟩
    cases same
    trivial
  · cases built
    trivial

theorem Fields.Lowered.add {f g : Fields} {name : String} {v : Json} (lowered : f.Lowered)
    (added : f.add name v = .ok g) : g.Lowered := by
  unfold Fields.add at added
  split at added
  · rcases Json.exists_of_bind added with ⟨tag, read, same⟩
    cases same
    refine ⟨?_, lowered.children⟩
    cases given : f.tag with
    | some other => rw [given] at read; cases read
    | none =>
        rw [given] at read
        cases v with
        | string s =>
            cases read
            rintro tag ⟨⟩
            exact Text.asciiLower_asciiLower s
        | _ => cases read
  · rcases Json.exists_of_bind added with ⟨properties, -, same⟩
    cases same
    exact ⟨lowered.tag, lowered.children⟩
  · rcases Json.exists_of_bind added with ⟨value, -, same⟩
    cases same
    exact ⟨lowered.tag, lowered.children⟩
  · rcases Json.exists_of_bind added with ⟨position, -, same⟩
    cases same
    exact ⟨lowered.tag, lowered.children⟩
  · cases added
    exact lowered

theorem Fields.Lowered.take {f g : Fields} {name : String} {v : Json}
    {children : Json → Json.Decoded (List Node)} (lowered : f.Lowered)
    (below : ∀ ns, children v = .ok ns → ThroughoutAll Node.Lowered ns)
    (taken : f.take name v children = .ok g) : g.Lowered := by
  unfold Fields.take at taken
  split at taken
  · rcases Json.exists_of_bind taken with ⟨held, read, same⟩
    cases same
    refine ⟨lowered.tag, ?_⟩
    cases given : f.children with
    | some other => rw [given] at read; cases read
    | none =>
        rw [given, Json.once] at read
        cases decoded : children v with
        | error e => rw [decoded] at read; cases read
        | ok ns =>
            rw [decoded] at read
            cases read
            rintro given ⟨⟩
            exact below ns decoded
  · exact lowered.add taken

mutual

theorem lowered_ofJson {inside : Bool} {v : Json} {n : Node}
    (decoded : ofJson inside v = .ok n) : n.Throughout Node.Lowered := by
  match v with
  | .object entries =>
      rw [ofJson] at decoded
      rcases Json.exists_of_bind decoded with ⟨kind, -, rest⟩
      rcases Json.exists_of_bind rest with ⟨f, read, built⟩
      exact (lowered_readEntries ⟨by simp, by simp⟩ read).build built
  | .array (v :: items) =>
      rw [ofJson] at decoded
      rcases Json.exists_of_bind decoded with ⟨kind, -, rest⟩
      rcases Json.exists_of_bind rest with ⟨f, read, rest⟩
      rcases Json.exists_of_bind rest with ⟨_, -, built⟩
      exact (lowered_readItems ⟨by simp, by simp⟩ read).build built
  | .array [] | .null | .bool _ | .int _ | .float _ | .string _ => simp [ofJson] at decoded

theorem lowered_readEntries {kind : String} {f g : Fields} {entries : List (String × Json)}
    (lowered : f.Lowered) (read : readEntries kind f entries = .ok g) : g.Lowered := by
  match entries with
  | [] =>
      rw [readEntries] at read
      cases read
      exact lowered
  | (name, v) :: entries =>
      rw [readEntries] at read
      split at read
      · exact lowered_readEntries lowered read
      · rcases Json.exists_of_bind read with ⟨next, taken, rest⟩
        have below := lowered.take (fun ns => lowered_readChildren) taken
        exact lowered_readEntries below rest

theorem lowered_readItems {f g : Fields} {names : List String} {items : List Json}
    (lowered : f.Lowered) (read : readItems f names items = .ok g) : g.Lowered := by
  match names, items with
  | name :: names, v :: items =>
      rw [readItems] at read
      rcases Json.exists_of_bind read with ⟨next, taken, rest⟩
      have below := lowered.take (fun ns => lowered_readChildren) taken
      exact lowered_readItems below rest
  | [], _ | _ :: _, [] =>
      rw [readItems] at read
      · cases read
        exact lowered
      · simp

theorem lowered_readChildren {v : Json} {ns : List Node} (read : readChildren v = .ok ns) :
    ThroughoutAll Node.Lowered ns := by
  match v with
  | .array items =>
      rw [readChildren] at read
      exact lowered_allOfJson read
  | .object _ | .null | .bool _ | .int _ | .float _ | .string _ => simp [readChildren] at read

theorem lowered_allOfJson {vs : List Json} {ns : List Node} (decoded : allOfJson vs = .ok ns) :
    ThroughoutAll Node.Lowered ns := by
  match vs with
  | [] =>
      rw [allOfJson] at decoded
      cases decoded
      trivial
  | v :: vs =>
      rw [allOfJson] at decoded
      rcases Json.exists_of_bind decoded with ⟨n, first, rest⟩
      rcases Json.exists_of_bind rest with ⟨more, later, same⟩
      cases same
      exact ⟨lowered_ofJson first, lowered_allOfJson later⟩

end

theorem lowered_ofText {text : String} {n : Node} (decoded : ofText text = .ok n) :
    n.Throughout Node.Lowered := by
  rw [ofText, Json.ofText] at decoded
  split at decoded
  · exact lowered_ofJson decoded
  · dsimp only at decoded
    split at decoded
    · rcases Json.exists_of_bind decoded with ⟨_, -, failed⟩
      cases failed
    · rcases Json.exists_of_bind decoded with ⟨_, -, failed⟩
      cases failed
    · rcases Json.exists_of_bind decoded with ⟨_, -, failed⟩
      cases failed
    · cases decoded

end Node

end Html

end HtmlToMarkdown
