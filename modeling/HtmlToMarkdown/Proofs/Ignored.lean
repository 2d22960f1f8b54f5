import HtmlToMarkdown.Converter
import HtmlToMarkdown.Proofs.Alike.Conversion

/-!
What is marked to be ignored. The walk leaves it out, but it is not the only one that reads a
document: some elements are converted to their text as a whole, tables and lists are looked over
first, and white space depends on what stands around. Content that none of these gets to see makes
no difference.
-/

namespace HtmlToMarkdown

open Handlers (standard)
open Html (Element Indistinct SelfContained Spaced Unnoticed)
open Html.Node (Tagged)

def ignoreMark : Html.Properties := ⟨[("dataMdast", .text "ignore")], by decide⟩

/-- The content of ignored elements makes no difference where nobody but the walk reads it. -/
theorem convert_ignored [UrlReader] (options : Options) {n m : Html.Node}
    (same : n.Alike (fun _ p q => p = q) Unnoticed {} m) :
    convert options standard n = convert options standard m := by
  have alike : n.Alike Indistinct Unnoticed {} m :=
    same.mono (fun tag p _ equal => equal ▸ .refl tag p) fun _ _ _ _ unseen => unseen
  exact convert_alike alike options

def sponsoredPage (advertisement : List Html.Node) : Html.Node :=
  let block := Html.Node.element "div" ignoreMark advertisement none
  .root [.element "ul" OrderedMap.empty [
    .element "li" OrderedMap.empty [.text "a" none, block] none] none, block] none

def banner : List Html.Node := [.text "Buy " none, .element "img" OrderedMap.empty [] none]

def jumble : List Html.Node :=
  [.element "script" OrderedMap.empty [] none,
    .element "h2" OrderedMap.empty [.text "Sale" none] none]

theorem convert_sponsoredPage :
    (sponsoredPage banner).Alike (fun _ p q => p = q) Unnoticed {} (sponsoredPage jumble) ∧
      convert {} standard (sponsoredPage banner) = convert {} standard (sponsoredPage jumble) := by
  have spaced : Spaced ⟨"div", ignoreMark, banner, none⟩ jumble :=
    Html.spaced_of_block (.inr (.inl (by decide))) jumble
  have hidden : ∀ cx : Html.Sight, ¬ cx.text → ¬ cx.choices → ¬ cx.table → ¬ cx.terms →
      Html.Hidden cx ⟨"div", ignoreMark, banner, none⟩ jumble := by
    intro cx noText noChoices noTable noTerms
    constructor
    · exact ⟨by decide, by decide⟩
    · exact fun read => absurd read noText
    · rintro (read | named)
      · exact absurd read noChoices
      · exact absurd named (by decide)
    · exact fun read => absurd read noTable
    · exact fun _ paragraph => absurd paragraph (by decide)
    · intro _ _ _
      have classes : Html.isPhrasingTag "img" ∧ Html.isPhrasingTag "script" ∧
          ¬ Html.isPhrasingTag "h2" := by decide
      simp [banner, jumble, Handler.spreadsOut, classes]
    · exact fun read => absurd read noTerms
  have same : (sponsoredPage banner).Alike (fun _ p q => p = q) Unnoticed {}
      (sponsoredPage jumble) := by
    refine .root (.cons (.element rfl (.cons (.element rfl (.cons .text
      (.cons (.hidden rfl ?_ ?_) .nil))) .nil)) (.cons (.hidden rfl ?_ ?_) .nil))
    · rfl
    · exact ⟨hidden _ (by decide) (by decide) (by decide) (by decide), spaced⟩
    · rfl
    · exact ⟨hidden _ (by decide) (by decide) (by decide) (by decide), spaced⟩
  exact ⟨same, convert_ignored {} same⟩

/-- No base, no `id` and no reference to a list of suggestions. -/
def Unreferenced (ns : List Html.Node) : Prop :=
  Html.ThroughoutAll (Tagged SelfContained) ns ∧ identifiedIn ns = []

def ignoringCode (content : List Html.Node) : Element :=
  ⟨"code", OrderedMap.empty, [.text "a" none, .element "b" ignoreMark content none], none⟩

theorem walkTree_ignoringCode [UrlReader] (content : List Html.Node) :
    walkTree {} standard (.root [(ignoringCode content).toNode] none) =
      .plain .root [.leaf (.inlineCode (ignoringCode content).toText) {}] := by
  have shown : ¬ (ignoringCode content).isIgnored := Bool.false_ne_true
  rw [walkTree_root, Walk.all_singleton, nodes_convert shown (.inlineCode List.mem_cons_self)]
  rfl

/-- Without a word on where the ignored elements are this fails: code is converted to its text, and
that is all of its text. -/
theorem convert_ignoringCode :
    Html.Node.Alike (fun _ p q => p = q)
        (fun _ e others => Unreferenced e.children ∧ Unreferenced others) {}
        (.root [(ignoringCode [.text "X" none]).toNode] none)
        (.root [(ignoringCode []).toNode] none) ∧
      convert {} standard (.root [(ignoringCode [.text "X" none]).toNode] none) ≠
        convert {} standard (.root [(ignoringCode []).toNode] none) := by
  have seen : convert {} standard (.root [(ignoringCode [.text "X" none]).toNode] none) =
      .plain .root [.leaf (.inlineCode "aX") {}] :=
    congrArg Markdown.Node.normalize (walkTree_ignoringCode [.text "X" none])
  have gone : convert {} standard (.root [(ignoringCode []).toNode] none) =
      .plain .root [.leaf (.inlineCode "a") {}] :=
    congrArg Markdown.Node.normalize (walkTree_ignoringCode [])
  constructor
  · refine .root (.cons (.element rfl (.cons .text (.cons (.hidden rfl rfl ?_) .nil))) .nil)
    exact ⟨⟨⟨trivial, trivial⟩, rfl⟩, trivial, rfl⟩
  · rw [seen, gone]
    simp [Markdown.Node.plain]

end HtmlToMarkdown
