import HtmlToMarkdown.Conversion.Standard
import Mathlib.Data.List.Nodup

namespace HtmlToMarkdown

namespace OrderedMap

variable {α : Type}

theorem entries_insert_of_not_mem {m : OrderedMap α} {key : String} (fresh : key ∉ m.keys)
    (value : α) : (m.insert key value).entries = m.entries ++ [(key, value)] := by
  rw [insert, dif_neg fresh]

theorem entries_foldl_insert (added : List (String × α)) (m : OrderedMap α)
    (distinct : (m.entries.map (·.1) ++ added.map (·.1)).Nodup) :
    (added.foldl (fun m entry => m.insert entry.1 entry.2) m).entries = m.entries ++ added := by
  induction added generalizing m with
  | nil => simp
  | cons entry added ih =>
      have fresh : entry.1 ∉ m.keys := by
        intro member
        have apart := (List.nodup_append.mp distinct).2.2
        exact apart entry.1 member entry.1 (by simp) rfl
      have entries := entries_insert_of_not_mem fresh entry.2
      rw [List.foldl_cons, ih, entries, List.append_assoc, List.singleton_append]
      rw [entries]
      simpa using distinct

end OrderedMap

namespace Handlers

/-- The table of a converter, tag by tag. -/
def standardTags : List (String × TagHandler) :=
  ignoredTags.map (·, Handler.ignore) ++ passThroughTags.map (·, Handler.passThrough) ++
    flowTags.map (·, Handler.flow) ++ ownTags

set_option maxRecDepth 4000 in
theorem nodup_standardTags : (standardTags.map (·.1)).Nodup := by decide +kernel

set_option maxRecDepth 4000 in
theorem lower_standardTags : ∀ key ∈ standardTags.map (·.1), Text.lower key = key := by
  decide +kernel

theorem tags_insert_of_lower {h : Handlers} {tag : String} (lower : Text.lower tag = tag)
    (handler : TagHandler) : (h.insert tag handler).tags = h.tags.insert tag handler := by
  rw [insert, lower]

theorem tags_foldl_insert (added : List (String × TagHandler)) (h : Handlers)
    (lower : ∀ entry ∈ added, Text.lower entry.1 = entry.1) :
    (added.foldl (fun h entry => h.insert entry.1 entry.2) h).tags =
      added.foldl (fun m entry => m.insert entry.1 entry.2) h.tags := by
  induction added generalizing h with
  | nil => rfl
  | cons entry added ih =>
      have rest : ∀ entry ∈ added, Text.lower entry.1 = entry.1 := by
        intro entry member
        exact lower entry (List.mem_cons_of_mem _ member)
      rw [List.foldl_cons, ih _ rest, tags_insert_of_lower (lower entry List.mem_cons_self)]
      rfl

theorem tags_foldl_insertKind (added : List (String × KindHandler)) (h : Handlers) :
    (added.foldl (fun h entry => h.insertKind entry.1 entry.2) h).tags = h.tags := by
  induction added generalizing h with
  | nil => rfl
  | cons entry added ih => exact ih _

theorem insertAll_eq (h : Handlers) (tags : List String) (handler : TagHandler) :
    h.insertAll tags handler =
      (tags.map (·, handler)).foldl (fun h entry => h.insert entry.1 entry.2) h := by
  rw [insertAll, List.foldl_map]

theorem entries_standard : standard.tags.entries = standardTags := by
  have lower : ∀ entry ∈ standardTags, Text.lower entry.1 = entry.1 := by
    intro entry member
    exact lower_standardTags entry.1 (List.mem_map_of_mem member)
  have folded : standard.tags =
      (standardTags.foldl (fun h entry => h.insert entry.1 entry.2) empty).tags := by
    rw [standard, tags_foldl_insertKind, insertAll_eq, insertAll_eq, insertAll_eq, standardTags,
      List.foldl_append, List.foldl_append, List.foldl_append]
  rw [folded, tags_foldl_insert _ _ lower, OrderedMap.entries_foldl_insert]
  · rfl
  · exact nodup_standardTags

theorem find?_tags_standard {key : String} {handler : TagHandler} :
    standard.tags.find? key = some handler ↔ (key, handler) ∈ standardTags := by
  rw [OrderedMap.find?, entries_standard, Option.map_eq_some_iff]
  constructor
  · rintro ⟨entry, found, rfl⟩
    have matched := List.find?_some found
    have same : entry.1 = key := eq_of_beq matched
    exact same ▸ List.mem_of_find?_eq_some found
  · intro member
    cases found : standardTags.find? (·.1 == key) with
    | none =>
        have absent := List.find?_eq_none.mp found (key, handler) member
        simp at absent
    | some entry =>
        have matched := List.find?_some found
        have unique := List.inj_on_of_nodup_map nodup_standardTags
          (List.mem_of_find?_eq_some found) member (eq_of_beq matched)
        exact ⟨entry, rfl, by rw [unique]⟩

theorem lower_of_mem_standardTags {key : String} {handler : TagHandler}
    (member : (key, handler) ∈ standardTags) : Text.lower key = key :=
  lower_standardTags key (List.mem_map_of_mem member)

theorem find?_standard {tag : String} {handler : TagHandler}
    (found : standard.find? tag = some handler) : (Text.lower tag, handler) ∈ standardTags := by
  rw [find?, Option.or_eq_some_iff, find?_tags_standard, find?_tags_standard] at found
  rcases found with member | ⟨-, member⟩
  · rw [lower_of_mem_standardTags member]
    exact member
  · exact member

inductive Registered : String → TagHandler → Prop
  | ignore {key} (member : key ∈ ignoredTags) : Registered key Handler.ignore
  | passThrough {key} (member : key ∈ passThroughTags) : Registered key Handler.passThrough
  | flow {key} (member : key ∈ flowTags) : Registered key Handler.flow
  | link : Registered "a" Handler.link
  | media {key} (member : key ∈ ["audio", "video"]) : Registered key Handler.media
  | emphasis {key} (member : key ∈ ["em", "i", "mark", "u"]) : Registered key Handler.emphasis
  | strong {key} (member : key ∈ ["b", "strong"]) : Registered key Handler.strong
  | delete {key} (member : key ∈ ["del", "s", "strike"]) : Registered key Handler.delete
  | base : Registered "base" Handler.base
  | blockquote : Registered "blockquote" Handler.blockquote
  | lineBreak : Registered "br" Handler.lineBreak
  | wordBreak : Registered "wbr" Handler.wordBreak
  | inlineCode {key} (member : key ∈ ["code", "kbd", "samp", "tt", "var"]) :
    Registered key Handler.inlineCode
  | listItem {key} (member : key ∈ ["dd", "dt", "li"]) : Registered key Handler.listItem
  | list {key} (member : key ∈ ["dir", "ol", "ul"]) : Registered key Handler.list
  | definitionList : Registered "dl" Handler.definitionList
  | heading {key} (member : key ∈ ["h1", "h2", "h3", "h4", "h5", "h6"]) :
    Registered key Handler.heading
  | thematicBreak : Registered "hr" Handler.thematicBreak
  | iframe : Registered "iframe" Handler.iframe
  | image {key} (member : key ∈ ["image", "img"]) : Registered key Handler.image
  | input : Registered "input" Handler.input
  | select : Registered "select" Handler.select
  | textarea : Registered "textarea" Handler.textarea
  | code {key} (member : key ∈ ["listing", "plaintext", "pre", "xmp"]) :
    Registered key Handler.code
  | paragraph {key} (member : key ∈ ["p", "summary"]) : Registered key Handler.paragraph
  | quote : Registered "q" Handler.quote
  | table : Registered "table" Handler.table
  | tableRow : Registered "tr" Handler.tableRow
  | tableCell {key} (member : key ∈ ["td", "th"]) : Registered key Handler.tableCell

theorem registered_ownTags : ∀ entry ∈ ownTags, Registered entry.1 entry.2 := by
  simp only [ownTags, List.forall_mem_cons]
  exact ⟨.link, .media (by simp), .strong (by simp), .base, .blockquote, .lineBreak,
    .inlineCode (by simp), .listItem (by simp), .delete (by simp), .list (by simp),
    .definitionList, .listItem (by simp), .emphasis (by simp), .heading (by simp),
    .heading (by simp), .heading (by simp), .heading (by simp), .heading (by simp),
    .heading (by simp), .thematicBreak, .emphasis (by simp), .iframe, .image (by simp),
    .image (by simp), .input, .inlineCode (by simp), .listItem (by simp), .code (by simp),
    .emphasis (by simp), .list (by simp), .paragraph (by simp), .code (by simp),
    .code (by simp), .quote, .delete (by simp), .inlineCode (by simp), .select,
    .delete (by simp), .strong (by simp), .paragraph (by simp), .table, .tableCell (by simp),
    .textarea, .tableCell (by simp), .tableRow, .inlineCode (by simp), .emphasis (by simp),
    .list (by simp), .inlineCode (by simp), .media (by simp), .wordBreak, .code (by simp),
    by simp⟩

theorem registered_of_mem {key : String} {handler : TagHandler}
    (member : (key, handler) ∈ standardTags) : Registered key handler := by
  simp only [standardTags, List.mem_append, List.mem_map, Prod.mk.injEq] at member
  rcases member with ((⟨tag, inside, rfl, rfl⟩ | ⟨tag, inside, rfl, rfl⟩) |
    ⟨tag, inside, rfl, rfl⟩) | own
  · exact .ignore inside
  · exact .passThrough inside
  · exact .flow inside
  · exact registered_ownTags (key, handler) own

theorem mem_of_registered {key : String} {handler : TagHandler}
    (registered : Registered key handler) : (key, handler) ∈ standardTags := by
  have own : ∀ {tags : List String} {handler : TagHandler},
      (∀ tag ∈ tags, (tag, handler) ∈ ownTags) → ∀ tag ∈ tags, (tag, handler) ∈ standardTags :=
    fun all tag member => List.mem_append_right _ (all tag member)
  have whole : ∀ {tags : List String} {handler : TagHandler} {tag : String}, tag ∈ tags →
      (tag, handler) ∈ tags.map (·, handler) := List.mem_map_of_mem
  cases registered with
  | ignore member =>
      exact List.mem_append_left _ (List.mem_append_left _ (List.mem_append_left _ (whole member)))
  | passThrough member =>
      exact List.mem_append_left _ (List.mem_append_left _ (List.mem_append_right _ (whole member)))
  | flow member => exact List.mem_append_left _ (List.mem_append_right _ (whole member))
  | media member | emphasis member | strong member | delete member | inlineCode member
  | listItem member | list member | heading member | image member | code member
  | paragraph member | tableCell member => exact own (by simp [ownTags]) key member
  | link | base | blockquote | lineBreak | wordBreak | definitionList | thematicBreak | iframe
  | input | select | textarea | quote | table | tableRow =>
      exact List.mem_append_right _ (by simp [ownTags])

theorem find?_of_registered {tag : String} {handler : TagHandler}
    (registered : Registered tag handler) : standard.find? tag = some handler := by
  rw [find?, find?_tags_standard.mpr (mem_of_registered registered), Option.some_or]

theorem find?_of_lower {tag : String} {handler : TagHandler}
    (registered : Registered (Text.lower tag) handler) : standard.find? tag = some handler := by
  have lowered := find?_tags_standard.mpr (mem_of_registered registered)
  cases own : standard.tags.find? tag with
  | none => rw [find?, own, Option.none_or, lowered]
  | some other =>
      rw [lower_of_mem_standardTags (find?_tags_standard.mp own), own] at lowered
      rw [find?, own, Option.some_or, lowered]

theorem Registered.unique {key : String} {handler other : TagHandler}
    (registered : Registered key handler) (also : Registered key other) : handler = other := by
  have found := find?_of_registered registered
  rw [find?_of_registered also] at found
  exact (Option.some.inj found).symm

end Handlers

end HtmlToMarkdown
