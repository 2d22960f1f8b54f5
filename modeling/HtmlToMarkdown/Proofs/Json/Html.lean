import HtmlToMarkdown.Proofs.Json.Records
import HtmlToMarkdown.Proofs.Source.Decoded
import HtmlToMarkdown.Proofs.Walk.Registry

namespace HtmlToMarkdown

open Json

namespace OrderedMap

variable {α : Type}

theorem eq_of_entries {m n : OrderedMap α} (same : m.entries = n.entries) : m = n := by
  cases m
  cases n
  cases same
  rfl

theorem foldl_insert_entries (m : OrderedMap α) :
    m.entries.foldl (fun m entry => m.insert entry.1 entry.2) empty = m :=
  eq_of_entries (entries_foldl_insert m.entries empty (by simpa [empty] using m.distinct))

end OrderedMap

namespace Html

theorem PropertyValue.ofJson_toJson (value : PropertyValue) : ofJson value.toJson = .ok value := by
  cases value with
  | list items =>
      have strings : (items.map Json.string).mapM asItem = some items := by
        have law : ∀ s, asItem (.string s) = pure s := fun _ => rfl
        exact mapM_map_of_law law items
      simp only [toJson, strings, ofJson, Json.strings]
  | _ => rfl

namespace Properties

theorem foldlM_toJson (entries : List (String × PropertyValue)) (p : Properties) :
    (entries.map fun (name, value) => (name, value.toJson)).foldlM
      (fun (p : Properties) (name, v) => return p.insert name (← PropertyValue.ofJson v)) p =
      (.ok (entries.foldl (fun p entry => p.insert entry.1 entry.2) p) : Decoded Properties) := by
  induction entries generalizing p with
  | nil => rfl
  | cons entry entries ih =>
      rcases entry with ⟨name, value⟩
      simp only [List.map_cons, List.foldlM_cons, PropertyValue.ofJson_toJson, ok_bind]
      exact ih _

theorem ofJson_toJson (p : Properties) : ofJson (toJson p) = .ok p := by
  rw [ofJson, toJson, asMap, ok_bind, foldlM_toJson, OrderedMap.foldl_insert_entries]

end Properties

namespace Node

section Fields

variable {kind name : String} {f g : Fields} {v : Json} {entries : List (String × Json)}

theorem readEntries_skip (unknown : name ∉ fieldNames kind) :
    readEntries kind f ((name, v) :: entries) = readEntries kind f entries := by
  rw [readEntries, if_pos (by simpa using unknown)]

theorem readEntries_add (known : name ∈ fieldNames kind) (other : name ≠ "children")
    (added : f.add name v = .ok g) :
    readEntries kind f ((name, v) :: entries) = readEntries kind g entries := by
  rw [readEntries, if_neg (by simpa using known), Fields.take, if_neg (by simpa using other), added,
    ok_bind]

theorem readEntries_children (known : "children" ∈ fieldNames kind) (unset : f.children = none)
    {children : List Node} (read : readChildren v = .ok children) :
    readEntries kind f (("children", v) :: entries) =
      readEntries kind { f with children := some children } entries := by
  rw [readEntries, if_neg (by simpa using known), Fields.take, if_pos (by rfl), unset, once, read]
  rfl

theorem readEntries_position (known : "position" ∈ fieldNames kind) (unset : f.position = none)
    (p : Option Position) :
    readEntries kind f (positionEntry p) = .ok { f with position := p.map some } := by
  cases p with
  | none =>
    rw [positionEntry, entry?, readEntries, Option.map_none, ← unset]
  | some p =>
    have added : f.add "position" p.toJson = .ok { f with position := some (some p) } := by
      rw [Fields.add, unset, Position.codec.onceNullable]
      rfl
    rw [positionEntry, entry?, readEntries_add known (by decide) added]
    rfl

theorem add_tag (unset : f.tag = none) {tag : String} (lowered : Text.asciiLower tag = tag) :
    f.add "tagName" (.string tag) = .ok { f with tag := some tag } := by
  have read : once "tagName" none (fun v => v.asString.map Text.asciiLower) (.string tag) =
      .ok (some tag) := by
    rw [once, asString, Except.map, lowered]
    rfl
  rw [Fields.add, unset, read]
  rfl

theorem add_properties (unset : f.properties = none) (p : Properties) :
    f.add "properties" p.toJson = .ok { f with properties := some p } := by
  rw [Fields.add, unset, once, Properties.ofJson_toJson]
  rfl

theorem readEntries_value (known : "value" ∈ fieldNames kind) (unset : f.value = none)
    (value : String) :
    readEntries kind f (("value", .string value) :: entries) =
      readEntries kind { f with value := some value } entries := by
  have added : f.add "value" (.string value) = .ok { f with value := some value } := by
    rw [Fields.add, unset, codec_string.once]
    rfl
  exact readEntries_add known (by decide) added

end Fields

theorem fieldNames_of_mem : ∀ kind ∈ kinds,
    "type" ∉ fieldNames kind ∧ "position" ∈ fieldNames kind := by
  decide

theorem ofJson_object {kind : String} {entries : List (String × Json)} {p : Option Position}
    {f : Fields} {n : Node} (known : kind ∈ kinds) (apart : ∀ entry ∈ entries, entry.1 ≠ "type")
    (read : ∀ rest, readEntries kind {} (entries ++ rest) = readEntries kind f rest)
    (unset : f.position = none)
    (built : { f with position := p.map some }.build kind = .ok n) (inside : Bool) :
    ofJson inside (.object (("type", .string kind) :: (entries ++ positionEntry p))) = .ok n := by
  rcases fieldNames_of_mem kind known with ⟨untyped, placed⟩
  have typed : ∀ entry ∈ entries ++ positionEntry p, entry.1 ≠ "type" := by
    intro entry member
    rcases List.mem_append.mp member with here | position
    · exact apart entry here
    · rw [fst_of_mem_entry position]
      decide
  rw [ofJson, typeOf_cons inside known typed, ok_bind, readEntries_skip untyped, read,
    readEntries_position placed unset, ok_bind, built]

mutual

theorem ofJson_toJson {n : Node} (lowered : n.Throughout Node.Lowered) (inside : Bool) :
    ofJson inside n.toJson = .ok n := by
  match n with
  | .root children p =>
      have below := readChildren_allToJson lowered.2
      have read (rest : List (String × Json)) :
          readEntries "root" {} (("children", .array (allToJson children)) :: rest) =
            readEntries "root" { children := some children } rest :=
        readEntries_children (by decide) rfl below
      refine ofJson_object (by decide) (by simp) read rfl ?_ inside
      rw [Fields.build, join_map_some]
      rfl
  | .element tag properties children p =>
      have below := readChildren_allToJson lowered.2
      have read (rest : List (String × Json)) :
          readEntries "element" {} (("tagName", .string tag) :: ("properties", properties.toJson) ::
              ("children", .array (allToJson children)) :: rest) =
            readEntries "element"
              { tag := some tag, properties := some properties, children := some children }
              rest := by
        rw [readEntries_add (by decide) (by decide) (add_tag rfl lowered.1),
          readEntries_add (by decide) (by decide) (add_properties rfl properties)]
        exact readEntries_children (by decide) rfl below
      refine ofJson_object (by decide) (by simp) read rfl ?_ inside
      rw [Fields.build, join_map_some]
      rfl
  | .text value p =>
      refine ofJson_object (by decide) (by simp)
        (fun rest => readEntries_value (by decide) rfl value) rfl ?_ inside
      rw [Fields.build, join_map_some]
      rfl
  | .comment value p =>
      refine ofJson_object (by decide) (by simp)
        (fun rest => readEntries_value (by decide) rfl value) rfl ?_ inside
      rw [Fields.build, join_map_some]
      rfl
  | .doctype p =>
      have apart : ∀ entry ∈ ([] : List (String × Json)), entry.1 ≠ "type" := by simp
      refine ofJson_object (by decide) apart (fun rest => rfl) rfl ?_ inside
      exact congrArg (fun p => Except.ok (doctype p)) (join_map_some p)

theorem readChildren_allToJson {ns : List Node} (lowered : ThroughoutAll Node.Lowered ns) :
    readChildren (.array (allToJson ns)) = .ok ns := by
  rw [readChildren]
  match ns with
  | [] => rfl
  | n :: ns =>
      have first := ofJson_toJson lowered.1 true
      have others := readChildren_allToJson lowered.2
      rw [readChildren] at others
      rw [allToJson, allOfJson, first, ok_bind, others]
      rfl

end

/-- The numbers among the properties of a node are read back from their texts. -/
def NumbersReadBack : Node → Prop
  | .element _ properties _ _ =>
    ∀ name x, (name, .number x) ∈ properties.entries → NumberReadsBack (.float x)
  | _ => True

theorem readsBack_properties {p : Properties}
    (numbers : ∀ name x, (name, .number x) ∈ p.entries → NumberReadsBack (.float x)) :
    (Properties.toJson p).ReadsBack := by
  rw [Properties.toJson, ReadsBack, entriesReadBack_iff, List.forall_mem_map]
  rintro ⟨name, value⟩ member
  cases value with
  | flag b => trivial
  | number x => exact numbers name x member
  | text s => trivial
  | list items =>
      refine allReadBack_iff.mpr ?_
      rw [List.forall_mem_map]
      exact fun s _ => trivial

theorem readsBack_positionEntry (p : Option Position) : EntriesReadBack (positionEntry p) :=
  Position.codec.entriesReadBack "position" p

mutual

theorem readsBack_toJson {n : Node} (numbers : n.Throughout NumbersReadBack) :
    n.toJson.ReadsBack := by
  match n with
  | .root children p =>
      exact ⟨trivial, readsBack_allToJson numbers.2, readsBack_positionEntry p⟩
  | .element tag properties children p =>
      exact ⟨trivial, trivial, readsBack_properties numbers.1, readsBack_allToJson numbers.2,
        readsBack_positionEntry p⟩
  | .text value p => exact ⟨trivial, trivial, readsBack_positionEntry p⟩
  | .comment value p => exact ⟨trivial, trivial, readsBack_positionEntry p⟩
  | .doctype p => exact ⟨trivial, readsBack_positionEntry p⟩

theorem readsBack_allToJson {ns : List Node} (numbers : ThroughoutAll NumbersReadBack ns) :
    AllReadBack (allToJson ns) := by
  match ns with
  | [] => trivial
  | n :: ns => exact ⟨readsBack_toJson numbers.1, readsBack_allToJson numbers.2⟩

end

/-- A tree that was read from a text is read again from the text printed for it. -/
theorem ofText_text_of_ofText {text : String} {n : Node} (decoded : ofText text = .ok n)
    (numbers : n.Throughout NumbersReadBack) (shallow : n.toJson.depth ≤ 127) :
    ofText (Json.text n.toJson) = .ok n := by
  have below : n.toJson.depth < depthLimit := Nat.lt_succ_of_le shallow
  rw [ofText, Json.ofText_text_eq kinds (ofJson false) (readsBack_toJson numbers) below]
  exact ofJson_toJson (lowered_ofText decoded) false

theorem numberReadsBack_tenths {x : Float} (whole tenth : Char)
    (digits : Text.isDigit whole ∧ whole ≠ '0' ∧ Text.isDigit tenth)
    (text : Decimal.compact x = String.ofList [whole, '.', tenth])
    (value : (10 * Text.digitValue whole + Text.digitValue tenth).toUInt64.toFloat / powerOfTen 1 =
      x) :
    NumberReadsBack (.float x) := by
  rw [NumberReadsBack, render, text, String.toList_ofList,
    readNumber_tenths digits.1 digits.2.1 digits.2.2, value]

/-- A cell with its type last, its tag in capitals, an integer, and a property given twice. The
text in it is written as an array, with the index of its kind, and so are the places in it. -/
def cellJson : Json :=
  .object [
    ("children", .array [.array [.int 2, .string "a",
      .array [.array [.int 1, .int 5], .array [.int 1, .int 6, .int 5]]]]),
    ("properties", .object [("width", .float 2.5), ("colSpan", .int 2), ("width", .float 1.5),
      ("className", strings ["x", "y"]), ("hidden", .bool true)]),
    ("tagName", .string "TD"), ("position", .null), ("type", .string "element")]

def cell : Node :=
  .element "td"
    ⟨[("width", .number 1.5), ("colSpan", .number (PropertyValue.floatOfInt 2)),
      ("className", .list ["x", "y"]), ("hidden", .flag true)], by decide⟩
    [.text "a" (some ⟨⟨1, 5, none⟩, ⟨1, 6, some 5⟩⟩)] none

theorem throughout_cell : cell.Throughout NumbersReadBack := by
  refine ⟨fun name x member => ?_, trivial, trivial⟩
  simp only [List.mem_cons, Prod.mk.injEq, PropertyValue.number.injEq, reduceCtorEq, and_false,
    List.not_mem_nil, or_false] at member
  rcases member with ⟨-, rfl⟩ | ⟨-, rfl⟩
  · exact numberReadsBack_tenths '1' '5' (by decide) (by decide +kernel) (by decide +kernel)
  · exact numberReadsBack_tenths '2' '0' (by decide) (by decide +kernel) (by decide +kernel)

theorem ofText_cellJson : ofText (Json.text cellJson) = .ok cell := by
  have given : NumberReadsBack (.float 2.5) :=
    numberReadsBack_tenths '2' '5' (by decide) (by decide +kernel) (by decide +kernel)
  have kept : NumberReadsBack (.float 1.5) :=
    numberReadsBack_tenths '1' '5' (by decide) (by decide +kernel) (by decide +kernel)
  have small {n : Nat} (below : n < 10) : NumberReadsBack (.int n) :=
    numberReadsBack_ofNat (Nat.lt_trans below (by decide))
  have one := small (n := 1) (by decide)
  have two := small (n := 2) (by decide)
  have five := small (n := 5) (by decide)
  have six := small (n := 6) (by decide)
  have readsBack : cellJson.ReadsBack :=
    ⟨⟨⟨two, trivial, ⟨⟨one, five, trivial⟩, ⟨one, six, five, trivial⟩, trivial⟩, trivial⟩, trivial⟩,
      ⟨given, two, kept, ⟨trivial, trivial, trivial⟩, trivial, trivial⟩,
      trivial, trivial, trivial, trivial⟩
  rw [ofText, Json.ofText_text_eq kinds (ofJson false) readsBack (by decide)]
  rfl

theorem ofText_text_of_ofText_cell :
    ofText (Json.text cellJson) = .ok cell ∧ cell.Throughout NumbersReadBack ∧
      cell.toJson.depth ≤ 127 ∧ ofText (Json.text cell.toJson) = .ok cell := by
  have shallow : cell.toJson.depth ≤ 127 := by decide
  exact ⟨ofText_cellJson, throughout_cell, shallow,
    ofText_text_of_ofText ofText_cellJson throughout_cell shallow⟩

end Node

end Html

end HtmlToMarkdown
