import HtmlToMarkdown.Markdown.Json
import HtmlToMarkdown.Proofs.Json.Records

namespace HtmlToMarkdown.Markdown

open Json

theorem Align.named_name (a : Align) : named a.name = .ok a := by
  cases a <;> rfl

theorem Align.codec : Codec toJson ofJson where
  decode_encode := named_name
  filled := nofun
  readsBack _ := trivial

theorem Data.codec : Codec toJson ofJson where
  decode_encode d := by
    rcases d with ⟨elementName⟩
    cases elementName with
    | none => rfl
    | some name => rfl
  filled := nofun
  readsBack d := codec_string.entriesReadBack "hName" d.elementName

namespace Node

theorem codec_depth : Codec (fun n : UInt8 => .int n.toNat) asDepth where
  decode_encode n := by
    rw [asDepth, asNatural_ofNat "u8" n.toNat_lt_size]
    exact congrArg Except.ok n.ofNat_toNat
  filled := nofun
  readsBack n := numberReadsBack_ofNat (Nat.lt_trans n.toNat_lt_size (by decide))

theorem codec_start : Codec (fun n : UInt32 => .int n.toNat) asStart where
  decode_encode n := by
    rw [asStart, asNatural_ofNat "u32" n.toNat_lt_size]
    exact congrArg Except.ok n.ofNat_toNat
  filled := nofun
  readsBack n := numberReadsBack_ofNat (Nat.lt_trans n.toNat_lt_size (by decide))

theorem codec_align :
    Codec (fun align => .array (align.map (Json.ofOption Align.toJson))) asAlign where
  decode_encode align := by
    have law (a : Option Align) : asNullable Align.ofJson (Json.ofOption Align.toJson a) = pure a :=
      Align.codec.nullable a
    rw [asAlign, asArray, ok_bind, mapM_map_of_law law]
    rfl
  filled := nofun
  readsBack align := by
    refine allReadBack_iff.mpr ?_
    rw [List.forall_mem_map]
    exact fun a _ => Align.codec.readsBack_ofOption a

end Node

def Shape.fields : Shape → Node.Fields
  | heading depth => { depth := some depth }
  | list ordered start spread =>
    { ordered := some ordered, start := some start, spread := some spread }
  | listItem spread checked => { spread := some spread, checked := some checked }
  | table align => { align := some align }
  | link url title => { url := some url, title := some title }
  | _ => {}

def Leaf.fields : Leaf → Node.Fields
  | text value => { value := some value }
  | inlineCode value => { value := some value }
  | code lang info value => { lang := some lang, info := some info, value := some value }
  | image url title alt => { url := some url, title := some title, alt := some alt }
  | html value => { value := some value }
  | lineBreak => {}
  | thematicBreak => {}

def Kind.Owns (kind : Kind) (entries : List (String × Json)) : Prop :=
  ∀ entry ∈ entries, Node.isField kind entry.1 ∧ entry.1 ≠ "children" ∧ entry.1 ≠ "type"

theorem Shape.owns_entries (shape : Shape) : shape.kind.Owns shape.entries := by
  cases shape <;> simp [Kind.Owns, Shape.entries, Shape.kind, Node.isField, Kind.fieldNames]

theorem Leaf.owns_entries (content : Leaf) : content.kind.Owns content.entries := by
  cases content <;> simp [Kind.Owns, Leaf.entries, Leaf.kind, Node.isField, Kind.fieldNames]

theorem Origin.owns_entries (kind : Kind) (o : Origin) : kind.Owns o.entries := by
  intro entry member
  rcases List.mem_append.mp member with position | data
  · rw [fst_of_mem_entry position]
    simp [Node.isField]
  · rw [fst_of_mem_entry data]
    simp [Node.isField]

theorem Shape.entriesReadBack (shape : Shape) : EntriesReadBack shape.entries := by
  cases shape with
  | heading depth => exact ⟨Node.codec_depth.readsBack depth, trivial⟩
  | list ordered start spread =>
      exact ⟨trivial, Node.codec_start.readsBack_ofOption start, trivial, trivial⟩
  | listItem spread checked => exact ⟨trivial, codec_bool.readsBack_ofOption checked, trivial⟩
  | table align => exact ⟨Node.codec_align.readsBack align, trivial⟩
  | link url title => exact ⟨trivial, codec_string.readsBack_ofOption title, trivial⟩
  | _ => trivial

theorem Leaf.entriesReadBack (content : Leaf) : EntriesReadBack content.entries := by
  cases content with
  | code lang info value =>
      exact ⟨codec_string.readsBack_ofOption lang, codec_string.readsBack_ofOption info, trivial,
        trivial⟩
  | image url title alt =>
      exact ⟨trivial, codec_string.readsBack_ofOption title, trivial, trivial⟩
  | text value => exact ⟨trivial, trivial⟩
  | inlineCode value => exact ⟨trivial, trivial⟩
  | html value => exact ⟨trivial, trivial⟩
  | _ => trivial

theorem Origin.entriesReadBack (o : Origin) : EntriesReadBack o.entries :=
  entriesReadBack_append.mpr
    ⟨Position.codec.entriesReadBack "position" o.position, Data.codec.entriesReadBack "data" o.data⟩

namespace Node

section Fields

variable {kind : Kind} {name : String} {f g : Fields} {v : Json} {entries : List (String × Json)}

def Fields.addAll (f : Fields) (entries : List (String × Json)) : Json.Decoded Fields :=
  entries.foldlM (fun f entry => f.add entry.1 entry.2) f

theorem readEntries_append {added : List (String × Json)} (owns : kind.Owns added)
    (read : f.addAll added = .ok g) (rest : List (String × Json)) :
    readEntries kind f (added ++ rest) = readEntries kind g rest := by
  induction added generalizing f with
  | nil =>
      cases read
      rfl
  | cons entry added ih =>
      rw [Kind.Owns, List.forall_mem_cons] at owns
      rw [Fields.addAll, List.foldlM_cons] at read
      rcases exists_of_bind read with ⟨next, first, others⟩
      rw [List.cons_append, readEntries, if_neg (by simpa using owns.1.1), Fields.take,
        if_neg (by simpa using owns.1.2.1), first, ok_bind]
      exact ih owns.2 others

theorem readEntries_children (known : isField kind "children") (unset : f.children = none)
    {children : List Node} (read : readChildren v = .ok children) :
    readEntries kind f (("children", v) :: entries) =
      readEntries kind { f with children := some children } entries := by
  rw [readEntries, if_neg (by simpa using known), Fields.take, if_pos (by rfl), unset, once, read]
  rfl

theorem addAll_cons (added : f.add name v = .ok g) :
    f.addAll ((name, v) :: entries) = g.addAll entries := by
  rw [Fields.addAll, List.foldlM_cons, added, ok_bind]
  rfl

theorem addAll_append {added : List (String × Json)} (read : f.addAll added = .ok g) :
    f.addAll (added ++ entries) = g.addAll entries := by
  rw [Fields.addAll] at read
  rw [Fields.addAll, List.foldlM_append, read, ok_bind]
  rfl

theorem add_start (start : Option UInt32) (unset : f.start = none) :
    f.add "start" (Json.ofOption (fun n => .int n.toNat) start) =
      .ok { f with start := some start } := by
  rw [Fields.add, unset, codec_start.onceOption]
  rfl

/-- Every shape is written with fields of its own, and each of them once. -/
theorem addAll_shape (shape : Shape) : Fields.addAll {} shape.entries = .ok shape.fields := by
  cases shape with
  | heading depth =>
      rw [Shape.entries, Fields.addAll, List.foldlM_cons, Fields.add, codec_depth.once]
      rfl
  | list ordered start spread =>
      rw [Shape.entries, addAll_cons rfl, addAll_cons (add_start start rfl)]
      rfl
  | listItem spread checked => cases checked <;> rfl
  | table align =>
      rw [Shape.entries, Fields.addAll, List.foldlM_cons, Fields.add, codec_align.once]
      rfl
  | link url title => cases title <;> rfl
  | _ => rfl

theorem addAll_leaf (content : Leaf) : Fields.addAll {} content.entries = .ok content.fields := by
  cases content with
  | code lang info value => cases lang <;> cases info <;> rfl
  | image url title alt => cases title <;> rfl
  | _ => rfl

theorem addAll_position (unset : f.position = none) (p : Option Position) :
    f.addAll (Json.entry? "position" Position.toJson p) =
      .ok { f with position := p.map some } := by
  cases p with
  | none =>
      rw [Option.map_none, ← unset]
      rfl
  | some p =>
      have added : f.add "position" p.toJson = .ok { f with position := some (some p) } := by
        rw [Fields.add, unset, Position.codec.onceNullable]
        rfl
      exact addAll_cons added

theorem addAll_data (unset : f.data = none) (d : Option Data) :
    f.addAll (Json.entry? "data" Data.toJson d) = .ok { f with data := d.map some } := by
  cases d with
  | none =>
      rw [Option.map_none, ← unset]
      rfl
  | some d =>
      have added : f.add "data" d.toJson = .ok { f with data := some (some d) } := by
        rw [Fields.add, unset, Data.codec.onceNullable]
        rfl
      exact addAll_cons added

theorem addAll_origin (o : Origin) (unplaced : f.position = none) (unmarked : f.data = none) :
    f.addAll o.entries =
      .ok { f with position := o.position.map some, data := o.data.map some } := by
  rw [Origin.entries, addAll_append (addAll_position unplaced o.position)]
  exact addAll_data (by exact unmarked) o.data

end Fields

theorem build_shape (shape : Shape) (o : Origin) (children : List Node) :
    { shape.fields with
      children := some children, position := o.position.map some, data := o.data.map some
    }.build shape.kind = .ok (.parent shape o children) := by
  rcases o with ⟨position, data⟩
  cases shape <;> cases position <;> cases data <;> rfl

theorem build_leaf (content : Leaf) (o : Origin) :
    { content.fields with position := o.position.map some, data := o.data.map some
    }.build content.kind = .ok (.leaf content o) := by
  rcases o with ⟨position, data⟩
  cases content <;> cases position <;> cases data <;> rfl

theorem ofName?_name (kind : Kind) : Kind.ofName? kind.name = some kind := by
  cases kind <;> rfl

theorem name_mem_kindNames (kind : Kind) : kind.name ∈ kindNames := by
  cases kind <;> decide

theorem ofJson_object {kind : Kind} {entries : List (String × Json)} {f : Fields} {n : Node}
    (apart : ∀ entry ∈ entries, entry.1 ≠ "type") (read : readEntries kind {} entries = .ok f)
    (built : f.build kind = .ok n) (inside : Bool) :
    ofJson inside (.object (("type", .string kind.name) :: entries)) = .ok n := by
  have untyped : !isField kind "type" := by
    cases kind <;> rfl
  rw [ofJson, typeOf_cons inside (name_mem_kindNames kind) apart, ok_bind, ofName?_name]
  dsimp only
  rw [readEntries, if_pos untyped, read, ok_bind, built]

theorem toJson_parent (shape : Shape) (o : Origin) (children : List Node) :
    (Node.parent shape o children).toJson = .object (("type", .string shape.kind.name) ::
      (shape.entries ++ ("children", .array (allToJson children)) :: o.entries)) := by
  simp only [toJson, List.append_assoc, List.cons_append, List.nil_append]

theorem toJson_leaf (content : Leaf) (o : Origin) :
    (Node.leaf content o).toJson =
      .object (("type", .string content.kind.name) :: (content.entries ++ o.entries)) := by
  simp only [toJson, List.cons_append, List.nil_append]

/-- Reading the entries that come last, of a node whose other fields have been read. -/
theorem readEntries_origin {kind : Kind} {f : Fields} (o : Origin) (unplaced : f.position = none)
    (unmarked : f.data = none) : readEntries kind f o.entries =
      .ok { f with position := o.position.map some, data := o.data.map some } := by
  have read := readEntries_append (o.owns_entries kind) (addAll_origin o unplaced unmarked) []
  rw [List.append_nil] at read
  rw [read, readEntries]

mutual

theorem ofJson_toJson (n : Node) (inside : Bool) : ofJson inside n.toJson = .ok n := by
  match n with
  | .parent shape o children =>
      have below := readChildren_allToJson children
      have fresh : shape.fields.children = none ∧ shape.fields.position = none ∧
          shape.fields.data = none := by
        cases shape <;> exact ⟨rfl, rfl, rfl⟩
      have known : isField shape.kind "children" := by
        cases shape <;> rfl
      rw [toJson_parent]
      refine ofJson_object ?_ ?_ (build_shape shape o children) inside
      · intro entry member
        rcases List.mem_append.mp member with own | rest
        · exact (shape.owns_entries entry own).2.2
        · rcases List.mem_cons.mp rest with rfl | last
          · simp
          · exact (o.owns_entries shape.kind entry last).2.2
      · rw [readEntries_append shape.owns_entries (addAll_shape shape),
          readEntries_children known fresh.1 below]
        exact readEntries_origin o (by exact fresh.2.1) (by exact fresh.2.2)
  | .leaf content o =>
      have fresh : content.fields.position = none ∧ content.fields.data = none := by
        cases content <;> exact ⟨rfl, rfl⟩
      rw [toJson_leaf]
      refine ofJson_object ?_ ?_ (build_leaf content o) inside
      · intro entry member
        rcases List.mem_append.mp member with own | last
        · exact (content.owns_entries entry own).2.2
        · exact (o.owns_entries content.kind entry last).2.2
      · rw [readEntries_append content.owns_entries (addAll_leaf content)]
        exact readEntries_origin o fresh.1 fresh.2

theorem readChildren_allToJson (ns : List Node) :
    readChildren (.array (allToJson ns)) = .ok ns := by
  rw [readChildren]
  match ns with
  | [] => rfl
  | n :: ns =>
      have first := ofJson_toJson n true
      have others := readChildren_allToJson ns
      rw [readChildren] at others
      rw [allToJson, allOfJson, first, ok_bind, others]
      rfl

end

mutual

theorem readsBack_toJson (n : Node) : n.toJson.ReadsBack := by
  match n with
  | .parent shape o children =>
      have below := readsBack_allToJson children
      rw [toJson_parent]
      exact ⟨trivial, entriesReadBack_append.mpr
        ⟨shape.entriesReadBack, below, o.entriesReadBack⟩⟩
  | .leaf content o =>
      rw [toJson_leaf]
      exact ⟨trivial, entriesReadBack_append.mpr
        ⟨content.entriesReadBack, o.entriesReadBack⟩⟩

theorem readsBack_allToJson (ns : List Node) : AllReadBack (allToJson ns) := by
  match ns with
  | [] => trivial
  | n :: ns => exact ⟨readsBack_toJson n, readsBack_allToJson ns⟩

end

/-- Every tree is read from the text printed for it, unless it is nested too deeply. -/
theorem ofText_text_toJson (n : Node) (shallow : n.toJson.depth ≤ 127) :
    ofText (Json.text n.toJson) = .ok n := by
  have below : n.toJson.depth < depthLimit := Nat.lt_succ_of_le shallow
  rw [ofText, Json.ofText_text_eq kindNames (ofJson false) (readsBack_toJson n) below]
  exact ofJson_toJson n false

def listing : Node :=
  .parent .root { data := some {} } [
    .parent (.list true none false) { position := some ⟨⟨1, 1, none⟩, ⟨3, 1, some 40⟩⟩ } [
      .parent (.listItem false none) {} [.paragraph [.text "a\n\"b\""]],
      .parent (.listItem true (some false)) { data := some ⟨some "li"⟩ } []],
    .leaf (.code none (some "") "c") {},
    .parent (.table [none, some .right, none]) {} []]

theorem ofText_text_toJson_listing :
    listing.toJson.depth ≤ 127 ∧ ofText (Json.text listing.toJson) = .ok listing :=
  ⟨by decide, ofText_text_toJson listing (by decide)⟩

end Node

end HtmlToMarkdown.Markdown
