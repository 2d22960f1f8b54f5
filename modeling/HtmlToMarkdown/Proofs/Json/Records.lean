import HtmlToMarkdown.Position
import HtmlToMarkdown.Proofs.Json.Reading

namespace HtmlToMarkdown

namespace Json

structure Codec {α : Type} (encode : α → Json) (decode : Json → Decoded α) : Prop where
  decode_encode (a : α) : decode (encode a) = .ok a
  filled (a : α) : encode a ≠ .null
  readsBack (a : α) : (encode a).ReadsBack

variable {α : Type} {encode : α → Json} {decode : Json → Decoded α}

theorem asNullable_of_ne_null {v : Json} (filled : v ≠ .null) :
    asNullable decode v = (decode v).map some := by
  cases v with
  | null => exact absurd rfl filled
  | _ => rfl

namespace Codec

theorem once (codec : Codec encode decode) (name : String) (a : α) :
    Json.once name none decode (encode a) = .ok (some a) := by
  rw [Json.once, codec.decode_encode]
  rfl

/-- A value that is written only if it is there, and may be null. -/
theorem onceNullable (codec : Codec encode decode) (name : String) (a : α) :
    Json.once name none (asNullable decode) (encode a) = .ok (some (some a)) := by
  rw [Json.once, asNullable_of_ne_null (codec.filled a), codec.decode_encode]
  rfl

theorem nullable (codec : Codec encode decode) (o : Option α) :
    asNullable decode (ofOption encode o) = .ok o := by
  cases o with
  | none => rfl
  | some a =>
      rw [ofOption, asNullable_of_ne_null (codec.filled a), codec.decode_encode]
      rfl

theorem onceOption (codec : Codec encode decode) (name : String) (o : Option α) :
    Json.once name none (asNullable decode) (ofOption encode o) = .ok (some o) := by
  rw [Json.once, codec.nullable]
  rfl

theorem readsBack_ofOption (codec : Codec encode decode) (o : Option α) :
    (ofOption encode o).ReadsBack := by
  cases o with
  | none => trivial
  | some a => exact codec.readsBack a

end Codec

theorem entriesReadBack_iff {entries : List (String × Json)} :
    EntriesReadBack entries ↔ ∀ entry ∈ entries, entry.2.ReadsBack := by
  induction entries with
  | nil => simp [EntriesReadBack]
  | cons entry entries ih => rw [EntriesReadBack, ih, List.forall_mem_cons]

theorem allReadBack_iff {vs : List Json} : AllReadBack vs ↔ ∀ v ∈ vs, v.ReadsBack := by
  induction vs with
  | nil => simp [AllReadBack]
  | cons v vs ih => rw [AllReadBack, ih, List.forall_mem_cons]

theorem entriesReadBack_append {entries more : List (String × Json)} :
    EntriesReadBack (entries ++ more) ↔ EntriesReadBack entries ∧ EntriesReadBack more := by
  simp only [entriesReadBack_iff, List.forall_mem_append]

theorem Codec.entriesReadBack (codec : Codec encode decode) (name : String) (o : Option α) :
    EntriesReadBack <| entry? name encode o := by
  cases o with
  | none => trivial
  | some a => exact ⟨codec.readsBack a, trivial⟩

theorem join_map_some (o : Option α) : (o.map some).join = o := by
  cases o <;> rfl

theorem fst_of_mem_entry {name : String} {o : Option α} {entry : String × Json}
    (member : entry ∈ Json.entry? name encode o) : entry.1 = name := by
  cases o with
  | none => cases member
  | some a =>
      cases List.mem_singleton.mp member
      rfl

theorem mapM_map_of_law {m : Type → Type} [Monad m] [LawfulMonad m] {β : Type} {write : α → β}
    {back : β → m α} (law : ∀ a, back (write a) = pure a) (items : List α) :
    (items.map write).mapM back = pure items := by
  have same : back ∘ write = fun a => pure (id a) := funext law
  rw [List.mapM_map, same, List.mapM_pure, List.map_id]

theorem typeOf_cons {known : List String} {name : String} {entries : List (String × Json)}
    (inside : Bool) (member : name ∈ known) (apart : ∀ entry ∈ entries, entry.1 ≠ "type") :
    typeOf known inside (("type", .string name) :: entries) = .ok name := by
  have rest : ∀ found, typeAmong known inside found entries = .ok found := by
    induction entries with
    | nil => exact fun _ => rfl
    | cons entry entries ih =>
        rw [List.forall_mem_cons] at apart
        intro found
        rw [typeAmong, if_neg (by simpa using apart.1), ih apart.2]
  have first : once "type" none (asVariant known inside) (.string name) =
      .ok (some name) := by
    simp [once, asVariant, member, Except.map]
  rw [typeOf, typeAmong, if_pos (by simp), first]
  simp only [rest]
  rfl

theorem codec_string : Codec .string asString := ⟨fun _ => rfl, nofun, fun _ => trivial⟩

theorem codec_bool : Codec .bool asBool := ⟨fun _ => rfl, nofun, fun _ => trivial⟩

theorem numberReadsBack_ofNat {n : Nat} (small : n < UInt64.size) :
    NumberReadsBack (.int n) := readNumber_repr (by omega) (by omega)

theorem asNatural_ofNat {n bound : Nat} (wanted : String) (small : n < bound) :
    asNatural bound wanted (.int n) = .ok n := by
  simp [asNatural, small]

end Json

namespace Point

open Json

theorem codec_word : Codec (fun n : UInt64 => .int n.toNat) asWord where
  decode_encode n := by
    rw [asWord, asNatural_ofNat "usize" n.toNat_lt_size]
    exact congrArg Except.ok n.ofNat_toNat
  filled := nofun
  readsBack n := numberReadsBack_ofNat n.toNat_lt_size

theorem codec : Codec toJson ofJson where
  decode_encode p := by
    rcases p with ⟨line, column, offset⟩
    have line := codec_word.once "line" line
    have column := codec_word.once "column" column
    cases offset with
    | none =>
        simp only [toJson, ofJson, Layout.entriesOf, Layout.check, entry?, List.append_nil, ok_bind,
          pure_bind, List.foldlM_cons, List.foldlM_nil, Fields.add, line, column]
        rfl
    | some offset =>
        have offset := codec_word.onceNullable "offset" offset
        simp only [toJson, ofJson, Layout.entriesOf, Layout.check, entry?, List.cons_append,
          List.nil_append, ok_bind, pure_bind, List.foldlM_cons, List.foldlM_nil, Fields.add, line,
          column, offset]
        rfl
  filled := nofun
  readsBack p :=
    ⟨codec_word.readsBack p.line, codec_word.readsBack p.column,
      codec_word.entriesReadBack "offset" p.offset⟩

end Point

namespace Position

open Json

theorem codec : Codec toJson ofJson where
  decode_encode p := by
    have start := Point.codec.once "start" p.start
    have stop := Point.codec.once "end" p.stop
    simp only [toJson, ofJson, Layout.entriesOf, Layout.check, ok_bind, pure_bind,
      List.foldlM_cons, List.foldlM_nil, Fields.add, start, stop]
    rfl
  filled := nofun
  readsBack p := ⟨Point.codec.readsBack p.start, Point.codec.readsBack p.stop, trivial⟩

end Position

end HtmlToMarkdown
