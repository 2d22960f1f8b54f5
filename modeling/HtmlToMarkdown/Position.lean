import HtmlToMarkdown.Json.Decode

namespace HtmlToMarkdown

structure Point where
  line : UInt64
  column : UInt64
  offset : Option UInt64
  deriving DecidableEq, Repr, Inhabited

structure Position where
  start : Point
  stop : Point
  deriving DecidableEq, Repr, Inhabited

namespace Point

def toJson (p : Point) : Json :=
  .object <| [("line", .int p.line.toNat), ("column", .int p.column.toNat)] ++
    Json.entry? "offset" (fun n => .int n.toNat) p.offset

structure Fields where
  line : Option UInt64 := none
  column : Option UInt64 := none
  offset : Option (Option UInt64) := none

def asWord (v : Json) : Json.Decoded UInt64 :=
  (v.asNatural UInt64.size "usize").map UInt64.ofNat

def Fields.add (f : Fields) : String × Json → Json.Decoded Fields
  | ("line", v) => do return { f with line := ← Json.once "line" f.line asWord v }
  | ("column", v) => do return { f with column := ← Json.once "column" f.column asWord v }
  | ("offset", v) => do
    return { f with offset := ← Json.once "offset" f.offset (Json.asNullable asWord) v }
  | _ => .ok f

def layout : Json.Layout := ⟨"Point", ["line", "column", "offset"], ["line", "column"]⟩

def ofJson (v : Json) : Json.Decoded Point := do
  let f ← (← layout.entriesOf v).foldlM Fields.add {}
  layout.check v
  return ⟨← Json.require "line" f.line, ← Json.require "column" f.column, f.offset.join⟩

end Point

namespace Position

def toJson (p : Position) : Json := .object [("start", p.start.toJson), ("end", p.stop.toJson)]

structure Fields where
  start : Option Point := none
  stop : Option Point := none

def Fields.add (f : Fields) : String × Json → Json.Decoded Fields
  | ("start", v) => do return { f with start := ← Json.once "start" f.start Point.ofJson v }
  | ("end", v) => do return { f with stop := ← Json.once "end" f.stop Point.ofJson v }
  | _ => .ok f

def layout : Json.Layout := ⟨"Position", ["start", "end"], ["start", "end"]⟩

def ofJson (v : Json) : Json.Decoded Position := do
  let f ← (← layout.entriesOf v).foldlM Fields.add {}
  layout.check v
  return ⟨← Json.require "start" f.start, ← Json.require "end" f.stop⟩

end Position

end HtmlToMarkdown
