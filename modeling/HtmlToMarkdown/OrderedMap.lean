/-!
Maps from strings that keep the order in which their keys were first inserted. Setting a key that
is present changes its value and not its place; a key that was erased returns at the end.
-/

namespace HtmlToMarkdown

structure OrderedMap (α : Type) where
  entries : List (String × α)
  distinct : (entries.map (·.1)).Nodup

namespace OrderedMap

variable {α : Type}

def empty : OrderedMap α := ⟨[], by simp⟩

instance : Inhabited (OrderedMap α) := ⟨empty⟩

def keys (m : OrderedMap α) : List String := m.entries.map (·.1)

def isEmpty (m : OrderedMap α) : Bool := m.entries.isEmpty

def size (m : OrderedMap α) : Nat := m.entries.length

def find? (m : OrderedMap α) (key : String) : Option α :=
  (m.entries.find? (·.1 == key)).map (·.2)

def contains (m : OrderedMap α) (key : String) : Bool := m.keys.contains key

def replace (key : String) (value : α) (entry : String × α) : String × α :=
  if entry.1 == key then (key, value) else entry

theorem replace_fst (key : String) (value : α) (entry : String × α) :
    (replace key value entry).1 = entry.1 := by
  by_cases h : entry.1 = key <;> simp [replace, h]

def insert (m : OrderedMap α) (key : String) (value : α) : OrderedMap α :=
  if h : key ∈ m.keys then
    ⟨m.entries.map (replace key value), by
      simpa [Function.comp_def, replace_fst] using m.distinct⟩
  else
    ⟨m.entries ++ [(key, value)], by
      have fresh : ∀ k ∈ m.keys, k ≠ key := fun k member same => h (same ▸ member)
      rw [List.map_append, List.nodup_append]
      exact ⟨m.distinct, by simp, by simpa [keys] using fresh⟩⟩

def erase (m : OrderedMap α) (key : String) : OrderedMap α :=
  ⟨m.entries.filter (·.1 != key), m.distinct.sublist (List.filter_sublist.map _)⟩

/-- The entries one after the other; of a repeated key the first place and the last value. -/
def ofList (entries : List (String × α)) : OrderedMap α :=
  entries.foldl (fun m (key, value) => m.insert key value) empty

end OrderedMap

end HtmlToMarkdown
