import HtmlToMarkdown.Json.Decode
import HtmlToMarkdown.Proofs.Json.Tokens

namespace HtmlToMarkdown.Json

def State.Awaits (limit : Nat) (place : Place) (state : State) : Prop :=
  ∀ token ≠ .closeArray, state.step limit token = place.begin limit token

def State.AwaitsKey (limit : Nat) (entries : List (String × Json)) (outer : Place)
    (state : State) : Prop :=
  ∀ token ≠ .closeObject, state.step limit token = readKey entries outer token

theorem awaits_value (limit : Nat) (place : Place) : (State.value place).Awaits limit place := by
  intro token apart
  cases place <;> simp [State.step, apart]

theorem awaits_arrayStart (limit : Nat) (outer : Place) :
    (State.arrayStart outer).Awaits limit (.item [] outer) := by
  intro token apart
  simp [State.step]

theorem awaitsKey_objectStart (limit : Nat) (outer : Place) :
    (State.objectStart outer).AwaitsKey limit [] outer := by
  intro token apart
  simp [State.step]

theorem awaitsKey_nextKey (limit : Nat) (entries : List (String × Json)) (outer : Place) :
    (State.nextKey entries outer).AwaitsKey limit entries outer := by
  intro token apart
  simp [State.step]

variable {limit : Nat}

theorem run_cons {state next : State} {token : Token} {ts : List Token}
    (step : state.step limit token = .ok next) :
    state.run limit (token :: ts) = next.run limit ts := by
  rw [State.run, step]

theorem begin_openArray {place : Place} (shallow : place.depth + 1 < limit) :
    place.begin limit .openArray = .ok (.arrayStart place) := if_pos shallow

theorem begin_openObject {place : Place} (shallow : place.depth + 1 < limit) :
    place.begin limit .openObject = .ok (.objectStart place) := if_pos shallow

mutual

/-- From the tokens of a value its place gets the value. -/
theorem run_tokens {state : State} {place : Place} (awaits : state.Awaits limit place) (v : Json)
    (shallow : place.depth + v.depth < limit) (ts : List Token) :
    state.run limit (v.tokens ++ ts) = (place.put v).run limit ts := by
  match v with
  | .null | .bool _ | .int _ | .float _ | .string _ => exact run_cons (awaits _ nofun)
  | .array [] =>
      rw [depth, depthOfItems] at shallow
      have opened := (awaits .openArray nofun).trans (begin_openArray shallow)
      exact (run_cons opened).trans (run_cons rfl)
  | .array (v :: vs) =>
      rw [depth] at shallow
      have opened := (awaits .openArray nofun).trans (begin_openArray (by omega))
      have inside := run_itemTokens (awaits_arrayStart limit place) (v :: vs) (by omega) nofun ts
      simp only [tokens, List.cons_append, List.append_assoc, List.nil_append]
      exact (run_cons opened).trans inside
  | .object [] =>
      rw [depth, depthOfEntries] at shallow
      have opened := (awaits .openObject nofun).trans (begin_openObject shallow)
      exact (run_cons opened).trans (run_cons rfl)
  | .object (entry :: entries) =>
      rw [depth] at shallow
      have opened := (awaits .openObject nofun).trans (begin_openObject (by omega))
      have inside :=
        run_entryTokens (awaitsKey_objectStart limit place) (entry :: entries) (by omega) nofun ts
      simp only [tokens, List.cons_append, List.append_assoc, List.nil_append]
      exact (run_cons opened).trans inside

theorem run_itemTokens {state : State} {done : List Json} {outer : Place}
    (awaits : state.Awaits limit (.item done outer)) (items : List Json)
    (shallow : outer.depth + 1 + depthOfItems items < limit) (filled : items ≠ [])
    (ts : List Token) :
    state.run limit (itemTokens items ++ .closeArray :: ts) =
      (outer.put (.array (done.reverse ++ items))).run limit ts := by
  match items with
  | [v] =>
      rw [depthOfItems] at shallow
      have value := run_tokens awaits v (by rw [Place.depth]; omega)
      rw [itemTokens, value]
      refine (run_cons rfl).trans ?_
      rw [List.reverse_cons]
  | v :: w :: vs =>
      rw [depthOfItems] at shallow
      have value := run_tokens awaits v (by rw [Place.depth]; omega)
      have others := run_itemTokens (awaits_value limit (.item (v :: done) outer)) (w :: vs)
        (by omega) nofun ts
      rw [itemTokens, List.append_assoc, value]
      · refine (run_cons rfl).trans (others.trans ?_)
        rw [List.reverse_cons, List.append_assoc]
        rfl
      · exact nofun

theorem run_entryTokens {state : State} {done : List (String × Json)} {outer : Place}
    (awaits : state.AwaitsKey limit done outer) (entries : List (String × Json))
    (shallow : outer.depth + 1 + depthOfEntries entries < limit) (filled : entries ≠ [])
    (ts : List Token) :
    state.run limit (entryTokens entries ++ .closeObject :: ts) =
      (outer.put (.object (done.reverse ++ entries))).run limit ts := by
  match entries with
  | [(key, v)] =>
      rw [depthOfEntries] at shallow
      have named := awaits (.string key) nofun
      have value := run_tokens (awaits_value limit (.member done key outer)) v
        (by rw [Place.depth]; omega)
      simp only [entryTokens, List.cons_append]
      refine (run_cons named).trans ((run_cons rfl).trans ((value _).trans ?_))
      refine (run_cons rfl).trans ?_
      rw [List.reverse_cons]
  | (key, v) :: entry :: entries =>
      rw [depthOfEntries] at shallow
      have named := awaits (.string key) nofun
      have value := run_tokens (awaits_value limit (.member done key outer)) v
        (by rw [Place.depth]; omega)
      have others := run_entryTokens (awaitsKey_nextKey limit ((key, v) :: done) outer)
        (entry :: entries) (by omega) nofun ts
      simp only [entryTokens, List.cons_append, List.append_assoc]
      refine (run_cons named).trans ((run_cons rfl).trans ((value _).trans ?_))
      refine (run_cons rfl).trans (others.trans ?_)
      rw [List.reverse_cons, List.append_assoc]
      rfl

end

theorem read_text {v : Json} (readsBack : v.ReadsBack) (shallow : v.depth < depthLimit) :
    read v.text = .ok v := by
  have scanned := scan_render readsBack endsNumber_nil
  rw [List.append_nil] at scanned
  rw [read, readTokens, text, String.toList_ofList, scanned,
    run_tokens (awaits_value depthLimit .top) v (by rw [Place.depth]; omega), scan]
  rfl

theorem ofText_text_eq {α : Type} (known : List String) (decode : Json → Decoded α) {v : Json}
    (readsBack : v.ReadsBack) (shallow : v.depth < depthLimit) :
    ofText known decode v.text = decode v := by
  rw [ofText, read_text readsBack shallow]

end HtmlToMarkdown.Json
