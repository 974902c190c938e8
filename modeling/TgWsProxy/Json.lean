import TgWsProxy.Core.TreeMap
import TgWsProxy.Io

/-!
# JSON values

`serde_json::Value`, with a floating-point number as the bits of an `f64`, and what
becomes of a value whose floating-point numbers are printed and read again.
-/

namespace TgWsProxy

open TgWsProxy.Core

/-- `serde_json::Number`; a negative integer is below zero. -/
inductive JsonNumber
  | nat (n : UInt64)
  | negative (n : Int64)
  | float (bits : UInt64)
  deriving DecidableEq

/-- `serde_json::Value`. -/
inductive Json
  | null
  | bool (b : Bool)
  | number (n : JsonNumber)
  | string (s : String)
  | array (values : List Json)
  | object (entries : List (String × Json))

/-- `serde_json::Map`. -/
abbrev JsonMap := Std.ExtTreeMap String Json

namespace Json

/-- The value of a map. -/
def ofMap (map : JsonMap) : Json := .object map.toList

/-- `as_object`. -/
def asObject : Json → Option JsonMap
  | .object entries => some (Std.ExtTreeMap.ofList entries)
  | _ => none

@[simp] theorem asObject_ofMap (map : JsonMap) : (ofMap map).asObject = some map :=
  congrArg some (ofList_toList map)

/-- `as_str`. -/
def asStr : Json → Option String
  | .string s => some s
  | _ => none

mutual

/-- A value with its floating-point numbers replaced, none where one has no replacement. -/
def mapFloats (f : UInt64 → Option UInt64) : Json → Option Json
  | .null => some .null
  | .bool b => some (.bool b)
  | .number (.float bits) => (f bits).map fun bits => .number (.float bits)
  | .number (.nat n) => some (.number (.nat n))
  | .number (.negative n) => some (.number (.negative n))
  | .string s => some (.string s)
  | .array values => (mapFloatsValues f values).map .array
  | .object entries => (mapFloatsEntries f entries).map .object

/-- The same in the elements of an array. -/
def mapFloatsValues (f : UInt64 → Option UInt64) : List Json → Option (List Json)
  | [] => some []
  | v :: vs => (mapFloats f v).bind fun v => (mapFloatsValues f vs).map (v :: ·)

/-- The same in the entries of an object. -/
def mapFloatsEntries (f : UInt64 → Option UInt64) :
    List (String × Json) → Option (List (String × Json))
  | [] => some []
  | (k, v) :: es => (mapFloats f v).bind fun v => (mapFloatsEntries f es).map ((k, v) :: ·)

end

mutual

/-- The floating-point numbers in a value. -/
def floats : Json → List UInt64
  | .null => []
  | .bool _ => []
  | .number (.float bits) => [bits]
  | .number (.nat _) => []
  | .number (.negative _) => []
  | .string _ => []
  | .array values => valueFloats values
  | .object entries => entryFloats entries

/-- The same for the elements of an array. -/
def valueFloats : List Json → List UInt64
  | [] => []
  | v :: vs => floats v ++ valueFloats vs

/-- The same for the entries of an object. -/
def entryFloats : List (String × Json) → List UInt64
  | [] => []
  | (_, v) :: es => floats v ++ entryFloats es

end

/-- Entries without floating-point numbers. -/
theorem entryFloats_eq_nil {es : List (String × Json)} (h : ∀ e ∈ es, e.2.floats = []) :
    entryFloats es = [] := by
  induction es with
  | nil => rfl
  | cons e es ih =>
    rw [entryFloats, h e (List.mem_cons_self ..),
      ih fun e' he' => h e' (List.mem_cons_of_mem _ he')]
    rfl

variable {f : UInt64 → Option UInt64}

mutual

/-- A value stays as it is just where its floating-point numbers do. -/
theorem mapFloats_eq_self (v : Json) :
    v.mapFloats f = some v ↔ ∀ bits ∈ v.floats, f bits = some bits := by
  cases v with
  | number n => cases n <;> simp [mapFloats, floats]
  | array values => simp [mapFloats, floats, mapFloatsValues_eq_self values]
  | object entries => simp [mapFloats, floats, mapFloatsEntries_eq_self entries]
  | _ => simp [mapFloats, floats]

private theorem mapFloatsValues_eq_self (vs : List Json) :
    mapFloatsValues f vs = some vs ↔ ∀ bits ∈ valueFloats vs, f bits = some bits := by
  cases vs with
  | nil => simp [mapFloatsValues, valueFloats]
  | cons v vs =>
    simp [mapFloatsValues, valueFloats, Option.bind_eq_some_iff, or_imp, forall_and,
      mapFloats_eq_self v, mapFloatsValues_eq_self vs]

private theorem mapFloatsEntries_eq_self (es : List (String × Json)) :
    mapFloatsEntries f es = some es ↔ ∀ bits ∈ entryFloats es, f bits = some bits := by
  cases es with
  | nil => simp [mapFloatsEntries, entryFloats]
  | cons e es =>
    obtain ⟨k, v⟩ := e
    simp [mapFloatsEntries, entryFloats, Option.bind_eq_some_iff, or_imp, forall_and,
      mapFloats_eq_self v, mapFloatsEntries_eq_self es]

end

/-- The replacement acts on each entry of a map that is built up. -/
theorem getElem?_foldl_mapFloats {es es' : List (String × Json)}
    (h : mapFloatsEntries f es = some es') {map map' : JsonMap}
    (hmap : ∀ k : String, map'[k]? = map[k]?.bind (mapFloats f)) (k : String) :
    (es'.foldl (fun map e => map.insert e.1 e.2) map')[k]? =
      (es.foldl (fun map e => map.insert e.1 e.2) map)[k]?.bind (mapFloats f) := by
  induction es generalizing es' map map' with
  | nil =>
    obtain rfl := Option.some.inj h
    exact hmap k
  | cons e es ih =>
    obtain ⟨key, v⟩ := e
    simp only [mapFloatsEntries, Option.bind_eq_some_iff, Option.map_eq_some_iff] at h
    obtain ⟨v', hv, es', hes, rfl⟩ := h
    rw [List.foldl_cons, List.foldl_cons]
    apply ih hes
    intro k
    rw [Std.ExtTreeMap.getElem?_insert, Std.ExtTreeMap.getElem?_insert]
    by_cases hk : compare key k = .eq
    · rw [if_pos hk, if_pos hk]
      exact hv.symm
    · rw [if_neg hk, if_neg hk]
      exact hmap k

private theorem getElem?_mapFloatsEntries {es es' : List (String × Json)}
    (h : mapFloatsEntries f es = some es') (k : String) :
    (Std.ExtTreeMap.ofList es' : JsonMap)[k]? =
      (Std.ExtTreeMap.ofList es : JsonMap)[k]?.bind (mapFloats f) := by
  rw [Std.ExtTreeMap.ofList_eq_foldl, Std.ExtTreeMap.ofList_eq_foldl]
  exact getElem?_foldl_mapFloats h (by simp) k

/-- The replacement in the value of a map acts on each of its entries. -/
theorem mapFloats_ofMap {map : JsonMap} {v : Json} (h : (ofMap map).mapFloats f = some v) :
    ∃ map', v.asObject = some map' ∧ ∀ k : String, map'[k]? = map[k]?.bind (mapFloats f) := by
  simp only [ofMap, mapFloats, Option.map_eq_some_iff] at h
  obtain ⟨es, hes, rfl⟩ := h
  refine ⟨_, rfl, fun k => ?_⟩
  rw [getElem?_mapFloatsEntries hes, ofList_toList]

/-- A map stays as it is where the floating-point numbers of its entries do. -/
theorem mapFloats_ofMap_self {map : JsonMap}
    (h : ∀ (k : String) (v : Json), map[k]? = some v → v.mapFloats f = some v) :
    (ofMap map).mapFloats f = some (ofMap map) := by
  have hentries (es : List (String × Json)) (hes : ∀ e ∈ es, e.2.mapFloats f = some e.2) :
      mapFloatsEntries f es = some es := by
    induction es with
    | nil => rfl
    | cons e es ih =>
      simp [mapFloatsEntries, hes e (List.mem_cons_self ..),
        ih fun e' he' => hes e' (List.mem_cons_of_mem _ he')]
  rw [ofMap, mapFloats, hentries map.toList, Option.map_some]
  intro e he
  exact h e.1 e.2 (Std.ExtTreeMap.mem_toList_iff_getElem?_eq_some.mp he)

end Json

end TgWsProxy
