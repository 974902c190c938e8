import TgWsProxy.Config
import TgWsProxy.Core.Transition

/-!
# Loading a saved configuration

A configuration that has come out of `from_value` is settled: its lists of domains
are normal and none of its unknown keys is the name of a field. Its serialised form
is read back as itself. So of a saved file only the size limit of `load` and the
floating-point numbers among the unknown keys decide whether it can be loaded.
-/

namespace TgWsProxy

open TgWsProxy.Core

namespace Config

/-! ## The serialised form is read back -/

/-- The keys that are written do not depend on the configuration. -/
theorem map_fst_fields (cfg : Config) : cfg.fields.map (·.1) = (fields {}).map (·.1) := rfl

/-- No key is written twice. -/
theorem nodup_fields (cfg : Config) : (cfg.fields.map (·.1)).Nodup := by
  rw [map_fst_fields]
  decide

private theorem readU16_toUInt64 (n : UInt16) : readU16 (.number (.nat n.toUInt64)) = some n := by
  simp [readU16, n.toNat_lt]

private theorem readStrings_map (texts : List String) :
    readStrings (.array (texts.map .string)) = some texts := by
  induction texts with
  | nil => rfl
  | cons text texts ih =>
    simp only [readStrings] at ih
    simp [readStrings, ih, Json.asStr]

/-- No unknown key is the name of a field. -/
def Separate (cfg : Config) : Prop := ∀ key ∈ fieldNames, cfg.extra[key]? = none

/-- Each field is found under its name. -/
theorem Separate.getElem?_toMap {cfg : Config} (h : cfg.Separate) :
    ∀ e ∈ cfg.fields, cfg.toMap[e.1]? = some e.2 := by
  intro e he
  have hname : e.1 ∈ fieldNames := by
    rw [fieldNames, ← map_fst_fields cfg]
    exact List.mem_append_left _ (List.mem_map_of_mem he)
  rw [toMap, getElem?_insertMany_toList, h e.1 hname, Option.none_or]
  exact getElem?_ofList_of_nodup (nodup_fields cfg) he

/-- Beside the fields stand only the unknown keys. -/
theorem getElem?_toMap_of_notMem (cfg : Config) {key : String}
    (hkey : key ∉ (fields {}).map (·.1)) : cfg.toMap[key]? = cfg.extra[key]? := by
  have hnone : (Std.ExtTreeMap.ofList cfg.fields : JsonMap)[key]? = none := by
    by_contra hsome
    obtain ⟨v, hv⟩ := Option.ne_none_iff_exists'.mp hsome
    apply hkey
    rw [← map_fst_fields cfg]
    exact List.mem_map_of_mem (mem_of_getElem?_ofList hv)
  rw [toMap, getElem?_insertMany_toList, hnone, Option.or_none]

/-- The known fields are read back. -/
theorem Separate.readFields_toMap {cfg : Config} (h : cfg.Separate)
    (hkeys : ∀ e ∈ cfg.dcRedirects.toList, readKey (toString e.1) = some e.1) :
    readFields cfg.toMap = some { cfg with extra := ∅ } := by
  have hfields := h.getElem?_toMap
  simp only [fields, List.forall_mem_cons] at hfields
  have halias {key : String} (hkey : key ∈ ["h2", "no_secure"])
      (hnotMem : key ∉ (fields {}).map (·.1)) : cfg.toMap[key]? = none := by
    rw [getElem?_toMap_of_notMem cfg hnotMem]
    exact h key (List.mem_append_right _ hkey)
  have hh2 := halias (List.mem_cons_self ..) (by decide)
  have hsecure := halias (List.mem_cons_of_mem _ (List.mem_singleton_self _)) (by decide)
  have hredirects : readRedirects (.ofMap (encodeMap toString Json.string cfg.dcRedirects)) =
      some cfg.dcRedirects := decodeMap_encodeMap hkeys fun _ _ => rfl
  simp [readFields, field, aliasedField, hfields, hh2, hsecure, hredirects, readU16_toUInt64,
    readStrings_map, readBool, readU64, Json.asStr]

/-- So is all of the configuration. -/
theorem Separate.ofMap_toMap {cfg : Config} (h : cfg.Separate)
    (hkeys : ∀ e ∈ cfg.dcRedirects.toList, readKey (toString e.1) = some e.1) :
    ofMap cfg.toMap = some cfg := by
  have hextra : cfg.toMap.filter (fun key _ => key ∉ fieldNames) = cfg.extra := by
    apply Std.ExtTreeMap.ext_getElem?
    intro key
    rw [Std.ExtTreeMap.getElem?_filter']
    by_cases hkey : key ∈ fieldNames
    · rw [h key hkey]
      simp [hkey]
    · rw [getElem?_toMap_of_notMem cfg fun hmem => hkey (List.mem_append_left _ hmem)]
      cases cfg.extra[key]? <;> simp [hkey]
  rw [ofMap, h.readFields_toMap hkeys, Option.map_some, hextra]

/-! ## What has come out of `from_value` -/

/-- The keys of the legacy lists. -/
def legacyKeys : List String := ["cfproxy_user_domain", "cfproxy_worker_domain"]

/-- A configuration as `from_value` leaves it. -/
structure Settled (cfg : Config) : Prop where
  separate : cfg.Separate
  migrated : ∀ key ∈ legacyKeys, cfg.extra[key]? = none
  userDomains : NormalDomains cfg.cfproxyUserDomains
  workerDomains : NormalDomains cfg.cfproxyWorkerDomains

/-- Migration touches only the two keys. -/
theorem getElem?_migrate (map : JsonMap) {old new key : String} (hkey : key ≠ new) :
    (migrate map old new)[key]? = if key = old then none else map[key]? := by
  have hinsert (v : Json) : (map.insert new v)[key]? = map[key]? := by
    rw [Std.ExtTreeMap.getElem?_insert, if_neg]
    rw [Std.LawfulEqCmp.compare_eq_iff_eq]
    exact Ne.symm hkey
  simp only [migrate]
  rw [Std.ExtTreeMap.getElem?_erase]
  by_cases hold : key = old
  · rw [if_pos hold, if_pos (by rw [hold]; exact Std.ReflCmp.compare_self)]
  · rw [if_neg hold, if_neg (by rw [Std.LawfulEqCmp.compare_eq_iff_eq]; exact Ne.symm hold)]
    by_cases hnew : map.contains new
    · rw [if_pos hnew]
    · rw [if_neg hnew]
      cases map[old]?.bind Json.asStr with
      | none => rfl
      | some text => exact hinsert _

/-- A map without a legacy text stays as it is. -/
theorem migrate_eq_self {map : JsonMap} {old : String} (hold : map[old]? = none) (new : String) :
    migrate map old new = map := by
  have herase : map.erase old = map := by
    apply Std.ExtTreeMap.ext_getElem?
    intro key
    rw [Std.ExtTreeMap.getElem?_erase]
    by_cases hkey : compare old key = .eq
    · rw [if_pos hkey, ← Std.LawfulEqCmp.compare_eq_iff_eq.mp hkey, hold]
    · rw [if_neg hkey]
  simp only [migrate, hold, Option.bind_none]
  rw [ite_self, herase]

private theorem migrateAll_eq_self {map : JsonMap} (h : ∀ key ∈ legacyKeys, map[key]? = none) :
    migrateAll map = map := by
  have huser := h "cfproxy_user_domain" (by decide)
  have hworker := h "cfproxy_worker_domain" (by decide)
  rw [migrateAll, migrate_eq_self huser, migrate_eq_self hworker]

/-- Of the unknown keys, only the legacy ones are migrated away. -/
theorem getElem?_migrateAll (map : JsonMap) {key : String} (hkey : key ∉ fieldNames) :
    (migrateAll map)[key]? = if key ∈ legacyKeys then none else map[key]? := by
  have huser : key ≠ "cfproxy_user_domains" := by
    rintro rfl
    exact hkey (by decide)
  have hworker : key ≠ "cfproxy_worker_domains" := by
    rintro rfl
    exact hkey (by decide)
  rw [migrateAll, getElem?_migrate _ hworker, getElem?_migrate _ huser]
  by_cases hfirst : key = "cfproxy_user_domain" <;>
    by_cases hsecond : key = "cfproxy_worker_domain" <;> simp [legacyKeys, hfirst, hsecond]

variable {serde : SerdeJson} {cfg : Config}

/-- The parts of a `from_value` that succeeds. -/
theorem fromValue_eq_ok {value : Json} :
    fromValue serde value = .ok cfg ↔ ∃ map c, value.asObject = some map ∧
      ofMap (migrateAll map) = some c ∧ cfg = { c with
        cfproxyUserDomains := normalizeDomains c.cfproxyUserDomains
        cfproxyWorkerDomains := normalizeDomains c.cfproxyWorkerDomains } ∧
      cfg.validate = .ok () := by
  constructor
  · intro h
    rw [fromValue] at h
    cases hmap : value.asObject with
    | none => simp [hmap] at h
    | some map =>
      cases hread : ofMap (migrateAll map) with
      | none => simp [hmap, hread] at h
      | some c =>
        simp only [hmap, hread] at h
        obtain ⟨⟨⟩, hvalid, rfl⟩ := map_eq_ok.mp h
        exact ⟨map, c, rfl, hread, rfl, hvalid⟩
  · rintro ⟨map, c, hmap, hread, hcfg, hvalid⟩
    rw [fromValue, hmap]
    dsimp only
    rw [hread]
    dsimp only
    rw [← hcfg, hvalid]
    rfl

/-- The unknown keys of a configuration are those of the object that it was read from. -/
theorem fromValue_extra {value : Json} (h : fromValue serde value = .ok cfg) :
    ∃ map, value.asObject = some map ∧ ∀ key, cfg.extra[key]? =
      if key ∈ fieldNames ∨ key ∈ legacyKeys then none else map[key]? := by
  obtain ⟨map, c, hmap, hread, rfl, -⟩ := fromValue_eq_ok.mp h
  refine ⟨map, hmap, fun key => ?_⟩
  rw [ofMap] at hread
  obtain ⟨c', -, rfl⟩ := Option.map_eq_some_iff.mp hread
  rw [Std.ExtTreeMap.getElem?_filter']
  by_cases hkey : key ∈ fieldNames
  · simp [hkey]
  · rw [getElem?_migrateAll map hkey]
    by_cases hlegacy : key ∈ legacyKeys
    · simp [hlegacy]
    · cases map[key]? <;> simp [hkey, hlegacy]

/-- What `from_value` gives is settled. -/
theorem fromValue_settled {value : Json} (h : fromValue serde value = .ok cfg) : cfg.Settled := by
  obtain ⟨map, -, hextra⟩ := fromValue_extra h
  obtain ⟨-, c, -, -, rfl, -⟩ := fromValue_eq_ok.mp h
  refine ⟨fun key hkey => ?_, fun key hkey => ?_, normalDomains_normalizeDomains _,
    normalDomains_normalizeDomains _⟩
  · rw [hextra, if_pos (.inl hkey)]
  · rw [hextra, if_pos (.inr hkey)]

/-- A valid configuration names only known data centres, whose numbers are read back. -/
theorem readKey_of_validate (h : cfg.validate = .ok ()) :
    ∀ e ∈ cfg.dcRedirects.toList, readKey (toString e.1) = some e.1 := by
  have hknown : ∀ dc ∈ knownDcs, readKey (toString dc) = some dc := by decide
  exact fun e he => hknown e.1 (mem_knownDcs h e he)

/-- What `from_value` has returned, it returns again for its serialised form. -/
theorem Settled.fromValue_toMap (h : cfg.Settled) (hvalid : cfg.validate = .ok ()) :
    fromValue serde (.ofMap cfg.toMap) = .ok cfg := by
  have hmigrated : migrateAll cfg.toMap = cfg.toMap := by
    apply migrateAll_eq_self
    intro key hkey
    have hnotMem : ∀ key ∈ legacyKeys, key ∉ (fields {}).map (·.1) := by decide
    rw [getElem?_toMap_of_notMem cfg (hnotMem key hkey)]
    exact h.migrated key hkey
  rw [fromValue_eq_ok]
  refine ⟨cfg.toMap, cfg, Json.asObject_ofMap _, ?_, ?_, hvalid⟩
  · rw [hmigrated]
    exact h.separate.ofMap_toMap (readKey_of_validate hvalid)
  · rw [h.userDomains.normalizeDomains_eq, h.workerDomains.normalizeDomains_eq]

/-! ## The floating-point numbers of a configuration -/

/-- No field has a floating-point number. -/
theorem floats_fields (cfg : Config) : ∀ e ∈ cfg.fields, e.2.floats = [] := by
  have hstrings (texts : List String) : Json.valueFloats (texts.map .string) = [] := by
    induction texts with
    | nil => rfl
    | cons text texts ih => simp [Json.valueFloats, Json.floats, ih]
  have hredirects : (Json.ofMap (encodeMap toString Json.string cfg.dcRedirects)).floats = [] := by
    apply Json.entryFloats_eq_nil
    intro e he
    have hmem := mem_of_getElem?_ofList (Std.ExtTreeMap.mem_toList_iff_getElem?_eq_some.mp he)
    obtain ⟨redirect, -, hredirect⟩ := List.mem_map.mp hmem
    rw [← (Prod.mk.inj hredirect).2]
    rfl
  simp only [fields, List.forall_mem_cons]
  simp [Json.floats, hstrings, hredirects]

/-- Every floating-point number among the unknown keys is read back as it is. -/
def KeepsFloats (serde : SerdeJson) (cfg : Config) : Prop :=
  ∀ (key : String) (v : Json), cfg.extra[key]? = some v →
    ∀ bits ∈ v.floats, serde.readFloat bits = some bits

/-- Then the serialised form is read back as it is. -/
theorem KeepsFloats.mapFloats_toMap (h : cfg.KeepsFloats serde) :
    (Json.ofMap cfg.toMap).mapFloats serde.readFloat = some (.ofMap cfg.toMap) := by
  apply Json.mapFloats_ofMap_self
  intro key v hv
  apply (Json.mapFloats_eq_self v).mpr
  rw [toMap, getElem?_insertMany_toList, Option.or_eq_some_iff] at hv
  rcases hv with hv | ⟨-, hv⟩
  · exact h key v hv
  · intro bits hbits
    rw [floats_fields cfg _ (mem_of_getElem?_ofList hv)] at hbits
    cases hbits

/-- Where a value read back gives the configuration, its unknown keys have kept theirs. -/
theorem keepsFloats_of_fromValue {v : Json}
    (hv : (Json.ofMap cfg.toMap).mapFloats serde.readFloat = some v)
    (h : fromValue serde v = .ok cfg) : cfg.KeepsFloats serde := by
  intro key value hvalue
  obtain ⟨map, hmap, hextra⟩ := fromValue_extra h
  obtain ⟨map', hmap', hget⟩ := Json.mapFloats_ofMap hv
  obtain rfl := Option.some.inj (hmap.symm.trans hmap')
  have hfound := hextra key
  rw [hvalue] at hfound
  have hunknown : ¬(key ∈ fieldNames ∨ key ∈ legacyKeys) := by
    intro hknown
    rw [if_pos hknown] at hfound
    cases hfound
  have hentry : cfg.toMap[key]? = some value := by
    rw [getElem?_toMap_of_notMem cfg fun hmem => hunknown (.inl (List.mem_append_left _ hmem))]
    exact hvalue
  rw [if_neg hunknown, hget, hentry] at hfound
  exact (Json.mapFloats_eq_self value).mp hfound.symm

end Config

open Config

/-! ## Changes by the panel -/

/-- `hex`. -/
def hex (bytes : Bytes) : String :=
  String.ofList (bytes.flatMap fun byte =>
    [Nat.digitChar (byte.toNat / 16), Nat.digitChar (byte.toNat % 16)])

/-- What a request to the panel may ask of the configuration: a patch, or a new secret from
these random bytes. -/
inductive PanelAction
  | patch (body : Bytes)
  | secret (bytes : Block 16)

/-- The largest body that `read_request` takes. -/
def maxBody : Nat := 32768

/-- The configurations that come from a loaded one by requests that are accepted. -/
def panelSystem (serde : SerdeJson) : System Config PanelAction where
  start cfg := ∃ data, load serde data = .ok cfg
  step cfg
    | .patch body => if body.length ≤ maxBody then (mergeConfig serde cfg body).toOption else none
    | .secret bytes => some { cfg with secret := hex bytes.val }

variable {serde : SerdeJson} {cfg : Config}

/-- So is what `load` gives. -/
theorem load_settled {data : Bytes} (h : load serde data = .ok cfg) : cfg.Settled := by
  rw [load] at h
  split at h
  · cases h
  · cases hparse : serde.fromSlice data with
    | error e => simp [hparse] at h
    | ok value =>
      rw [hparse] at h
      exact fromValue_settled h

/-- And what a patch gives. -/
theorem mergeConfig_settled {body : Bytes} {cfg' : Config}
    (h : mergeConfig serde cfg body = .ok cfg') : cfg'.Settled := by
  rw [mergeConfig] at h
  cases hparse : serde.fromSlice body with
  | error e => simp [hparse] at h
  | ok patch =>
    cases hmap : patch.asObject with
    | none => simp [hparse, hmap] at h
    | some map =>
      simp only [hparse, hmap] at h
      exact fromValue_settled h

/-- However often the configuration has been changed, it is settled. -/
theorem settled_of_reachable (h : (panelSystem serde).Reachable cfg) : cfg.Settled := by
  apply h.invariant
  · rintro cfg ⟨data, hload⟩
    exact load_settled hload
  · intro cfg action cfg' hcfg hst
    cases action with
    | patch body =>
      obtain ⟨-, hst⟩ := Option.ite_none_right_eq_some.mp hst
      cases hmerge : mergeConfig serde cfg body with
      | error e =>
        rw [hmerge] at hst
        cases hst
      | ok cfg'' =>
        rw [hmerge] at hst
        obtain rfl := Option.some.inj hst
        exact mergeConfig_settled hmerge
    | secret bytes =>
      obtain rfl := Option.some.inj hst
      exact ⟨hcfg.separate, hcfg.migrated, hcfg.userDomains, hcfg.workerDomains⟩

/-- `serde_json` reads the text that it prints for a configuration as the serialised form, up to
the floating-point numbers, and refuses it where one of them is out of range. -/
structure SerdeJson.ReadsBack (serde : SerdeJson) (cfg : Config) : Prop where
  ok : ∀ v, (Json.ofMap cfg.toMap).mapFloats serde.readFloat = some v →
    serde.fromSlice (serde.toPretty cfg ++ [10]) = .ok v
  error : (Json.ofMap cfg.toMap).mapFloats serde.readFloat = none →
    ∃ e, serde.fromSlice (serde.toPretty cfg ++ [10]) = .error e

/-- A saved configuration is loaded again just where its text has room in a file that may be
loaded and its floating-point numbers are read back. -/
theorem savedLoads_iff (h : (panelSystem serde).Reachable cfg) {file : Bytes}
    (hsave : save serde cfg = .ok file) (hread : serde.ReadsBack cfg) :
    load serde file = .ok cfg ↔
      (serde.toPretty cfg).length < 65536 ∧ cfg.KeepsFloats serde := by
  obtain ⟨⟨⟩, hvalid, rfl⟩ := map_eq_ok.mp hsave
  have hsettled := settled_of_reachable h
  rw [load, List.length_append, List.length_singleton]
  by_cases hsize : (serde.toPretty cfg).length + 1 > 65536
  · rw [if_pos hsize]
    constructor
    · intro hload
      cases hload
    · rintro ⟨hlt, -⟩
      omega
  · rw [if_neg hsize]
    constructor
    · intro hload
      refine ⟨by omega, ?_⟩
      cases hv : (Json.ofMap cfg.toMap).mapFloats serde.readFloat with
      | none =>
        obtain ⟨e, he⟩ := hread.error hv
        rw [he] at hload
        cases hload
      | some v =>
        rw [hread.ok v hv] at hload
        exact keepsFloats_of_fromValue hv hload
    · rintro ⟨-, hfloats⟩
      rw [hread.ok _ hfloats.mapFloats_toMap]
      exact hsettled.fromValue_toMap hvalid

/-! ## A patch of zeros -/

/-- The bytes of a text. -/
def utf8 (text : String) : Bytes := text.toUTF8.data.toList

/-- A byte inside a JSON string. -/
def escapeByte (b : UInt8) : Bytes :=
  if b = 34 ∨ b = 92 then [92, b]
  else if b = 8 then utf8 "\\b"
  else if b = 9 then utf8 "\\t"
  else if b = 10 then utf8 "\\n"
  else if b = 12 then utf8 "\\f"
  else if b = 13 then utf8 "\\r"
  else if b < 32 then utf8 "\\u00" ++ utf8 (hex [b])
  else [b]

/-- A JSON string. -/
def quote (text : String) : Bytes := 34 :: (utf8 text).flatMap escapeByte ++ [34]

/-- Items with commas between them. -/
def joinItems : List Bytes → Bytes
  | [] => []
  | [item] => item
  | item :: items => item ++ 44 :: joinItems items

/-- An array or object: each item on a line of its own, indented by two spaces more. -/
def bracket (opening closing : UInt8) (indent : Nat) (items : List Bytes) : Bytes :=
  if items = [] then [opening, closing]
  else
    opening :: joinItems (items.map fun item => 10 :: List.replicate (indent + 2) 32 ++ item) ++
      10 :: List.replicate indent 32 ++ [closing]

mutual

/-- The text of a value in the pretty format, for a printer of floating-point numbers. -/
def prettyValue (float : UInt64 → Bytes) (indent : Nat) : Json → Bytes
  | .null => utf8 "null"
  | .bool b => utf8 (toString b)
  | .number (.nat n) => utf8 (toString n.toNat)
  | .number (.negative n) => utf8 (toString n.toInt)
  | .number (.float bits) => float bits
  | .string text => quote text
  | .array values => bracket 91 93 indent (prettyValues float (indent + 2) values)
  | .object entries => bracket 123 125 indent (prettyEntries float (indent + 2) entries)

/-- The elements of an array. -/
def prettyValues (float : UInt64 → Bytes) (indent : Nat) : List Json → List Bytes
  | [] => []
  | v :: vs => prettyValue float indent v :: prettyValues float indent vs

/-- The entries of an object. -/
def prettyEntries (float : UInt64 → Bytes) (indent : Nat) : List (String × Json) → List Bytes
  | [] => []
  | (k, v) :: es =>
    (quote k ++ utf8 ": " ++ prettyValue float indent v) :: prettyEntries float indent es

end

/-- The text of a configuration without floating-point numbers, whose data centres have one
digit. -/
def prettyText (cfg : Config) : Bytes :=
  prettyValue (fun _ => []) 0 (.object (cfg.fields ++ cfg.extra.toList))

/-- A configuration with nothing but a secret. -/
def secretConfig : Config := { secret := "00112233445566778899aabbccddeeff" }

/-- A file of it. -/
def secretText : Bytes := utf8 "\x7b\"secret\":\"00112233445566778899aabbccddeeff\"\x7d"

/-- What stands in the file. -/
def secretMap : JsonMap :=
  .ofList [("secret", Json.string "00112233445566778899aabbccddeeff")]

/-- An array of zeros. -/
def zeros (n : Nat) : Json := .array (List.replicate n (.number (.nat 0)))

/-- A patch that puts zeros under an unknown key. -/
def zerosPatch (n : Nat) : Bytes :=
  utf8 "\x7b\"x\":[0" ++ (List.replicate n (utf8 ",0")).flatten ++ utf8 "]\x7d"

/-- What comes of it. -/
def zerosConfig (n : Nat) : Config :=
  { secretConfig with extra := .ofList [("x", zeros (n + 1))] }

/-- A `serde_json` for the texts of these configurations. -/
def zerosSerde (n : Nat) : SerdeJson where
  fromSlice text :=
    if text = secretText then .ok (.ofMap secretMap)
    else if text = zerosPatch n then .ok (.ofMap (zerosConfig n).extra)
    else if text = prettyText (zerosConfig n) ++ [10] then .ok (.ofMap (zerosConfig n).toMap)
    else .error "expected value"
  toPretty := prettyText
  readFloat := some
  refusal _ := "invalid type"

/-- The file has no other key than `secret`. -/
theorem getElem?_secretMap {key : String} (hkey : key ≠ "secret") : secretMap[key]? = none := by
  rw [secretMap, ← List.nil_append [_], getElem?_ofList_concat, if_neg]
  · rfl
  · rw [Std.LawfulEqCmp.compare_eq_iff_eq]
    exact Ne.symm hkey

private theorem ofMap_secretMap : ofMap secretMap = some secretConfig := by
  have hextra : secretMap.filter (fun key _ => key ∉ fieldNames) = ∅ := by
    apply Std.ExtTreeMap.ext_getElem?
    intro key
    rw [Std.ExtTreeMap.getElem?_filter']
    by_cases hkey : key = "secret"
    · have hmem : key ∈ fieldNames := by
        rw [hkey]
        decide
      simp [hmem]
    · simp [getElem?_secretMap hkey]
  rw [ofMap, hextra]
  simp [readFields, field, aliasedField, Json.asStr, secretMap, secretConfig]

/-- The configuration with a secret is valid. -/
theorem validate_secretConfig : secretConfig.validate = .ok () := by
  decide

private theorem validate_zerosConfig (n : Nat) : (zerosConfig n).validate = .ok () :=
  validate_secretConfig

/-- Its text is read as it. -/
theorem load_secretText (n : Nat) : load (zerosSerde n) secretText = .ok secretConfig := by
  have hsize : ¬secretText.length > 65536 := by decide
  have hparse : (zerosSerde n).fromSlice secretText = .ok (.ofMap secretMap) := by
    rw [zerosSerde]
    dsimp only
    rw [if_pos rfl]
  have hmigrated : migrateAll secretMap = secretMap := by
    apply migrateAll_eq_self
    have hnames : ∀ key ∈ legacyKeys, key ≠ "secret" := by decide
    exact fun key hkey => getElem?_secretMap (hnames key hkey)
  rw [load, if_neg hsize, hparse]
  apply fromValue_eq_ok.mpr
  refine ⟨secretMap, secretConfig, Json.asObject_ofMap _, ?_, rfl, validate_secretConfig⟩
  rw [hmigrated]
  exact ofMap_secretMap

/-- The patch adds its key to the serialised form. -/
theorem toMap_zerosConfig (n : Nat) :
    (zerosConfig n).toMap = secretConfig.toMap.insertMany (zerosConfig n).extra.toList := by
  have hempty : secretConfig.toMap = .ofList secretConfig.fields := by
    apply Std.ExtTreeMap.ext_getElem?
    intro key
    rw [toMap, getElem?_insertMany_toList]
    simp [secretConfig]
  rw [hempty]
  rfl

private theorem settled_zerosConfig (n : Nat) : (zerosConfig n).Settled := by
  have hextra {key : String} (hkey : key ≠ "x") : (zerosConfig n).extra[key]? = none := by
    simp [zerosConfig, Ne.symm hkey, Std.LawfulEqCmp.compare_eq_iff_eq]
  have hnames : ∀ key ∈ fieldNames ++ legacyKeys, key ≠ "x" := by decide
  refine ⟨fun key hkey => ?_, fun key hkey => ?_, ?_, ?_⟩
  · exact hextra (hnames key (List.mem_append_left _ hkey))
  · exact hextra (hnames key (List.mem_append_right _ hkey))
  · exact ⟨List.nodup_nil, by simp [zerosConfig, secretConfig]⟩
  · exact ⟨List.nodup_nil, by simp [zerosConfig, secretConfig]⟩

/-! ### The texts are told apart -/

private theorem zerosPatch_ne_secretText (n : Nat) : zerosPatch n ≠ secretText := by
  intro h
  have hthird := congrArg (·[2]?) h
  cases hthird

private theorem bracket_second (opening closing : UInt8) (indent : Nat) (item item' : Bytes)
    (items : List Bytes) :
    (bracket opening closing indent (item :: item' :: items))[1]? = some 10 := by
  rw [bracket, if_neg (List.cons_ne_nil _ _), List.map_cons, List.map_cons, joinItems]
  · rfl
  · exact List.cons_ne_nil _ _

/-- A configuration is printed on several lines. -/
theorem prettyText_second (cfg : Config) : (prettyText cfg)[1]? = some 10 := by
  rw [prettyText, prettyValue, fields, List.cons_append, List.cons_append, prettyEntries,
    prettyEntries]
  exact bracket_second ..

private theorem fromSlice_zerosPatch (n : Nat) :
    (zerosSerde n).fromSlice (zerosPatch n) = .ok (.ofMap (zerosConfig n).extra) := by
  rw [zerosSerde]
  dsimp only
  rw [if_neg (zerosPatch_ne_secretText n), if_pos rfl]

private theorem fromSlice_prettyText (n : Nat) :
    (zerosSerde n).fromSlice (prettyText (zerosConfig n) ++ [10]) =
      .ok (.ofMap (zerosConfig n).toMap) := by
  have hne {text : Bytes} (htext : text[1]? = some 34) :
      prettyText (zerosConfig n) ++ [10] ≠ text := by
    rintro rfl
    rw [List.getElem?_append_left] at htext
    · rw [prettyText_second] at htext
      cases htext
    · exact (List.getElem?_eq_some_iff.mp (prettyText_second (zerosConfig n))).1
  rw [zerosSerde]
  dsimp only
  rw [if_neg (hne rfl), if_neg (hne rfl), if_pos rfl]

/-! ### The run -/

private theorem length_zerosPatch (n : Nat) : (zerosPatch n).length = 2 * n + 9 := by
  have hopening : (utf8 "\x7b\"x\":[0").length = 7 := by decide
  have hitem : (utf8 ",0").length = 2 := by decide
  have hclosing : (utf8 "]\x7d").length = 2 := by decide
  simp [zerosPatch, hopening, hitem, hclosing]
  omega

/-- The patch is merged to the configuration of zeros. -/
theorem mergeConfig_zerosPatch (n : Nat) :
    mergeConfig (zerosSerde n) secretConfig (zerosPatch n) = .ok (zerosConfig n) := by
  rw [mergeConfig, fromSlice_zerosPatch]
  dsimp only
  rw [Json.asObject_ofMap]
  dsimp only
  rw [← toMap_zerosConfig]
  exact (settled_zerosConfig n).fromValue_toMap (validate_zerosConfig n)

/-- The panel leads to the zeros. -/
theorem reachable_zerosConfig {n : Nat} (hn : 2 * n + 9 ≤ maxBody) :
    (panelSystem (zerosSerde n)).Reachable (zerosConfig n) := by
  have hstart : (panelSystem (zerosSerde n)).Reachable secretConfig :=
    .start ⟨secretText, load_secretText n⟩
  apply hstart.step
  · show (panelSystem (zerosSerde n)).step secretConfig (.patch (zerosPatch n)) = _
    simp only [panelSystem]
    rw [if_pos (by rwa [length_zerosPatch]), mergeConfig_zerosPatch]
    rfl

/-- Which is saved as its text. -/
theorem save_zerosConfig (n : Nat) :
    save (zerosSerde n) (zerosConfig n) = .ok (prettyText (zerosConfig n) ++ [10]) := by
  rw [save, validate_zerosConfig]
  rfl

/-- And reads back from it. -/
theorem readsBack_zerosSerde (n : Nat) : (zerosSerde n).ReadsBack (zerosConfig n) := by
  have hfloats : (zerosConfig n).KeepsFloats (zerosSerde n) := fun _ _ _ _ _ => rfl
  constructor
  · intro v hv
    rw [hfloats.mapFloats_toMap] at hv
    rw [← Option.some.inj hv]
    exact fromSlice_prettyText n
  · intro hnone
    rw [hfloats.mapFloats_toMap] at hnone
    cases hnone

/-! ### The length of its text -/

private theorem length_le_joinItems {items : List Bytes} {item : Bytes} (h : item ∈ items) :
    item.length ≤ (joinItems items).length := by
  induction items using joinItems.induct with
  | case1 => cases h
  | case2 first =>
    rw [List.mem_singleton.mp h]
    exact Nat.le_refl _
  | case3 first items hne ih =>
    rw [joinItems]
    · rw [List.length_append, List.length_cons]
      rcases List.mem_cons.mp h with rfl | h
      · omega
      · have := ih h
        omega
    · exact hne

private theorem mul_le_length_joinItems (n : Nat) (item : Bytes) :
    n * item.length ≤ (joinItems (List.replicate n item)).length := by
  induction n with
  | zero => simp
  | succ n ih =>
    cases n with
    | zero => simp [joinItems]
    | succ n =>
      rw [List.replicate_succ, joinItems]
      · rw [List.length_append, List.length_cons, Nat.succ_mul]
        omega
      · exact List.cons_ne_nil _ _

/-- Each item is on a line of its own. -/
theorem length_joinItems_le_bracket (opening closing : UInt8) (indent : Nat) (items : List Bytes) :
    (joinItems (items.map fun item => 10 :: List.replicate (indent + 2) 32 ++ item)).length ≤
      (bracket opening closing indent items).length := by
  by_cases hitems : items = []
  · rw [hitems]
    exact Nat.zero_le _
  · rw [bracket, if_neg hitems, List.append_assoc, List.length_append, List.length_cons]
    omega

private theorem prettyValues_replicate (float : UInt64 → Bytes) (indent n : Nat) (v : Json) :
    prettyValues float indent (List.replicate n v) =
      List.replicate n (prettyValue float indent v) := by
  induction n with
  | zero => rfl
  | succ n ih => rw [List.replicate_succ, prettyValues, ih, List.replicate_succ]

private theorem mem_prettyEntries (float : UInt64 → Bytes) (indent : Nat)
    {es : List (String × Json)}
    {key : String} {v : Json} (h : (key, v) ∈ es) :
    quote key ++ utf8 ": " ++ prettyValue float indent v ∈ prettyEntries float indent es := by
  induction es with
  | nil => cases h
  | cons e es ih =>
    rw [prettyEntries]
    rcases List.mem_cons.mp h with rfl | h
    · exact List.mem_cons_self ..
    · exact List.mem_cons_of_mem _ (ih h)

/-- Six bytes for each zero. -/
theorem length_prettyValue_zeros (float : UInt64 → Bytes) (n : Nat) :
    6 * n ≤ (prettyValue float 2 (zeros n)).length := by
  have hline : (10 :: List.replicate (2 + 2) 32 ++ utf8 "0" : Bytes).length = 6 := by decide
  have hjoin := mul_le_length_joinItems n (10 :: List.replicate (2 + 2) 32 ++ utf8 "0")
  rw [hline, Nat.mul_comm, ← List.map_replicate] at hjoin
  rw [zeros, prettyValue, prettyValues_replicate]
  exact Nat.le_trans hjoin (length_joinItems_le_bracket 91 93 2 _)

/-- Every zero of the list takes six bytes of the text. -/
theorem length_prettyText_zerosConfig (n : Nat) :
    6 * (n + 1) ≤ (prettyText (zerosConfig n)).length := by
  have hentry : ("x", zeros (n + 1)) ∈ (zerosConfig n).fields ++ (zerosConfig n).extra.toList := by
    apply List.mem_append_right
    rw [Std.ExtTreeMap.mem_toList_iff_getElem?_eq_some]
    simp [zerosConfig]
  have hitem := length_le_joinItems (List.mem_map_of_mem
    (f := fun item : Bytes => 10 :: List.replicate (0 + 2) 32 ++ item)
    (mem_prettyEntries (fun _ => []) (0 + 2) hentry))
  have hzeros : 6 * (n + 1) ≤ (prettyValue (fun _ => []) (0 + 2) (zeros (n + 1))).length :=
    length_prettyValue_zeros _ _
  have hlines := length_joinItems_le_bracket 123 125 0
    (prettyEntries (fun _ => []) (0 + 2) ((zerosConfig n).fields ++ (zerosConfig n).extra.toList))
  rw [List.length_append, List.length_append] at hitem
  rw [prettyText, prettyValue]
  omega

/-- The panel accepts a patch after which the saved file is refused for its size. -/
theorem savedLoads_counterexample :
    (panelSystem (zerosSerde 10999)).Reachable (zerosConfig 10999) ∧
      (zerosSerde 10999).ReadsBack (zerosConfig 10999) ∧
      ∃ file, save (zerosSerde 10999) (zerosConfig 10999) = .ok file ∧
        load (zerosSerde 10999) file = .error (Config.invalid "config exceeds 64 KiB") := by
  refine ⟨reachable_zerosConfig (by decide), readsBack_zerosSerde _, _, save_zerosConfig _, ?_⟩
  have hlength := length_prettyText_zerosConfig 10999
  have hsize : (prettyText (zerosConfig 10999) ++ [10]).length > 65536 := by
    rw [List.length_append]
    omega
  rw [load, if_pos hsize]

/-- A patch with two zeros is saved and loaded again. -/
theorem savedLoads_zeros :
    load (zerosSerde 1) (prettyText (zerosConfig 1) ++ [10]) = .ok (zerosConfig 1) := by
  have hfits : (prettyText (zerosConfig 1)).length < 65536 := by
    decide +kernel
  exact (savedLoads_iff (reachable_zerosConfig (by decide)) (save_zerosConfig 1)
    (readsBack_zerosSerde 1)).mpr ⟨hfits, fun _ _ _ _ _ => rfl⟩

end TgWsProxy
