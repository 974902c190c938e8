import Mathlib.Data.List.DropRight
import TgWsProxy.IpAddr
import TgWsProxy.Json

/-!
# The configuration

`config.rs`: the struct with its defaults, its serialised form and its reading with
aliases and flattened unknown keys, the migration of legacy lists, normalisation and
validation. `serde_json` itself is a parameter: how it reads text, the text it prints
for a configuration, and its refusals.
-/

namespace TgWsProxy

open TgWsProxy.Core

/-- The addresses of the default `dc_redirects`. -/
def defaultRedirects : Std.ExtTreeMap Int String :=
  .ofList [((2 : Int), "149.154.167.220"), (4, "149.154.167.220")]

/-- `Config` with its defaults; `usize` is taken at 64 bits. -/
structure Config where
  host : String := "0.0.0.0"
  port : UInt16 := 1433
  webHost : String := "0.0.0.0"
  webPort : UInt16 := 1434
  secret : String := ""
  dcRedirects : Std.ExtTreeMap Int String := defaultRedirects
  bufferSize : UInt64 := 16384
  poolSize : UInt64 := 0
  maxConnections : UInt64 := 64
  connectTimeoutSecs : UInt64 := 10
  idleTimeoutSecs : UInt64 := 300
  proxyProtocol : Bool := false
  forceTestDc : Bool := false
  sniFronting : Bool := false
  cfproxy : Bool := true
  cfproxyH2Media : Bool := true
  disableSecure : Bool := false
  cfproxyUserDomains : List String := []
  cfproxyWorkerDomains : List String := []
  domainRefresh : Bool := true
  fakeTlsDomain : String := ""
  linkHost : String := ""
  webUser : String := "admin"
  webPassword : String := ""
  verbose : Bool := false
  extra : JsonMap := ∅

/-- The parts of `serde_json` that the program calls. -/
structure SerdeJson where
  /-- `from_slice` of a value, or the text of its error. -/
  fromSlice : Bytes → Except String Json
  /-- What `to_writer_pretty` writes for a configuration. -/
  toPretty : Config → Bytes
  /-- What reading makes of a printed floating-point number, none out of range. -/
  readFloat : UInt64 → Option UInt64
  /-- The text of the error of a `from_value` that fails. -/
  refusal : JsonMap → String

/-! ## Names of hosts -/

/-- `char::is_whitespace`. -/
def isWhitespace (c : Char) : Bool :=
  (9 ≤ c.toNat && c.toNat ≤ 13) || (0x2000 ≤ c.toNat && c.toNat ≤ 0x200a) ||
    c.toNat ∈ [0x20, 0x85, 0xa0, 0x1680, 0x2028, 0x2029, 0x202f, 0x205f, 0x3000]

/-- `str::trim`. -/
def trim (text : List Char) : List Char :=
  (text.dropWhile isWhitespace).rdropWhile isWhitespace

/-- `domain.trim().to_ascii_lowercase()`. -/
def cleanDomain (domain : String) : String :=
  String.ofList ((trim domain.toList).map Char.toLower)

/-- `valid_domain`. -/
def validDomain (domain : String) : Bool :=
  domain.utf8ByteSize ≤ 253 && domain.toList.contains '.' &&
    (domain.toList.splitOn '.').all fun label =>
      label ≠ [] && (String.ofList label).utf8ByteSize ≤ 63 && label.head? ≠ some '-' &&
        label.getLast? ≠ some '-' && label.all fun c => c.isAlphanum || c = '-'

/-- Clean the names, and keep the first of each that is not empty. -/
def normalizeDomains (domains : List String) : List String :=
  domains.foldl (fun normalized domain =>
    if cleanDomain domain ≠ "" ∧ cleanDomain domain ∉ normalized then
      normalized ++ [cleanDomain domain]
    else normalized) []

private theorem toNat_toLower (c : Char) :
    c.toLower.toNat = if 65 ≤ c.toNat ∧ c.toNat ≤ 90 then c.toNat + 32 else c.toNat := by
  have hval : c.val.toNat = c.toNat := rfl
  have hfirst : 'A'.val.toNat = 65 := rfl
  have hlast : 'Z'.val.toNat = 90 := rfl
  delta Char.toLower
  simp only [ge_iff_le, UInt32.le_iff_toNat_le, hval, hfirst, hlast]
  by_cases h : 65 ≤ c.toNat ∧ c.toNat ≤ 90
  · rw [if_pos h, dif_pos h]
    change (c.val + 32).toNat = _
    rw [UInt32.toNat_add, hval, show (32 : UInt32).toNat = 32 from rfl, Nat.mod_eq_of_lt (by omega)]
  · rw [if_neg h, dif_neg h]

private theorem toLower_toLower (c : Char) : c.toLower.toLower = c.toLower := by
  apply Char.toNat_inj.mp
  simp only [toNat_toLower]
  grind

/-- Lower case changes only letters, and no letter is white space. -/
theorem isWhitespace_toLower (c : Char) : isWhitespace c.toLower = isWhitespace c := by
  simp only [isWhitespace, toNat_toLower]
  by_cases h : 65 ≤ c.toNat ∧ c.toNat ≤ 90
  · have hfalse (n : Nat) (h : 65 ≤ n ∧ n ≤ 122) :
        ((9 ≤ n && n ≤ 13) || (0x2000 ≤ n && n ≤ 0x200a) ||
          decide (n ∈ [0x20, 0x85, 0xa0, 0x1680, 0x2028, 0x2029, 0x202f, 0x205f, 0x3000])) =
            false := by
      simp
      omega
    rw [if_pos h, hfalse _ (by omega), hfalse _ (by omega)]
  · rw [if_neg h]

private theorem dropWhile_trim (text : List Char) :
    (trim text).dropWhile isWhitespace = trim text := by
  obtain ⟨suffix, hsuffix⟩ := List.rdropWhile_prefix isWhitespace (text.dropWhile isWhitespace)
  rw [← trim] at hsuffix
  cases htrim : trim text with
  | nil => rfl
  | cons c rest =>
    -- the first character is that of the text without its leading white space
    have hfirst : isWhitespace c = false := by
      have hhead := List.head?_dropWhile_not isWhitespace text
      rw [← hsuffix, htrim] at hhead
      exact hhead
    rw [List.dropWhile_cons_of_neg (by simp [hfirst])]

/-- Cleaning twice is cleaning once. -/
theorem cleanDomain_cleanDomain (domain : String) :
    cleanDomain (cleanDomain domain) = cleanDomain domain := by
  have hcomp : isWhitespace ∘ Char.toLower = isWhitespace := by
    ext c
    exact isWhitespace_toLower c
  have htrim (text : List Char) : trim ((trim text).map Char.toLower) =
      (trim text).map Char.toLower := by
    conv_lhs => rw [trim, List.dropWhile_map, hcomp, dropWhile_trim]
    rw [List.rdropWhile, ← List.map_reverse, List.dropWhile_map, hcomp, ← List.map_reverse,
      ← List.rdropWhile, trim, List.rdropWhile_idempotent]
  have hlower (text : List Char) : (text.map Char.toLower).map Char.toLower =
      text.map Char.toLower := by
    rw [List.map_map]
    exact List.map_congr_left fun c _ => toLower_toLower c
  rw [cleanDomain, cleanDomain, String.toList_ofList, htrim, hlower]

/-- A list of names that are clean, non-empty and distinct. -/
structure NormalDomains (domains : List String) : Prop where
  nodup : domains.Nodup
  clean : ∀ domain ∈ domains, cleanDomain domain = domain ∧ domain ≠ ""

/-- Normalising makes a list normal. -/
theorem normalDomains_normalizeDomains (domains : List String) :
    NormalDomains (normalizeDomains domains) := by
  have hfold (domains : List String) (normalized : List String) (h : NormalDomains normalized) :
      NormalDomains (domains.foldl (fun normalized domain =>
        if cleanDomain domain ≠ "" ∧ cleanDomain domain ∉ normalized then
          normalized ++ [cleanDomain domain]
        else normalized) normalized) := by
    induction domains generalizing normalized with
    | nil => exact h
    | cons domain domains ih =>
      rw [List.foldl_cons]
      apply ih
      split
      · next hnew =>
        refine ⟨?_, fun domain' hmem => ?_⟩
        · rw [← List.concat_eq_append]
          exact (List.nodup_concat ..).mpr ⟨hnew.2, h.nodup⟩
        · rcases List.mem_append.mp hmem with hmem | hmem
          · exact h.clean domain' hmem
          · rw [List.mem_singleton.mp hmem]
            exact ⟨cleanDomain_cleanDomain domain, hnew.1⟩
      · exact h
  exact hfold domains [] ⟨List.nodup_nil, by simp⟩

/-- Normalising keeps a normal list. -/
theorem NormalDomains.normalizeDomains_eq {domains : List String} (h : NormalDomains domains) :
    normalizeDomains domains = domains := by
  have hfold (domains normalized : List String) (h : NormalDomains (normalized ++ domains)) :
      domains.foldl (fun normalized domain =>
        if cleanDomain domain ≠ "" ∧ cleanDomain domain ∉ normalized then
          normalized ++ [cleanDomain domain]
        else normalized) normalized = normalized ++ domains := by
    induction domains generalizing normalized with
    | nil => rw [List.foldl_nil, List.append_nil]
    | cons domain domains ih =>
      obtain ⟨hclean, hne⟩ := h.clean domain (by simp)
      have hnotMem : domain ∉ normalized := by
        intro hmem
        have := (List.nodup_append.mp h.nodup).2.2 domain hmem domain (List.mem_cons_self ..)
        exact this rfl
      rw [List.foldl_cons, hclean, if_pos ⟨hne, hnotMem⟩, ih (normalized ++ [domain]),
        List.append_assoc, List.singleton_append]
      rwa [List.append_assoc, List.singleton_append]
  exact hfold domains [] h

namespace Config

/-- `config::invalid`. -/
def invalid (message : String) : IoError := ⟨.invalidInput, message⟩

/-! ## The serialised form -/

/-- The fields under their names, in order. -/
def fields (cfg : Config) : List (String × Json) :=
  [("host", .string cfg.host),
    ("port", .number (.nat cfg.port.toUInt64)),
    ("web_host", .string cfg.webHost),
    ("web_port", .number (.nat cfg.webPort.toUInt64)),
    ("secret", .string cfg.secret),
    ("dc_redirects", .ofMap (encodeMap toString Json.string cfg.dcRedirects)),
    ("buffer_size", .number (.nat cfg.bufferSize)),
    ("pool_size", .number (.nat cfg.poolSize)),
    ("max_connections", .number (.nat cfg.maxConnections)),
    ("connect_timeout_secs", .number (.nat cfg.connectTimeoutSecs)),
    ("idle_timeout_secs", .number (.nat cfg.idleTimeoutSecs)),
    ("proxy_protocol", .bool cfg.proxyProtocol),
    ("force_test_dc", .bool cfg.forceTestDc),
    ("sni_fronting", .bool cfg.sniFronting),
    ("cfproxy", .bool cfg.cfproxy),
    ("cfproxy_h2_media", .bool cfg.cfproxyH2Media),
    ("disable_secure", .bool cfg.disableSecure),
    ("cfproxy_user_domains", .array (cfg.cfproxyUserDomains.map .string)),
    ("cfproxy_worker_domains", .array (cfg.cfproxyWorkerDomains.map .string)),
    ("domain_refresh", .bool cfg.domainRefresh),
    ("fake_tls_domain", .string cfg.fakeTlsDomain),
    ("link_host", .string cfg.linkHost),
    ("web_user", .string cfg.webUser),
    ("web_password", .string cfg.webPassword),
    ("verbose", .bool cfg.verbose)]

/-- `to_value`: the fields, and the unknown keys beside them. -/
def toMap (cfg : Config) : JsonMap :=
  (Std.ExtTreeMap.ofList cfg.fields).insertMany cfg.extra.toList

/-- The names of the fields, with their aliases. -/
def fieldNames : List String := (fields {}).map (·.1) ++ ["h2", "no_secure"]

/-! ## Reading it -/

/-- A `u16`. -/
def readU16 : Json → Option UInt16
  | .number (.nat n) => if n.toNat < 65536 then some n.toUInt16 else none
  | _ => none

/-- A `u64`. -/
def readU64 : Json → Option UInt64
  | .number (.nat n) => some n
  | _ => none

/-- A `bool`. -/
def readBool : Json → Option Bool
  | .bool b => some b
  | _ => none

/-- A `Vec<String>`. -/
def readStrings : Json → Option (List String)
  | .array values => values.mapM Json.asStr
  | _ => none

/-- The value of decimal digits. -/
def decimal (digits : List Char) : Nat :=
  digits.foldl (fun value c => value * 10 + (c.toNat - 48)) 0

/-- An `i16` as the key of an object, in the one form that it is printed in. -/
def readKey (key : String) : Option Int :=
  let value : Int :=
    match key.toList with
    | '-' :: digits => -(decimal digits : Int)
    | digits => decimal digits
  if toString value = key ∧ -32768 ≤ value ∧ value ≤ 32767 then some value else none

/-- A `BTreeMap<i16, String>`. -/
def readRedirects : Json → Option (Std.ExtTreeMap Int String)
  | .object entries => decodeMap readKey Json.asStr entries
  | _ => none

/-- A field, or its default where the key is missing. -/
def field {α : Type} (map : JsonMap) (name : String) (read : Json → Option α) (default : α) :
    Option α :=
  match map[name]? with
  | none => some default
  | some v => read v

/-- A field with an alias, which may not stand beside it. -/
def aliasedField {α : Type} (map : JsonMap) (name other : String) (read : Json → Option α)
    (default : α) : Option α :=
  match map[other]? with
  | none => field map name read default
  | some v => if map.contains name then none else read v

/-- The known fields of a map. -/
def readFields (map : JsonMap) : Option Config := do
  let initial : Config := {}
  let host ← field map "host" Json.asStr initial.host
  let port ← field map "port" readU16 initial.port
  let webHost ← field map "web_host" Json.asStr initial.webHost
  let webPort ← field map "web_port" readU16 initial.webPort
  let secret ← field map "secret" Json.asStr initial.secret
  let dcRedirects ← field map "dc_redirects" readRedirects initial.dcRedirects
  let bufferSize ← field map "buffer_size" readU64 initial.bufferSize
  let poolSize ← field map "pool_size" readU64 initial.poolSize
  let maxConnections ← field map "max_connections" readU64 initial.maxConnections
  let connectTimeoutSecs ← field map "connect_timeout_secs" readU64 initial.connectTimeoutSecs
  let idleTimeoutSecs ← field map "idle_timeout_secs" readU64 initial.idleTimeoutSecs
  let proxyProtocol ← field map "proxy_protocol" readBool initial.proxyProtocol
  let forceTestDc ← field map "force_test_dc" readBool initial.forceTestDc
  let sniFronting ← field map "sni_fronting" readBool initial.sniFronting
  let cfproxy ← field map "cfproxy" readBool initial.cfproxy
  let cfproxyH2Media ← aliasedField map "cfproxy_h2_media" "h2" readBool initial.cfproxyH2Media
  let disableSecure ← aliasedField map "disable_secure" "no_secure" readBool initial.disableSecure
  let cfproxyUserDomains ← field map "cfproxy_user_domains" readStrings initial.cfproxyUserDomains
  let cfproxyWorkerDomains ←
    field map "cfproxy_worker_domains" readStrings initial.cfproxyWorkerDomains
  let domainRefresh ← field map "domain_refresh" readBool initial.domainRefresh
  let fakeTlsDomain ← field map "fake_tls_domain" Json.asStr initial.fakeTlsDomain
  let linkHost ← field map "link_host" Json.asStr initial.linkHost
  let webUser ← field map "web_user" Json.asStr initial.webUser
  let webPassword ← field map "web_password" Json.asStr initial.webPassword
  let verbose ← field map "verbose" readBool initial.verbose
  some { host, port, webHost, webPort, secret, dcRedirects, bufferSize, poolSize, maxConnections,
         connectTimeoutSecs, idleTimeoutSecs, proxyProtocol, forceTestDc, sniFronting, cfproxy,
         cfproxyH2Media, disableSecure, cfproxyUserDomains, cfproxyWorkerDomains, domainRefresh,
         fakeTlsDomain, linkHost, webUser, webPassword, verbose }

/-- `serde_json::from_value`: the known fields, and every other key as it is. -/
def ofMap (map : JsonMap) : Option Config :=
  (readFields map).map fun cfg =>
    { cfg with extra := map.filter fun key _ => key ∉ fieldNames }

/-- Move a legacy text of domains to the key of the list, where there is no list. -/
def migrate (map : JsonMap) (old new : String) : JsonMap :=
  let map' :=
    if map.contains new then map
    else
      match map[old]?.bind Json.asStr with
      | none => map
      | some text =>
        let domains := (text.toList.splitOnP fun c => isWhitespace c || c = ',' || c = ';').filter
          (· ≠ [])
        map.insert new (.array (domains.map fun domain => .string (String.ofList domain)))
  map'.erase old

/-- Both migrations. -/
def migrateAll (map : JsonMap) : JsonMap :=
  migrate (migrate map "cfproxy_user_domain" "cfproxy_user_domains")
    "cfproxy_worker_domain" "cfproxy_worker_domains"

/-! ## Validation -/

/-- Refuse unless a check holds. -/
def require (check : Bool) (message : String) : Except IoError Unit :=
  if check then .ok () else .error (invalid message)

private theorem require_eq_ok {check : Bool} {message : String} :
    require check message = .ok () ↔ check = true := by
  cases check <;> simp [require]

/-- The value of a hexadecimal digit. -/
def hexDigit (c : Char) : Nat := (IpAddr.digit 16 c).getD 0

/-- The bytes of hexadecimal text, two digits each. -/
def hexBytes : List Char → Bytes
  | a :: b :: text => UInt8.ofNat (16 * hexDigit a + hexDigit b) :: hexBytes text
  | _ => []

/-- `secret_bytes`. -/
def secretBytes (cfg : Config) : Except IoError Bytes := do
  require (cfg.secret.utf8ByteSize = 32 &&
    cfg.secret.toList.all fun c => (IpAddr.digit 16 c).isSome)
    "secret must contain exactly 32 hexadecimal characters"
  .ok (hexBytes cfg.secret.toList)

/-- The data centres that `dc_redirects` may name. -/
def knownDcs : List Int := [1, 2, 3, 4, 5, 203]

/-- `validate`. -/
def validate (cfg : Config) : Except IoError Unit := do
  require (IpAddr.parse cfg.host).isSome "host must be an IP address"
  require (IpAddr.parse cfg.webHost).isSome "web_host must be an IP address"
  require (cfg.port ≠ 0 && cfg.webPort ≠ 0 && cfg.port ≠ cfg.webPort)
    "proxy and web ports must be nonzero and different"
  let _ ← cfg.secretBytes
  require (4096 ≤ cfg.bufferSize && cfg.bufferSize ≤ 262144) "buffer_size must be 4096..262144"
  require (cfg.poolSize ≤ 4) "pool_size must be 0..4 per DC on this router build"
  require (1 ≤ cfg.maxConnections && cfg.maxConnections ≤ 1024) "max_connections must be 1..1024"
  require (1 ≤ cfg.connectTimeoutSecs && cfg.connectTimeoutSecs ≤ 60 &&
    10 ≤ cfg.idleTimeoutSecs && cfg.idleTimeoutSecs ≤ 86400)
    "connect_timeout_secs must be 1..60; idle_timeout_secs 10..86400"
  cfg.dcRedirects.toList.forM fun redirect => do
    require (redirect.1 ∈ knownDcs) s!"unknown DC {redirect.1}"
    require (IpAddr.parse redirect.2).isSome s!"invalid IP for DC {redirect.1}"
  [cfg.cfproxyUserDomains, cfg.cfproxyWorkerDomains].forM fun domains => do
    require (domains.length ≤ 16) "at most 16 domains per fallback list"
    domains.forM fun domain => require (validDomain domain)
      s!"invalid domain {domain}: use a hostname without scheme, port or path"
  require (cfg.fakeTlsDomain = "" || validDomain cfg.fakeTlsDomain) "invalid fake_tls_domain"
  require (cfg.linkHost = "" || (IpAddr.parse cfg.linkHost).isSome || validDomain cfg.linkHost)
    "link_host must be an IP address or DNS hostname"
  require (!cfg.webUser.toList.contains ':' && cfg.webUser.utf8ByteSize ≤ 128 &&
    cfg.webPassword.utf8ByteSize ≤ 256) "invalid web credentials"
  require (cfg.webPassword = "" || cfg.webUser ≠ "") "web_user is required with web_password"

/-- A valid configuration names only known data centres. -/
theorem mem_knownDcs {cfg : Config} (h : cfg.validate = .ok ()) :
    ∀ redirect ∈ cfg.dcRedirects.toList, redirect.1 ∈ knownDcs := by
  rw [validate] at h
  simp only [bind_eq_ok] at h
  obtain ⟨-, -, -, -, -, -, -, -, -, -, -, -, -, -, -, -, ⟨⟩, hredirects, -⟩ := h
  intro redirect hmem
  obtain ⟨⟨⟩, hdc, -⟩ := bind_eq_ok.mp (forM_eq_ok.mp hredirects redirect hmem)
  simpa using require_eq_ok.mp hdc

/-! ## Loading and saving -/

variable (serde : SerdeJson)

/-- `from_value`. -/
def fromValue (value : Json) : Except IoError Config :=
  match value.asObject with
  | none => .error (invalid "config must be a JSON object")
  | some map =>
    match ofMap (migrateAll map) with
    | none => .error (invalid (serde.refusal (migrateAll map)))
    | some cfg =>
      let cfg := { cfg with
        cfproxyUserDomains := normalizeDomains cfg.cfproxyUserDomains
        cfproxyWorkerDomains := normalizeDomains cfg.cfproxyWorkerDomains }
      cfg.validate.map fun () => cfg

/-- `load` of a file that holds these bytes. -/
def load (data : Bytes) : Except IoError Config :=
  if data.length > 65536 then .error (invalid "config exceeds 64 KiB")
  else
    match serde.fromSlice data with
    | .error e => .error (invalid s!"invalid config JSON: {e}")
    | .ok value => fromValue serde value

/-- `save`: the bytes of the file that it writes. -/
def save (cfg : Config) : Except IoError Bytes :=
  cfg.validate.map fun () => serde.toPretty cfg ++ [10]

/-- `merge_config` of `web.rs`. -/
def mergeConfig (cfg : Config) (bytes : Bytes) : Except IoError Config :=
  match serde.fromSlice bytes with
  | .error e => .error (invalid e)
  | .ok patch =>
    match patch.asObject with
    | none => .error (invalid "config must be an object")
    | some patch => fromValue serde (.ofMap (cfg.toMap.insertMany patch.toList))

end Config

end TgWsProxy
