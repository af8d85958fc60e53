import Gozarbin.Lib.Base64
import Gozarbin.Lib.IndexMap
import Gozarbin.Lib.Split
import Gozarbin.Net.Addr
import Gozarbin.Psiphon.Comments

/-! # The config Psiphon is started with

The core writes Psiphon's config: settings of its own, over them those of the user's file, and
over these the ones it insists on. Psiphon reads names regardless of case, so a name the user
spells otherwise stays beside the core's, and may stay behind it.
-/

namespace Gozarbin.Psiphon

open List Text

def propagationChannelId : Text := "FFFFFFFFFFFFFFFF".toList

def sponsorId : Text := "FFFFFFFFFFFFFFFF".toList

def serverListUrl : Text :=
  "https://s3.amazonaws.com//psiphon/web/mjr4-p23r-puwl/server_list_compressed".toList

def serverListSignatureKey : Text :=
  "MIICIDANBgkqhkiG9w0BAQEFAAOCAg0AMIICCAKCAgEAt7Ls+/39r+T6zNW7GiVpJfzq/xvL9SBH".toList ++
    "5rIFnk0RXYEYavax3WS6HOD35eTAqn8AniOwiH+DOkvgSKF2caqk/y1dfq47Pdymtwzp9ikpB1C5".toList ++
    "OfAysXzBiwVJlCdajBKvBZDerV1cMvRzCKvKwRmvDmHgphQQ7WfXIGbRbmmk6opMBh3roE42Kcot".toList ++
    "LFtqp0RRwLtcBRNtCdsrVsjiI1Lqz/lH+T61sGjSjQ3CHMuZYSQJZo/KrvzgQXpkaCTdbObxHqb6".toList ++
    "/+i1qaVOfEsvjoiyzTxJADvSytVtcTjijhPEV6XskJVHE1Zgl+7rATr/pDQkw6DPCNBS1+Y6fy7G".toList ++
    "stZALQXwEDN/qhQI9kWkHijT8ns+i1vGg00Mk/6J75arLhqcodWsdeG/M/moWgqQAnlZAGVtJI1O".toList ++
    "geF5fsPpXu4kctOfuZlGjVZXQNW34aOzm8r8S0eVZitPlbhcPiR4gT/aSMz/wd8lZlzZYsje/Jr8".toList ++
    "u/YtlwjjreZrGRmG8KMOzukV3lLmMppXFMvl4bxv6YFEmIuTsOhbLTwFgh7KYNjodLj/LsqRVfwz".toList ++
    "31PgWQFTEPICV7GCvgVlPRxnofqKSjgTWI4mxDhBpVcATvaoBl1L/6WLbFvBsoAUBItWwctO2xal".toList ++
    "KxF5szhGm8lccoc5MZr8kfE0uxMgsxz4er68iCID+rsCAQM=".toList

def cdnProtocols : List Text :=
  ["FRONTED-MEEK-CDN-OSSH".toList, "FRONTED-MEEK-CDN-HTTP-OSSH".toList,
    "FRONTED-MEEK-CDN-QUIC-OSSH".toList]

def nonInproxyProtocols : List Text :=
  ["SSH".toList, "OSSH".toList, "TLS-OSSH".toList, "UNFRONTED-MEEK-OSSH".toList,
    "UNFRONTED-MEEK-HTTPS-OSSH".toList, "UNFRONTED-MEEK-SESSION-TICKET-OSSH".toList,
    "QUIC-OSSH".toList, "SHADOWSOCKS-OSSH".toList, "FRONTED-MEEK-OSSH".toList,
    "FRONTED-MEEK-CDN-OSSH".toList, "FRONTED-MEEK-HTTP-OSSH".toList,
    "FRONTED-MEEK-CDN-HTTP-OSSH".toList, "FRONTED-MEEK-QUIC-OSSH".toList,
    "FRONTED-MEEK-CDN-QUIC-OSSH".toList]

def chainedProtocolNames : List Text :=
  ["SSH".toList, "OSSH".toList, "TLS-OSSH".toList, "UNFRONTED-MEEK-OSSH".toList,
    "UNFRONTED-MEEK-HTTPS-OSSH".toList, "UNFRONTED-MEEK-SESSION-TICKET-OSSH".toList,
    "SHADOWSOCKS-OSSH".toList, "FRONTED-MEEK-OSSH".toList, "FRONTED-MEEK-CDN-OSSH".toList,
    "FRONTED-MEEK-HTTP-OSSH".toList, "FRONTED-MEEK-CDN-HTTP-OSSH".toList]

/-- `AETHER_PSIPHON_PROPAGATION_CHANNEL_ID` and so on. -/
structure Env where
  propagationChannelId : Option Text := none
  sponsorId : Option Text := none
  serverList : Option Text := none
  mode : Option Text := none
  cdnIps : Option Text := none
  cdnSni : Option Text := none
  cdnSets : Option Text := none
  config : Option Text := none
  interface : Option Text := none
  region : Option Text := none

inductive System where
  | windows
  | macos
  | android
  | linux

/-- The environment, the system, the upper case of texts, files, and the JSON library. -/
structure Host where
  env : Env
  system : System
  toUppercase : Text → Text
  readToString : Text → Except Text Text
  fromStr : Text → Except Text Json
  toString : Json → Except Text Text

inductive Shape where
  | auto
  | cdn
  | direct
  deriving DecidableEq

def shape (env : Env) : Shape :=
  let mode := toAsciiLowercase (trim (env.mode.getD []))
  if ["cdn".toList, "fronted".toList].elem mode then .cdn
  else if ["direct".toList, "plain".toList].elem mode then .direct
  else .auto

def carriesUdp (name : Text) : Bool := Text.contains name "QUIC".toList || name.startsWith "INPROXY".toList

def chainedProtocols : Shape → List Text
  | .cdn => cdnProtocols.filter (!carriesUdp ·)
  | .direct => chainedProtocolNames.filter (!·.startsWith "FRONTED".toList)
  | .auto => chainedProtocolNames

def clientPlatform : System → Text
  | .windows => "Windows_aether".toList
  | .macos => "macOS_aether".toList
  | .android => "Android_aether".toList
  | .linux => "Linux_aether".toList

def nonBlank (value : Option Text) : Option Text := (value.map trim).filter (!·.isEmpty)

def envOr (value : Option Text) (fallback : Text) : Text := (nonBlank value).getD fallback

def region (host : Host) : Option Text :=
  (host.env.region.map fun value => host.toUppercase (trim value)).filter fun value =>
    byteLength value = 2 && value.all Char.isAlpha

def cdnCandidates (raw : Text) : List Text :=
  ((List.splitOnP (fun c => [' ', '\t', '\n', '\r', ',', ';'].elem c) raw).map trim).filter (!·.isEmpty)

def jsonTexts (texts : List Text) : Json := .array (texts.map .string)

def cdnFronting (env : Env) : List (Text × Json) :=
  let addresses := cdnCandidates (env.cdnIps.getD [])
  let names := cdnCandidates (env.cdnSni.getD [])
  let sets := cdnCandidates (env.cdnSets.getD [])
  let spec := ("IPCandidates".toList, jsonTexts addresses) ::
    if names.isEmpty then [] else [("SNIServerNames".toList, jsonTexts names)]
  (if addresses.isEmpty then [] else [("FrontedMeekCDNScanSpec".toList, .object spec)]) ++
    (if addresses.isEmpty || !sets.isEmpty then
      [("FrontedMeekCDNScanUseBuiltInSpec".toList, .bool true)] else []) ++
    if sets.isEmpty then [] else [("FrontedMeekCDNScanBuiltInSets".toList, jsonTexts sets)]

def protocols (chained : Bool) (shape : Shape) : List (Text × Json) :=
  let limit (names : List Text) : Text × Json := ("LimitTunnelProtocols".toList, jsonTexts names)
  let noTactics : Text × Json := ("DisableTactics".toList, .bool true)
  match chained, shape with
  | true, _ => [limit (chainedProtocols shape), noTactics]
  | false, .auto => [limit nonInproxyProtocols]
  | false, .cdn => [limit cdnProtocols, noTactics]
  | false, .direct => [limit nonInproxyProtocols, noTactics]

def defaults (host : Host) (chained : Bool) : List (Text × Json) :=
  let url := envOr host.env.serverList serverListUrl
  [("PropagationChannelId".toList, .string (envOr host.env.propagationChannelId propagationChannelId)),
    ("SponsorId".toList, .string (envOr host.env.sponsorId sponsorId)),
    ("ClientPlatform".toList, .string (clientPlatform host.system)),
    ("ClientVersion".toList, .string "1".toList),
    ("RemoteServerListURLs".toList,
      .array [.object [("URL".toList, .string (Base64.standard.encode (toUtf8 url)))]]),
    ("RemoteServerListSignaturePublicKey".toList, .string serverListSignatureKey),
    ("InproxyTunnelProtocolPreferProbability".toList, .double 0),
    ("InproxyTunnelProtocolSelectionProbability".toList, .double 0)] ++
    cdnFronting host.env ++ protocols chained (shape host.env)

def readBaseConfig (host : Host) : Except Text (Option (List (Text × Json))) :=
  match nonBlank host.env.config with
  | none => .ok none
  | some path =>
    let failed (e : Text) : Text := "psiphon config ".toList ++ path ++ ": ".toList ++ e
    match host.readToString path with
    | .error e => .error (failed e)
    | .ok text =>
      match json5Ish host.fromStr text with
      | .error e => .error (failed e)
      | .ok (.object fields) => .ok (some fields)
      | .ok _ => .error ("psiphon config ".toList ++ path ++ " is not a json object".toList)

inductive Placement where
  | dialled
  | behindHeld
  deriving DecidableEq

def listenInterface (env : Env) (socks : SocketAddr) : Option Text :=
  match nonBlank env.interface with
  | some name => some name
  | none =>
    if socks.ip.isLoopback then none
    else if socks.ip.isUnspecified then some "any".toList
    else none

def listenKey : Text := "ListenInterface".toList

def always (state : Text) (socks : SocketAddr) : List (Text × Json) :=
  [("DataRootDirectory".toList, .string state), ("LocalSocksProxyPort".toList, .int socks.port.toNat),
    ("EmitDiagnosticNotices".toList, .bool true), ("EmitDiagnosticNetworkParameters".toList, .bool true),
    ("EmitServerAlerts".toList, .bool true), ("EmitBytesTransferred".toList, .bool false)]

def forListen (env : Env) (socks : SocketAddr) : List (Text × Json) :=
  (listenInterface env socks).toList.map fun name => (listenKey, .string name)

def forHttp : Option SocketAddr → List (Text × Json)
  | some address =>
    [("LocalHttpProxyPort".toList, .int address.port.toNat),
      ("DisableLocalHTTPProxy".toList, .bool false)]
  | none => [("DisableLocalHTTPProxy".toList, .bool true)]

def forRegion (code : Option Text) : List (Text × Json) :=
  code.toList.map fun code => ("EgressRegion".toList, .string code)

def forUpstream (upstream : Option Text) : List (Text × Json) :=
  upstream.toList.map fun url => ("UpstreamProxyURL".toList, .string url)

section
variable (host : Host) (state : Text) (socks : SocketAddr) (http : Option SocketAddr)
  (upstream : Option Text) (placement : Placement)

def place (map : IndexMap Text Json) : IndexMap Text Json :=
  match placement with
  | .dialled => map.insertMany (forListen host.env socks)
  | .behindHeld => map.retain fun key => !eqIgnoreAsciiCase key listenKey

def configMap (given : List (Text × Json)) : IndexMap Text Json :=
  let map := IndexMap.empty.insertMany (defaults host upstream.isSome)
  let map := map.insertMany given
  let map := map.insertMany (always state socks)
  let map := place host socks placement map
  let map := map.insertMany (forHttp http)
  let map := map.insertMany (forRegion (region host))
  map.insertMany (forUpstream upstream)

def buildConfig : Except Text Text := do
  let given ← readBaseConfig host
  let map := configMap host state socks http upstream placement (given.getD [])
  (host.toString (.object map.entries)).mapError ("psiphon config could not be written: ".toList ++ ·)

def owned : List (Text × Json) :=
  always state socks ++ (if placement = .dialled then forListen host.env socks else []) ++
    (forHttp http ++ forRegion (region host) ++ forUpstream upstream)

def userFields : List (Text × Json) :=
  match readBaseConfig host with
  | .ok given => given.getD []
  | .error _ => []

end

/-- Regardless of case one field has the name, and it has this value. -/
def Sole (fields : List (Text × Json)) (key : Text) (value : Json) : Prop :=
  fields.filter (eqIgnoreAsciiCase ·.1 key) = [(key, value)]

def defaultKeys : List Text :=
  ["PropagationChannelId".toList, "SponsorId".toList, "ClientPlatform".toList, "ClientVersion".toList,
    "RemoteServerListURLs".toList, "RemoteServerListSignaturePublicKey".toList,
    "InproxyTunnelProtocolPreferProbability".toList, "InproxyTunnelProtocolSelectionProbability".toList,
    "FrontedMeekCDNScanSpec".toList, "FrontedMeekCDNScanUseBuiltInSpec".toList,
    "FrontedMeekCDNScanBuiltInSets".toList, "LimitTunnelProtocols".toList, "DisableTactics".toList]

def ownKeys : List Text :=
  ["DataRootDirectory".toList, "LocalSocksProxyPort".toList, "EmitDiagnosticNotices".toList,
    "EmitDiagnosticNetworkParameters".toList, "EmitServerAlerts".toList, "EmitBytesTransferred".toList,
    listenKey, "LocalHttpProxyPort".toList, "DisableLocalHTTPProxy".toList, "EgressRegion".toList,
    "UpstreamProxyURL".toList]

theorem nodup_keys : ((defaultKeys ++ ownKeys).map (·.map Char.toLower)).Nodup := by decide +kernel

section
variable {host : Host} {state : Text} {socks : SocketAddr} {http : Option SocketAddr}
  {upstream : Option Text} {placement : Placement} {given : List (Text × Json)} {key other : Text}
  {value : Json}

theorem eq_of_eqIgnoreAsciiCase (mem : key ∈ defaultKeys ++ ownKeys) (mem' : other ∈ defaultKeys ++ ownKeys)
    (same : eqIgnoreAsciiCase other key = true) : other = key :=
  inj_on_of_nodup_map nodup_keys mem' mem (by simpa [eqIgnoreAsciiCase] using same)

theorem later_sublist (http : Option SocketAddr) (code upstream : Option Text) :
    ((forHttp http ++ forRegion code ++ forUpstream upstream).map (·.1)).Sublist (ownKeys.drop 7) := by
  have http_keys : ((forHttp http).map (·.1)).Sublist
      ["LocalHttpProxyPort".toList, "DisableLocalHTTPProxy".toList] := by
    cases http <;> simp [forHttp]
  have region_keys : ((forRegion code).map (·.1)).Sublist ["EgressRegion".toList] := by
    cases code <;> simp [forRegion]
  have upstream_keys : ((forUpstream upstream).map (·.1)).Sublist ["UpstreamProxyURL".toList] := by
    cases upstream <;> simp [forUpstream]
  rw [map_append, map_append]
  exact (http_keys.append region_keys).append upstream_keys

theorem owned_sublist : ((owned host state socks http upstream placement).map (·.1)).Sublist ownKeys := by
  have listen :
      ((if placement = .dialled then forListen host.env socks else []).map (·.1)).Sublist [listenKey] := by
    split
    · rw [forListen]
      cases listenInterface host.env socks <;> simp
    · exact nil_sublist _
  rw [owned, map_append, map_append]
  exact ((List.Sublist.refl _).append listen).append (later_sublist http (region host) upstream)

theorem cdnFronting_subset (env : Env) : (cdnFronting env).map (·.1) ⊆
    ["FrontedMeekCDNScanSpec".toList, "FrontedMeekCDNScanUseBuiltInSpec".toList,
      "FrontedMeekCDNScanBuiltInSets".toList] := by
  simp only [cdnFronting]
  split_ifs <;> simp

theorem protocols_subset (chained : Bool) (shape : Shape) :
    (protocols chained shape).map (·.1) ⊆ ["LimitTunnelProtocols".toList, "DisableTactics".toList] := by
  cases chained <;> cases shape <;> simp [protocols]

theorem defaults_subset (host : Host) (chained : Bool) :
    (defaults host chained).map (·.1) ⊆ defaultKeys := by
  intro key mem
  rw [defaults, map_append, map_append, mem_append, mem_append] at mem
  have split : defaultKeys = defaultKeys.take 8 ++ (defaultKeys.drop 8).take 3 ++ defaultKeys.drop 11 := rfl
  rw [split, mem_append, mem_append]
  rcases mem with (first | cdn) | names
  · exact .inl (.inl first)
  · exact .inl (.inr (cdnFronting_subset host.env cdn))
  · exact .inr (protocols_subset chained (shape host.env) names)

theorem nodup_owned : ((owned host state socks http upstream placement).map (·.1)).Nodup :=
  owned_sublist.nodup (nodup_append.mp nodup_keys.of_map).2.1

def before (host : Host) (upstream : Option Text) (given : List (Text × Json)) : IndexMap Text Json :=
  (IndexMap.empty.insertMany (defaults host upstream.isSome)).insertMany given

theorem mem_keys_before : key ∈ (before host upstream given).keys ↔
    key ∈ given.map (·.1) ∨ key ∈ (defaults host upstream.isSome).map (·.1) := by
  rw [before, IndexMap.mem_keys_insertMany, IndexMap.mem_keys_insertMany]
  simp [IndexMap.empty, IndexMap.keys]

theorem owned_behindHeld : owned host state socks http upstream .behindHeld =
    always state socks ++ (forHttp http ++ forRegion (region host) ++ forUpstream upstream) := by
  rw [owned, if_neg (by decide), append_nil]

theorem owned_not_listen (mem : key ∈ (owned host state socks http upstream .behindHeld).map (·.1)) :
    eqIgnoreAsciiCase key listenKey = false := by
  have names : ∀ key ∈ ownKeys.take 6 ++ ownKeys.drop 7, eqIgnoreAsciiCase key listenKey = false :=
    forall_iff_forall_mem.mp (by decide)
  rw [owned_behindHeld, map_append, mem_append] at mem
  exact names key (mem_append.mpr
    (mem.imp_right fun later => (later_sublist http (region host) upstream).subset later))

theorem mem_configMap {field : Text × Json} :
    field ∈ (configMap host state socks http upstream placement given).entries ↔
      field ∈ owned host state socks http upstream placement ∨
        field.1 ∉ (owned host state socks http upstream placement).map (·.1) ∧
          field ∈ (before host upstream given).entries ∧
          ¬ (placement = .behindHeld ∧ eqIgnoreAsciiCase field.1 listenKey = true) := by
  have nodup : ((owned host state socks http upstream placement).map (·.1)).Nodup := nodup_owned
  cases placement with
  | dialled =>
    have map_eq : configMap host state socks http upstream .dialled given =
        (before host upstream given).insertMany (owned host state socks http upstream .dialled) := by
      rw [owned, if_pos rfl]
      simp only [IndexMap.insertMany_append]
      rfl
    rw [map_eq, IndexMap.mem_insertMany nodup]
    simp
  | behindHeld =>
    have map_eq : configMap host state socks http upstream .behindHeld given =
        (((before host upstream given).insertMany (always state socks)).retain fun key =>
          !eqIgnoreAsciiCase key listenKey).insertMany
          (forHttp http ++ forRegion (region host) ++ forUpstream upstream) := by
      simp only [IndexMap.insertMany_append]
      rfl
    have kept : ∀ field ∈ always state socks, (!eqIgnoreAsciiCase field.1 listenKey) = true := by
      intro field first
      have own : field.1 ∈ (owned host state socks http upstream .behindHeld).map (·.1) := by
        exact mem_append_left _ (mem_map_of_mem first)
      rw [owned_not_listen own]
      rfl
    rw [owned_behindHeld] at nodup ⊢
    rw [map_eq, IndexMap.mem_insertMany_retain nodup kept]
    simp

theorem not_listen_of_mem {field : Text × Json}
    (mem : field ∈ (configMap host state socks http upstream .behindHeld given).entries) :
    eqIgnoreAsciiCase field.1 listenKey = false := by
  rcases mem_configMap.mp mem with own | ⟨-, -, kept⟩
  · exact owned_not_listen (mem_map_of_mem own)
  · simpa using kept

theorem sole_iff (mem : (key, value) ∈ owned host state socks http upstream placement) :
    Sole (configMap host state socks http upstream placement given).entries key value ↔
      ∀ other ∈ given.map (·.1), eqIgnoreAsciiCase other key = true → other = key := by
  have own_key : key ∈ (owned host state socks http upstream placement).map (·.1) := mem_map_of_mem mem
  have known {k : Text} (own : k ∈ (owned host state socks http upstream placement).map (·.1)) :
      k ∈ defaultKeys ++ ownKeys := mem_append_right _ (owned_sublist.subset own)
  have alone_iff : Sole (configMap host state socks http upstream placement given).entries key value ↔ _ :=
    IndexMap.filter_eq_singleton_iff (eqIgnoreAsciiCase · key) (mem_configMap.mpr (.inl mem))
      (by simp [eqIgnoreAsciiCase])
  rw [alone_iff]
  constructor
  · intro alone other named same
    -- A name the core sets itself is spelled its way.
    by_cases own : other ∈ (owned host state socks http upstream placement).map (·.1)
    · exact eq_of_eqIgnoreAsciiCase (known own_key) (known own) same
    obtain ⟨field, there, rfl⟩ :=
      mem_map.mp (mem_keys_before.mpr (.inl named) : other ∈ (before host upstream given).keys)
    refine alone field.1 (mem_map_of_mem (mem_configMap.mpr (.inr ⟨own, there, ?_⟩))) same
    rintro ⟨rfl, listens⟩
    have unlike := owned_not_listen own_key
    simp only [eqIgnoreAsciiCase, beq_iff_eq] at same listens
    simp [eqIgnoreAsciiCase, ← same, listens] at unlike
  · intro free other named same
    obtain ⟨field, there, rfl⟩ := mem_map.mp named
    rcases mem_configMap.mp there with own | ⟨-, left, -⟩
    · exact eq_of_eqIgnoreAsciiCase (known own_key) (known (mem_map_of_mem own)) same
    rcases mem_keys_before.mp (mem_map_of_mem left) with theirs | default
    · exact free field.1 theirs same
    · exact eq_of_eqIgnoreAsciiCase (known own_key)
        (mem_append_left _ (defaults_subset host _ default)) same

theorem toString_of_buildConfig {text : Text}
    (built : buildConfig host state socks http upstream placement = .ok text) :
    host.toString (.object (configMap host state socks http upstream placement (userFields host)).entries) =
      .ok text := by
  rw [buildConfig] at built
  rw [userFields]
  cases read : readBaseConfig host with
  | error e =>
    rw [read] at built
    cases built
  | ok given =>
    rw [read] at built
    change (host.toString
      (.object (configMap host state socks http upstream placement (given.getD [])).entries)).mapError _ =
      .ok text at built
    cases written : host.toString
      (.object (configMap host state socks http upstream placement (given.getD [])).entries) with
    | error e =>
      rw [written] at built
      cases built
    | ok text' =>
      rw [written] at built
      exact built

end

/-- What the core sets after the user's config stands alone under its name precisely if the
    user's config does not have that name in another spelling. -/
theorem core_settings_win_iff (host : Host) (state : Text) (socks : SocketAddr) (http : Option SocketAddr)
    (upstream : Option Text) (placement : Placement) :
    let fields := (configMap host state socks http upstream placement (userFields host)).entries
    (∀ text, buildConfig host state socks http upstream placement = .ok text →
        host.toString (.object fields) = .ok text) ∧
      (∀ key value, (key, value) ∈ owned host state socks http upstream placement →
        (Sole fields key value ↔
          ∀ other ∈ (userFields host).map (·.1), eqIgnoreAsciiCase other key = true → other = key)) ∧
      (placement = .behindHeld → ∀ field ∈ fields, eqIgnoreAsciiCase field.1 listenKey = false) := by
  intro fields
  refine ⟨fun text => toString_of_buildConfig, fun key value => sole_iff, ?_⟩
  rintro rfl field mem
  exact not_listen_of_mem mem

mutual

def rendered : Json → Text
  | .null => "null".toList
  | .bool value => if value then "true".toList else "false".toList
  | .int value => value.repr.toList
  | .double value => value.num.repr.toList ++ ".0".toList
  | .string value => '"' :: value ++ ['"']
  | .array items => '[' :: [','].intercalate (renderedItems items) ++ [']']
  | .object fields => '{' :: [','].intercalate (renderedFields fields) ++ ['}']

def renderedItems : List Json → List Text
  | [] => []
  | item :: items => rendered item :: renderedItems items

def renderedFields : List (Text × Json) → List Text
  | [] => []
  | (name, value) :: fields => ('"' :: name ++ '"' :: ':' :: rendered value) :: renderedFields fields

end

def twoSpellings : Host where
  env := { config := some "psiphon.json".toList }
  system := .linux
  toUppercase := id
  readToString _ := .ok "\x7b\"UpstreamProxyURL\":\"\",\"upstreamproxyurl\":\"\"\x7d".toList
  fromStr _ :=
    .ok (.object [("UpstreamProxyURL".toList, .string []), ("upstreamproxyurl".toList, .string [])])
  toString json := .ok (rendered json)

theorem upstream_named_twice :
    let upstream := "socks5://127.0.0.1:1819".toList
    let socks : SocketAddr := ⟨.v4 .localhost, 1820⟩
    let fields :=
      (configMap twoSpellings [] socks none (some upstream) .dialled (userFields twoSpellings)).entries
    buildConfig twoSpellings [] socks none (some upstream) .dialled = .ok (rendered (.object fields)) ∧
      "\"UpstreamProxyURL\":\"socks5://127.0.0.1:1819\",\"upstreamproxyurl\":\"\"".toList <:+:
        rendered (.object fields) ∧
      ("UpstreamProxyURL".toList, .string upstream) ∈
        owned twoSpellings [] socks none (some upstream) .dialled ∧
      (fields.filter (eqIgnoreAsciiCase ·.1 "UpstreamProxyURL".toList)).map
          (fun field => (field.1, field.2.asStr)) =
        [("UpstreamProxyURL".toList, some upstream), ("upstreamproxyurl".toList, some [])] ∧
      ¬ Sole fields "UpstreamProxyURL".toList (.string upstream) := by
  intro upstream socks fields
  have twice : (fields.filter (eqIgnoreAsciiCase ·.1 "UpstreamProxyURL".toList)).map
      (fun field => (field.1, field.2.asStr)) =
      [("UpstreamProxyURL".toList, some upstream), ("upstreamproxyurl".toList, some [])] := by
    decide +kernel
  refine ⟨rfl, by decide +kernel, mem_append_right _ (mem_append_right _ (mem_singleton.mpr rfl)), twice,
    fun alone => ?_⟩
  rw [show fields.filter (eqIgnoreAsciiCase ·.1 "UpstreamProxyURL".toList) = _ from alone] at twice
  cases twice

end Gozarbin.Psiphon
