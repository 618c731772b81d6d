import MaiaMeet.Config
import MaiaMeet.Segments
set_option autoImplicit false

/-! The whole of loadConfig, with the checks that come before its integers. -/

namespace MaiaMeet

theorem isAlnum_lt {u : UInt16} (h : isAlnum u) : u.toNat < 128 := by
  simp [isAlnum,isDigit,UInt16.le_iff_toNat_le] at h
  omega

theorem units_of_all {p : UInt16 → Prop} [DecidablePred p] {s : JsString}
    (h : s.all (fun u => decide (p u))) : ∀ u ∈ s, p u :=
  fun u hu => of_decide_eq_true (List.all_eq_true.mp h u hu)

/-- `[a-zA-Z0-9_-]` -/
def isWord (u : UInt16) : Bool := isAlnum u || u == 95 || u == 45

/-- `(?:[a-zA-Z0-9_-]+\/)*$`; `inside` a segment that has begun. -/
def basePathTail : Bool → JsString → Bool
  | inside, [] => !inside
  | inside, u :: rest =>
    if u = 47 then inside && basePathTail false rest else isWord u && basePathTail true rest

def basePathOk : JsString → Bool
  | [] => false
  | u :: rest => u == 47 && basePathTail false rest

structure BasePath where
  text : JsString
  ok : basePathOk text = true
  deriving DecidableEq, Repr

def iceSchemes : List JsString := [js "stun:",js "stuns:",js "turn:",js "turns:"]

/-- `/^(stun|stuns|turn|turns):\S+$/` -/
def iceUrlOk (url : JsString) : Bool :=
  iceSchemes.any (fun scheme => decide (scheme <+: url) && decide (scheme ≠ url) &&
    (url.drop scheme.length).all (fun u => !isSpace u))

/-- `/^turns?:/` -/
def isTurnUrl (url : JsString) : Bool := decide (js "turn:" <+: url) || decide (js "turns:" <+: url)

/-- `[server.urls].flat()`, for urls that are a string or an array with members. -/
def serverUrls (server : Json) : Option (List Json) :=
  match server.get (js "urls") with
  | some (.str url) => some [.str url]
  | some (.arr (url :: urls)) => some (url :: urls)
  | _ => none

def hasUrl (test : JsString → Bool) (url : Json) : Bool := (Json.string? (some url)).any test

def iceServerOk (server : Json) : Bool :=
  (serverUrls server).any (fun urls => urls.all (hasUrl iceUrlOk))

def isTurnServer (server : Json) : Bool :=
  (serverUrls server).any (fun urls => urls.any (hasUrl isTurnUrl))

inductive IceTransportPolicy where
  | all | relay
  deriving DecidableEq, Repr

def IceTransportPolicy.text : IceTransportPolicy → JsString
  | .all => js "all"
  | .relay => js "relay"

def IceTransportPolicy.ofString (text : JsString) : Option IceTransportPolicy :=
  if text = js "all" then some .all else if text = js "relay" then some .relay else none

structure RtcConfig where
  iceServers : List Json
  iceTransportPolicy : IceTransportPolicy
  servers_ok : iceServers.all iceServerOk = true
  relay_ok : iceTransportPolicy = .relay → iceServers.any isTurnServer = true
  deriving DecidableEq, Repr

def RtcConfig.json (rtc : RtcConfig) : Json :=
  .obj [(js "iceServers",.arr rtc.iceServers),
    (js "iceTransportPolicy",.str rtc.iceTransportPolicy.text)]

def originOk (origin : JsString) : Prop := origin ≠ [] ∧ trim origin = origin ∧ 44 ∉ origin

abbrev Bounded (max : Nat) := {n : Nat // 1 ≤ n ∧ n ≤ max}

structure Settings where
  host : JsString
  port : Bounded 65535
  basePath : BasePath
  maxMessageBytes : Bounded 1048576
  maxParticipants : Bounded 20
  rateLimitTokens : Bounded 10000
  rtcConfig : RtcConfig
  allowedOrigins : List JsString
  host_ok : host ≠ []
  origins_ok : ∀ origin ∈ allowedOrigins, originOk origin

/-- The settings the connection handler reads; `stringify` is that of JSON. -/
def Settings.config (stringify : Json → JsString) (s : Settings) : Config where
  maxParticipants := s.maxParticipants
  rateLimitTokens := s.rateLimitTokens
  rateLimitInterval := 1000
  rtcConfig := stringify s.rtcConfig.json
  maxParticipants_bounds := s.maxParticipants.property
  rateLimitTokens_bounds := s.rateLimitTokens.property
  rateLimitInterval_pos := Nat.succ_pos 999

/-- `env.NAME || fallback` -/
def setting (env : JsString → Option JsString) (name : JsString) (fallback : JsString) : JsString :=
  match env name with
  | some (u :: text) => u :: text
  | _ => fallback

def readBasePath (text : JsString) : Except JsString BasePath :=
  if h : basePathOk text = true then .ok ⟨text,h⟩
  else .error (js "BASE_PATH must start and end with /, for example /maia-meet/")

def readIceServers : Option Json → Except JsString {l : List Json // l.all iceServerOk = true}
  | none => .error (js "ICE_SERVERS must be a JSON array")
  | some (.arr servers) =>
    if h : servers.all iceServerOk = true then .ok ⟨servers,h⟩
    else .error (js "ICE_SERVERS must contain valid STUN/TURN urls")
  | some _ => .error (js "ICE_SERVERS must contain valid STUN/TURN urls")

def readRtcConfig (servers : {l : List Json // l.all iceServerOk = true}) (policy : JsString) :
    Except JsString RtcConfig :=
  match IceTransportPolicy.ofString policy with
  | none => .error (js "ICE_TRANSPORT_POLICY must be all or relay")
  | some policy =>
    if h : policy = .relay → servers.val.any isTurnServer = true then
      .ok ⟨servers.val,policy,servers.property,h⟩
    else .error (js "Relay policy requires a TURN server")

/-- `text.split(',').map(s => s.trim()).filter(Boolean)` -/
def readOrigins (text : JsString) : List JsString :=
  ((text.splitOn 44).map trim).filter (· ≠ [])

theorem setting_ne_nil {env : JsString → Option JsString} {name fallback : JsString}
    (h : fallback ≠ []) : setting env name fallback ≠ [] := by
  rw [setting]
  split
  · simp
  · exact h

theorem trim_trim (s : JsString) : trim (trim s) = trim s := by
  obtain ⟨d,hd⟩ : ∃ d, s.dropWhile isSpace = d := ⟨_,rfl⟩
  have htrim : trim s = d.rdropWhile isSpace := by rw [trim,hd]
  have hleft : (d.rdropWhile isSpace).dropWhile isSpace = d.rdropWhile isSpace := by
    refine List.dropWhile_eq_self_iff.mpr (fun hpos => ?_)
    have hpre := List.rdropWhile_prefix isSpace d
    rw [List.IsPrefix.getElem hpre hpos]
    subst hd
    exact List.dropWhile_get_zero_not isSpace s (Nat.lt_of_lt_of_le hpos hpre.length_le)
  rw [htrim,trim,hleft,List.rdropWhile_idempotent]

theorem trim_between {s before after : JsString} (hs : ∀ u ∈ s, isSpace u = false) (hne : s ≠ [])
    (hbefore : before.all isSpace) (hafter : after.all isSpace) :
    trim (before ++ s ++ after) = s := by
  obtain ⟨u,s,rfl⟩ := List.exists_cons_of_ne_nil hne
  have hfirst : isSpace u = false := hs u List.mem_cons_self
  have hdrop : (before ++ (u :: s) ++ after).dropWhile isSpace = (u :: s) ++ after := by
    rw [List.append_assoc,List.dropWhile_append_of_pos (List.all_eq_true.mp hbefore),
      List.cons_append,List.dropWhile_cons_of_neg (by simp [hfirst])]
  have hlast : ((u :: s).reverse).dropWhile isSpace = (u :: s).reverse := by
    obtain ⟨v,l,hl⟩ := List.exists_cons_of_ne_nil (List.reverse_ne_nil_iff.mpr hne)
    have hv : isSpace v = false := hs v (List.mem_reverse.mp (hl ▸ List.mem_cons_self))
    rw [hl,List.dropWhile_cons_of_neg (by simp [hv])]
  rw [trim,hdrop,List.rdropWhile,List.reverse_append,
    List.dropWhile_append_of_pos (by simpa using hafter),hlast,List.reverse_reverse]

theorem trim_eq_self {s : JsString} (hs : ∀ u ∈ s, isSpace u = false) (hne : s ≠ []) :
    trim s = s := by
  have hnone : List.all ([] : JsString) isSpace = true := rfl
  have h := trim_between hs hne hnone hnone
  rwa [List.nil_append,List.append_nil] at h

theorem readOrigins_ok (text : JsString) : ∀ origin ∈ readOrigins text, originOk origin := by
  intro origin h
  obtain ⟨hmem,hne⟩ := List.mem_filter.mp h
  obtain ⟨s,hs,rfl⟩ := List.mem_map.mp hmem
  refine ⟨by simpa using hne,trim_trim s,fun h44 => Segments.not_mem_of_mem_splitOn hs ?_⟩
  have hpre := (List.rdropWhile_prefix isSpace (s.dropWhile isSpace)).subset h44
  exact (List.dropWhile_sublist isSpace).subset hpre

def defaultHost : JsString := js "127.0.0.1"
def defaultIceServers : JsString := js "[\x7b\"urls\":\"stun:stun.l.google.com:19302\"\x7d]"

theorem defaultHost_ne_nil : defaultHost ≠ [] := by decide

/-- `parse` is `JSON.parse`, which throws where it is `none`. -/
def Settings.loadConfig (parse : JsString → Option Json) (env : JsString → Option JsString) :
    Except JsString Settings := do
  let basePath ← readBasePath (setting env (js "BASE_PATH") (js "/"))
  let iceServers ← readIceServers (parse (setting env (js "ICE_SERVERS") defaultIceServers))
  let rtcConfig ← readRtcConfig iceServers (setting env (js "ICE_TRANSPORT_POLICY") (js "all"))
  let port ← integer env (js "PORT") 3081 65535
  let maxMessageBytes ← integer env (js "MAX_MESSAGE_BYTES") 65536 1048576
  let maxParticipants ← integer env (js "MAX_PARTICIPANTS") 6 20
  let rateLimitTokens ← integer env (js "RATE_LIMIT_MESSAGES") 120 10000
  pure {
    host := setting env (js "HOST") defaultHost
    port := port
    basePath := basePath
    maxMessageBytes := maxMessageBytes
    maxParticipants := maxParticipants
    rateLimitTokens := rateLimitTokens
    rtcConfig := rtcConfig
    allowedOrigins := readOrigins (setting env (js "ALLOWED_ORIGINS") [])
    host_ok := setting_ne_nil defaultHost_ne_nil
    origins_ok := readOrigins_ok (setting env (js "ALLOWED_ORIGINS") []) }

theorem except_bind {ε α β : Type} {x : Except ε α} {f : α → Except ε β} {b : β}
    (h : (x >>= f) = .ok b) : ∃ a, x = .ok a ∧ f a = .ok b := by
  cases x with
  | error e => cases h
  | ok a => exact ⟨a,rfl,h⟩

theorem except_bind_ok {ε α β : Type} {x : Except ε α} {a : α} (h : x = .ok a)
    (f : α → Except ε β) : (x >>= f) = f a := by
  rw [h]
  rfl

/-- The full reading agrees with the part the connection handler is read from. -/
theorem loadConfig_config {parse : JsString → Option Json} {env : JsString → Option JsString}
    {s : Settings} (h : Settings.loadConfig parse env = .ok s) (stringify : Json → JsString) :
    loadConfig env (stringify s.rtcConfig.json) = .ok (s.config stringify) := by
  obtain ⟨basePath,_,h⟩ := except_bind h
  obtain ⟨iceServers,_,h⟩ := except_bind h
  obtain ⟨rtcConfig,_,h⟩ := except_bind h
  obtain ⟨port,hport,h⟩ := except_bind h
  obtain ⟨maxMessageBytes,hbytes,h⟩ := except_bind h
  obtain ⟨maxParticipants,hparticipants,h⟩ := except_bind h
  obtain ⟨rateLimitTokens,htokens,h⟩ := except_bind h
  cases h
  rw [MaiaMeet.loadConfig,hport,hbytes,hparticipants,htokens]
  rfl

theorem basePathTail_iff (rest : JsString) :
    (basePathTail false rest ↔ ∃ segments : List JsString,
      (∀ s ∈ segments, s ≠ [] ∧ s.all isWord) ∧ rest = segments.flatMap (· ++ [47])) ∧
    (basePathTail true rest ↔ ∃ (word : JsString) (segments : List JsString), word.all isWord ∧
      (∀ s ∈ segments, s ≠ [] ∧ s.all isWord) ∧
      rest = word ++ 47 :: segments.flatMap (· ++ [47])) := by
  induction rest with
  | nil =>
    refine ⟨iff_of_true rfl ⟨[],by simp,rfl⟩,iff_of_false (by simp [basePathTail]) ?_⟩
    rintro ⟨word,segments,_,_,h⟩
    simp at h
  | cons u rest ih =>
    have hslash : isWord 47 = false := by decide
    by_cases hu : u = 47
    · subst hu
      constructor
      · refine iff_of_false (by simp [basePathTail]) ?_
        rintro ⟨segments,hs,h⟩
        cases segments with
        | nil => simp at h
        | cons s segments =>
          obtain ⟨hne,hw⟩ := hs s List.mem_cons_self
          cases s with
          | nil => exact hne rfl
          | cons v s =>
            rw [List.flatMap_cons,List.cons_append,List.cons_append,List.cons.injEq] at h
            rw [← h.1,List.all_cons,hslash] at hw
            cases hw
      · rw [basePathTail,if_pos rfl,Bool.true_and,ih.1]
        constructor
        · rintro ⟨segments,hs,rfl⟩
          exact ⟨[],segments,rfl,hs,rfl⟩
        · rintro ⟨word,segments,hw,hs,h⟩
          cases word with
          | nil => exact ⟨segments,hs,(List.cons.inj h).2⟩
          | cons v word =>
            rw [List.cons_append,List.cons.injEq] at h
            rw [← h.1,List.all_cons,hslash] at hw
            cases hw
    · rw [basePathTail,if_neg hu,basePathTail,if_neg hu,Bool.and_eq_true,ih.2]
      constructor
      · constructor
        · rintro ⟨hu',word,segments,hw,hs,rfl⟩
          refine ⟨(u :: word) :: segments,?_,by simp⟩
          intro s hmem
          rcases List.mem_cons.mp hmem with rfl | hmem
          · exact ⟨by simp,by simp only [List.all_cons,hu',hw,Bool.and_self]⟩
          · exact hs s hmem
        · rintro ⟨segments,hs,h⟩
          cases segments with
          | nil => simp at h
          | cons s segments =>
            obtain ⟨hne,hw⟩ := hs s List.mem_cons_self
            cases s with
            | nil => exact absurd rfl hne
            | cons v s =>
              rw [List.flatMap_cons,List.cons_append,List.cons_append,List.cons.injEq] at h
              obtain ⟨rfl,rfl⟩ := h
              rw [List.all_cons,Bool.and_eq_true] at hw
              exact ⟨hw.1,s,segments,hw.2,fun t ht => hs t (List.mem_cons_of_mem _ ht),by simp⟩
      · constructor
        · rintro ⟨hu',word,segments,hw,hs,rfl⟩
          exact ⟨u :: word,segments,by simp only [List.all_cons,hu',hw,Bool.and_self],hs,rfl⟩
        · rintro ⟨word,segments,hw,hs,h⟩
          cases word with
          | nil => exact absurd (List.cons.inj h).1 hu
          | cons v word =>
            rw [List.cons_append,List.cons.injEq] at h
            obtain ⟨rfl,rfl⟩ := h
            rw [List.all_cons,Bool.and_eq_true] at hw
            exact ⟨hw.1,word,segments,hw.2,hs,rfl⟩

/-- A base path is a sequence of words, each closed by a slash. -/
theorem basePathOk_iff {text : JsString} :
    basePathOk text ↔ ∃ segments : List JsString,
      (∀ s ∈ segments, s ≠ [] ∧ s.all isWord) ∧ text = 47 :: segments.flatMap (· ++ [47]) := by
  cases text with
  | nil => simp [basePathOk]
  | cons u rest =>
    rw [basePathOk,Bool.and_eq_true,beq_iff_eq,(basePathTail_iff rest).1]
    constructor
    · rintro ⟨rfl,segments,hs,rfl⟩
      exact ⟨segments,hs,rfl⟩
    · rintro ⟨segments,hs,h⟩
      exact ⟨(List.cons.inj h).1,segments,hs,(List.cons.inj h).2⟩

theorem digitsValue_map {digits : List Char} (h : ∀ d ∈ digits, d.isDigit) :
    (digits.map (fun ch => ch.val.toUInt16)).all isDigit ∧
      ∀ n, (digits.map (fun ch => ch.val.toUInt16)).foldl
        (fun n u => 10 * n + (u.toNat - 48)) n = Nat.ofDigitChars 10 digits n := by
  induction digits with
  | nil => simp
  | cons d digits ih =>
    obtain ⟨hall,hval⟩ := ih (fun c hc => h c (List.mem_cons_of_mem d hc))
    have hd := h d List.mem_cons_self
    have hbounds : 48 ≤ d.val.toNat ∧ d.val.toNat ≤ 57 := by
      simpa [Char.isDigit,UInt32.le_iff_toNat_le] using hd
    have hnat : (d.val.toUInt16).toNat = d.val.toNat := by
      rw [UInt32.toNat_toUInt16]
      omega
    constructor
    · rw [List.map_cons,List.all_cons,hall,Bool.and_true,isDigit,Bool.and_eq_true,
        decide_eq_true_eq,decide_eq_true_eq,UInt16.le_iff_toNat_le,UInt16.le_iff_toNat_le,hnat]
      exact hbounds
    · intro n
      rw [List.map_cons,List.foldl_cons,hval,Nat.ofDigitChars_cons,hnat]
      rfl

theorem digits_toString (n : Nat) :
    js (toString n) ≠ [] ∧ (js (toString n)).all isDigit ∧ digitsValue (js (toString n)) = n := by
  have hjs : js (toString n) = (Nat.toDigits 10 n).map (fun ch => ch.val.toUInt16) := by
    rw [js,← Nat.toList_repr]
    rfl
  have hdigit : ∀ d ∈ Nat.toDigits 10 n, d.isDigit :=
    fun d hd => Nat.isDigit_of_mem_toDigits (by omega) (by omega) hd
  obtain ⟨hall,hval⟩ := digitsValue_map hdigit
  rw [hjs,digitsValue,hval,Nat.ofDigitChars_ten_toDigits]
  exact ⟨by simp [Nat.toDigits_ne_nil],hall,rfl⟩

theorem integer_toString {env : JsString → Option JsString} {name : JsString} {max : Nat}
    (fallback : Nat) {n : Bounded max} (h : env name = some (js (toString n.val))) :
    integer env name fallback max = .ok n := by
  obtain ⟨hne,hall,hval⟩ := digits_toString n.val
  have hn := n.property
  simp only [integer,h]
  rw [if_pos ⟨hne,hall⟩]
  simp only [hval]
  rw [dif_pos hn]

def Settings.environment (stringify : Json → JsString) (s : Settings) (name : JsString) :
    Option JsString :=
  if name = js "HOST" then some s.host
  else if name = js "PORT" then some (js (toString s.port.val))
  else if name = js "BASE_PATH" then some s.basePath.text
  else if name = js "ICE_SERVERS" then some (stringify (.arr s.rtcConfig.iceServers))
  else if name = js "ICE_TRANSPORT_POLICY" then some s.rtcConfig.iceTransportPolicy.text
  else if name = js "MAX_PARTICIPANTS" then some (js (toString s.maxParticipants.val))
  else if name = js "MAX_MESSAGE_BYTES" then some (js (toString s.maxMessageBytes.val))
  else if name = js "RATE_LIMIT_MESSAGES" then some (js (toString s.rateLimitTokens.val))
  else if name = js "ALLOWED_ORIGINS" then some ([44].intercalate s.allowedOrigins)
  else none

theorem setting_of_some {env : JsString → Option JsString} {name fallback text : JsString}
    (h : env name = some text) (hne : text ≠ [] ∨ fallback = []) :
    setting env name fallback = text := by
  rw [setting,h]
  cases text with
  | nil => exact hne.resolve_left (fun h => h rfl)
  | cons u text => rfl

theorem policy_ofString (policy : IceTransportPolicy) :
    IceTransportPolicy.ofString policy.text = some policy := by
  cases policy <;> decide

theorem readOrigins_intercalate {origins : List JsString} (h : ∀ o ∈ origins, originOk o) :
    readOrigins ([44].intercalate origins) = origins := by
  cases origins with
  | nil => rfl
  | cons o origins =>
    have hsplit := List.splitOn_intercalate 44 (fun l hl => (h l hl).2.2) (by simp)
    have htrim : (o :: origins).map trim = o :: origins := by
      refine (List.map_congr_left (fun l hl => (h l hl).2.1)).trans ?_
      exact List.map_id _
    have hfilter : (o :: origins).filter (· ≠ []) = o :: origins := by
      refine List.filter_eq_self.mpr (fun l hl => ?_)
      simpa using (h l hl).1
    rw [readOrigins,hsplit,htrim,hfilter]

/-- Every settings can be said in an environment, and are what is read from it. -/
theorem settings_round_trip {parse : JsString → Option Json} {stringify : Json → JsString}
    (s : Settings) (hne : stringify (.arr s.rtcConfig.iceServers) ≠ [])
    (hjson : parse (stringify (.arr s.rtcConfig.iceServers)) = some (.arr s.rtcConfig.iceServers)) :
    Settings.loadConfig parse (s.environment stringify) = .ok s := by
  have hbase : setting (s.environment stringify) (js "BASE_PATH") (js "/") = s.basePath.text := by
    refine setting_of_some rfl (.inl (fun h => ?_))
    have hok := s.basePath.ok
    rw [h] at hok
    cases hok
  have hice : setting (s.environment stringify) (js "ICE_SERVERS") defaultIceServers =
      stringify (.arr s.rtcConfig.iceServers) := setting_of_some rfl (.inl hne)
  have hpolicy : setting (s.environment stringify) (js "ICE_TRANSPORT_POLICY") (js "all") =
      s.rtcConfig.iceTransportPolicy.text := by
    refine setting_of_some rfl (.inl ?_)
    cases s.rtcConfig.iceTransportPolicy <;> decide
  have hhost : setting (s.environment stringify) (js "HOST") defaultHost = s.host :=
    setting_of_some rfl (.inl s.host_ok)
  have horigins : setting (s.environment stringify) (js "ALLOWED_ORIGINS") [] =
      [44].intercalate s.allowedOrigins := setting_of_some rfl (.inr rfl)
  have hreadBase : readBasePath s.basePath.text = .ok s.basePath := dif_pos s.basePath.ok
  have hreadIce : readIceServers (some (.arr s.rtcConfig.iceServers)) =
      .ok ⟨s.rtcConfig.iceServers,s.rtcConfig.servers_ok⟩ := dif_pos s.rtcConfig.servers_ok
  have hreadRtc : readRtcConfig ⟨s.rtcConfig.iceServers,s.rtcConfig.servers_ok⟩
      s.rtcConfig.iceTransportPolicy.text = .ok s.rtcConfig := by
    rw [readRtcConfig,policy_ofString]
    exact dif_pos s.rtcConfig.relay_ok
  have hport := integer_toString 3081 (rfl : s.environment stringify (js "PORT") = _)
  have hbytes := integer_toString 65536 (rfl : s.environment stringify (js "MAX_MESSAGE_BYTES") = _)
  have hparticipants := integer_toString 6 (rfl : s.environment stringify (js "MAX_PARTICIPANTS") = _)
  have htokens := integer_toString 120 (rfl : s.environment stringify (js "RATE_LIMIT_MESSAGES") = _)
  rw [Settings.loadConfig,hbase,hice,hpolicy,hjson,except_bind_ok hreadBase,
    except_bind_ok hreadIce,except_bind_ok hreadRtc,except_bind_ok hport,except_bind_ok hbytes,
    except_bind_ok hparticipants,except_bind_ok htokens]
  simp only [hhost,horigins,readOrigins_intercalate s.origins_ok]
  rfl

def relayServers : List Json := [.obj [(js "urls",.str (js "turn:turn.example:3478"))]]

theorem relayServers_ok : relayServers.all iceServerOk = true := by decide
theorem relayServers_relay : IceTransportPolicy.relay = .relay → relayServers.any isTurnServer = true :=
  fun _ => by decide
theorem meetPath_ok : basePathOk (js "/meet/") = true := by decide
theorem meetPort_bounds : 1 ≤ 3081 ∧ 3081 ≤ 65535 := by decide
theorem meetBytes_bounds : 1 ≤ 65536 ∧ 65536 ≤ 1048576 := by decide
theorem meetOrigins_ok : ∀ origin ∈ [js "https://meet.example"], originOk origin := by
  intro origin h
  rw [List.mem_singleton.mp h]
  exact ⟨by decide,by decide,by decide⟩

def meetSettings : Settings where
  host := defaultHost
  port := ⟨3081,meetPort_bounds⟩
  basePath := ⟨js "/meet/",meetPath_ok⟩
  maxMessageBytes := ⟨65536,meetBytes_bounds⟩
  maxParticipants := ⟨6,(defaultConfig []).maxParticipants_bounds⟩
  rateLimitTokens := ⟨120,(defaultConfig []).rateLimitTokens_bounds⟩
  rtcConfig := ⟨relayServers,.relay,relayServers_ok,relayServers_relay⟩
  allowedOrigins := [js "https://meet.example"]
  host_ok := defaultHost_ne_nil
  origins_ok := meetOrigins_ok

/-- `JSON.stringify` and `JSON.parse` on the list of that one server. -/
def relayServersText : JsString := js "[\x7b\"urls\":\"turn:turn.example:3478\"\x7d]"

theorem settings_round_trip_meet :
    Settings.loadConfig (fun text => if text = relayServersText then some (.arr relayServers) else none)
      (meetSettings.environment (fun _ => relayServersText)) = .ok meetSettings :=
  settings_round_trip meetSettings (by decide) (if_pos rfl)

end MaiaMeet
