import MaiaMeet.Addresses
import MaiaMeet.Lines
set_option autoImplicit false

/-! The environment that install-apps.py writes for the service, and whom the service then lets
in. -/

namespace MaiaMeet

/-- `[A-Za-z0-9.-]` -/
def isHost (u : UInt16) : Bool := isAlnum u || u == 46 || u == 45

/-- What `--domain` and `--meet-domain` are checked for. -/
abbrev DomainName := {name : JsString // name ≠ [] ∧ name.all isHost}

/-- `--bind`, the text of an IPv4 address. -/
abbrev BindAddress := {address : JsString // address ≠ [] ∧ address.all isHost}

/-- The arguments; `dedicated` holds the address to bind. -/
structure NodeRoute where
  port : Bounded 65535
  domain : DomainName
  meetDomain : DomainName
  dedicated : Option BindAddress

namespace NodeRoute

variable (a : NodeRoute)

def bindHost : JsString :=
  match a.dedicated with
  | some address => address.val
  | none => js "127.0.0.1"

def basePath : JsString := if a.dedicated.isSome then js "/" else js "/maia-meet/"

def publicUrl : JsString :=
  if a.dedicated.isSome then js "https://" ++ a.meetDomain.val ++ js "/"
  else js "https://" ++ a.domain.val ++ js "/maia-meet/"

/-- `public_url.rstrip('/')` -/
def allowedOrigins : JsString := a.publicUrl.rdropWhile (· = 47)

def settings : List (JsString × JsString) :=
  [(js "HOST",a.bindHost),(js "PORT",js (toString a.port.val)),(js "BASE_PATH",a.basePath),
    (js "ALLOWED_ORIGINS",a.allowedOrigins)]

end NodeRoute

/-- What `splitlines` takes for the end of a line; `read_text` leaves no carriage return. -/
def lineBreak (u : UInt16) : Bool :=
  (10 ≤ u && u ≤ 13) || (28 ≤ u && u ≤ 30) || u == 133 || u == 0x2028 || u == 0x2029

/-- `\s` of Python. -/
def pySpace (u : UInt16) : Bool :=
  (9 ≤ u && u ≤ 13) || (28 ≤ u && u ≤ 32) || u == 133 || u == 0xa0 || u == 0x1680 ||
    (0x2000 ≤ u && u ≤ 0x200a) || u == 0x2028 || u == 0x2029 || u == 0x202f || u == 0x205f ||
    u == 0x3000

/-- `(?:export\s+)?` -/
def afterExport (line : JsString) : JsString :=
  if js "export" <+: line ∧ ((line.drop 6).head?.any pySpace) then
    (line.drop 6).dropWhile pySpace
  else line

def routeNames : List JsString := [js "HOST",js "PORT",js "BASE_PATH",js "ALLOWED_ORIGINS"]

/-- `re.match(r'\s*(?:export\s+)?(?:HOST|PORT|BASE_PATH|ALLOWED_ORIGINS)\s*=', line)` -/
def setsRoute (line : JsString) : Bool :=
  let rest := afterExport (line.dropWhile pySpace)
  routeNames.any (fun name => decide (name <+: rest) &&
    decide (((rest.drop name.length).dropWhile pySpace).head? = some 61))

/-- The text of /etc/maia-meet/meet.env. -/
def NodeRoute.environment (a : NodeRoute) (text : JsString) : JsString :=
  Lines.replace lineBreak 10 setsRoute (a.settings.map (fun p => p.1 ++ 61 :: p.2)) text

theorem setsRoute_own {name : JsString} (h : name ∈ routeNames) (value : JsString) :
    setsRoute (name ++ 61 :: value) := by
  have hstart : ∀ n ∈ routeNames, n ≠ [] ∧ n.head?.all (fun u => !pySpace u && u ≠ 101) := by decide
  obtain ⟨hne,hhead⟩ := hstart name h
  obtain ⟨u,n,rfl⟩ := List.exists_cons_of_ne_nil hne
  simp only [List.head?_cons,Option.all_some,Bool.and_eq_true,Bool.not_eq_true',
    decide_eq_true_eq] at hhead
  have hdrop : (u :: n ++ 61 :: value).dropWhile pySpace = u :: n ++ 61 :: value := by
    rw [List.cons_append,List.dropWhile_cons_of_neg (by simp [hhead.1])]
  have hexport : ¬js "export" <+: u :: n ++ 61 :: value := by
    rw [show js "export" = 101 :: js "xport" from rfl,List.cons_append,List.cons_prefix_cons]
    exact fun hp => hhead.2 hp.1.symm
  have hafter : afterExport (u :: n ++ 61 :: value) = u :: n ++ 61 :: value :=
    if_neg (fun hp => hexport hp.1)
  rw [setsRoute,hdrop,hafter]
  refine List.any_eq_true.mpr ⟨u :: n,h,?_⟩
  rw [List.drop_left,List.dropWhile_cons_of_neg (by decide)]
  simp

theorem isHost_lt {u : UInt16} (h : isHost u) : u.toNat < 128 := by
  simp only [isHost,Bool.or_eq_true,beq_iff_eq] at h
  rcases h with (h | rfl) | rfl
  · exact isAlnum_lt h
  · decide
  · decide

theorem host_units {s : JsString} (h : s.all isHost) :
    ∀ u ∈ s, lineBreak u = false ∧ isSpace u = false ∧ u ≠ 44 ∧ u ≠ 47 := by
  have hall : ∀ k : Fin 128, isHost (UInt16.ofNat k) → lineBreak (UInt16.ofNat k) = false ∧
      isSpace (UInt16.ofNat k) = false ∧ UInt16.ofNat k ≠ 44 ∧ UInt16.ofNat k ≠ 47 := by
    decide +kernel
  intro u hu
  have hhost := List.all_eq_true.mp h u hu
  have hunit := hall ⟨u.toNat,isHost_lt hhost⟩
  rw [UInt16.ofNat_toNat] at hunit
  exact hunit hhost

namespace NodeRoute

variable (a : NodeRoute)

def publicHost : JsString := if a.dedicated.isSome then a.meetDomain.val else a.domain.val

theorem publicHost_units : ∀ u ∈ a.publicHost,
    lineBreak u = false ∧ isSpace u = false ∧ u ≠ 44 ∧ u ≠ 47 := by
  rw [publicHost]
  split
  · exact host_units a.meetDomain.property.2
  · exact host_units a.domain.property.2

theorem publicHost_ne_nil : a.publicHost ≠ [] := by
  rw [publicHost]
  split
  · exact a.meetDomain.property.1
  · exact a.domain.property.1

theorem allowedOrigins_eq : a.allowedOrigins =
    js "https://" ++ a.publicHost ++ (if a.dedicated.isSome then [] else js "/maia-meet") := by
  cases hd : a.dedicated.isSome with
  | true =>
    have hurl : a.publicUrl = js "https://" ++ a.publicHost ++ [47] := by
      simp [publicUrl,publicHost,hd,js]
    obtain ⟨l,u,hl⟩ := List.eq_nil_or_concat a.publicHost |>.resolve_left a.publicHost_ne_nil
    have hu : ¬decide (u = 47) = true := by
      have hunit := a.publicHost_units u (by simp [hl])
      simpa using hunit.2.2.2
    have hstop : (js "https://" ++ l ++ [u]).rdropWhile (· = 47) = js "https://" ++ l ++ [u] :=
      List.rdropWhile_concat_neg _ _ _ hu
    rw [allowedOrigins,hurl,List.rdropWhile_concat_pos _ _ _ (by decide),hl,
      List.concat_eq_append,← List.append_assoc,hstop]
    simp
  | false =>
    have hurl : a.publicUrl = js "https://" ++ a.publicHost ++ js "/maia-mee" ++ [116] ++ [47] := by
      simp [publicUrl,publicHost,hd,js]
    rw [allowedOrigins,hurl,List.rdropWhile_concat_pos _ _ _ (by decide),
      List.rdropWhile_concat_neg _ _ _ (by decide)]
    simp [js]

end NodeRoute

theorem settings_name (a : NodeRoute) : ∀ p ∈ a.settings, p.1 ∈ routeNames := by
  simp [NodeRoute.settings,routeNames]

theorem settings_value (a : NodeRoute) : ∀ p ∈ a.settings, ∀ u ∈ p.2, lineBreak u = false := by
  have hlocal : ∀ u ∈ js "127.0.0.1", lineBreak u = false :=
    units_of_all (by decide)
  have hroot : ∀ u ∈ js "/", lineBreak u = false :=
    units_of_all (by decide)
  have hpath : ∀ u ∈ js "/maia-meet/", lineBreak u = false :=
    units_of_all (by decide)
  have hscheme : ∀ u ∈ js "https://", lineBreak u = false :=
    units_of_all (by decide)
  intro p hp
  simp only [NodeRoute.settings,List.mem_cons,List.not_mem_nil,or_false] at hp
  rcases hp with rfl | rfl | rfl | rfl
  · simp only [NodeRoute.bindHost]
    split
    · rename_i address _
      exact fun u hu => (host_units address.property.2 u hu).1
    · exact hlocal
  · intro u hu
    have hdigit := List.all_eq_true.mp (digits_toString a.port.val).2.1 u hu
    have hhost : ([u] : JsString).all isHost := by simp [isHost,isAlnum,hdigit]
    exact (host_units hhost u (List.mem_singleton_self u)).1
  · simp only [NodeRoute.basePath]
    split
    · exact hroot
    · exact hpath
  · simp only [NodeRoute.allowedOrigins_eq]
    intro u hu
    rcases List.mem_append.mp hu with hu | hu
    · rcases List.mem_append.mp hu with hu | hu
      · exact hscheme u hu
      · exact (a.publicHost_units u hu).1
    · split at hu
      · cases hu
      · have hsub : js "/maia-meet" <+: js "/maia-meet/" := by decide
        exact hpath u (hsub.subset hu)

theorem settings_line {a : NodeRoute} {p : JsString × JsString} (hp : p ∈ a.settings) :
    ∀ u ∈ p.1 ++ 61 :: p.2, lineBreak u = false := by
  have hname : ∀ n ∈ routeNames, n.all (fun u => decide (lineBreak u = false)) := by decide
  intro u hu
  rcases List.mem_append.mp hu with hu | hu
  · exact units_of_all (hname p.1 (settings_name a p hp)) u hu
  · rcases List.mem_cons.mp hu with rfl | hu
    · decide
    · exact settings_value a p hp u hu

/-- Whatever the old environment was, four lines of the new one set the route, as the arguments
have it, in the place behind all others; the others stay as they were and in their order. A
later installation, whatever its arguments, finds nothing else to go by than it found before. -/
theorem environment_rewritten (a b : NodeRoute) (text : JsString) :
    (Lines.split lineBreak (a.environment text)).filter setsRoute =
        a.settings.map (fun p => p.1 ++ 61 :: p.2) ∧
      Lines.split lineBreak (a.environment text) = Lines.kept lineBreak setsRoute text ++
        a.settings.map (fun p => p.1 ++ 61 :: p.2) ∧
      b.environment (a.environment text) = b.environment text := by
  have hmine : ∀ l ∈ a.settings.map (fun p => p.1 ++ 61 :: p.2),
      (∀ u ∈ l, lineBreak u = false) ∧ setsRoute l := by
    intro l hl
    obtain ⟨p,hp,rfl⟩ := List.mem_map.mp hl
    exact ⟨settings_line hp,setsRoute_own (settings_name a p hp) p.2⟩
  have hnl : lineBreak 10 := by decide
  have hnil : setsRoute [] = false := by decide
  exact ⟨Lines.own_replace hnl hnil hmine text,
    Lines.split_replace hnl (fun l hl => (hmine l hl).1) text,
    Lines.replace_replace hnl hnil hmine _ text⟩

theorem loadConfig_route {parse : JsString → Option Json} {env : JsString → Option JsString}
    {s : Settings} (h : Settings.loadConfig parse env = .ok s) :
    s.basePath.text = setting env (js "BASE_PATH") (js "/") ∧
      s.allowedOrigins = readOrigins (setting env (js "ALLOWED_ORIGINS") []) := by
  obtain ⟨basePath,hpath,h⟩ := except_bind h
  obtain ⟨iceServers,_,h⟩ := except_bind h
  obtain ⟨rtcConfig,_,h⟩ := except_bind h
  obtain ⟨port,_,h⟩ := except_bind h
  obtain ⟨maxMessageBytes,_,h⟩ := except_bind h
  obtain ⟨maxParticipants,_,h⟩ := except_bind h
  obtain ⟨rateLimitTokens,_,h⟩ := except_bind h
  cases h
  rw [readBasePath] at hpath
  split at hpath
  · cases hpath
    exact ⟨rfl,rfl⟩
  · cases hpath

/-- What the service takes for the allowed origins is the one text that the installer gave. -/
theorem allowedOrigins_ok (a : NodeRoute) : originOk a.allowedOrigins := by
  have hscheme : ∀ u ∈ js "https://", isSpace u = false ∧ u ≠ 44 :=
    units_of_all (by decide)
  have hpath : ∀ u ∈ js "/maia-meet", isSpace u = false ∧ u ≠ 44 :=
    units_of_all (by decide)
  have hunits : ∀ u ∈ a.allowedOrigins, isSpace u = false ∧ u ≠ 44 := by
    rw [a.allowedOrigins_eq]
    intro u hu
    rcases List.mem_append.mp hu with hu | hu
    · rcases List.mem_append.mp hu with hu | hu
      · exact hscheme u hu
      · exact ⟨(a.publicHost_units u hu).2.1,(a.publicHost_units u hu).2.2.1⟩
    · split at hu
      · cases hu
      · exact hpath u hu
  have hne : a.allowedOrigins ≠ [] := by
    rw [a.allowedOrigins_eq]
    simp [js]
  exact ⟨hne,trim_eq_self (fun u hu => (hunits u hu).1) hne,fun h => (hunits 44 h).2 rfl⟩

/-- `location.origin`, which a browser sends with the handshake. -/
def Url.origin (url : Url) : JsString := url.protocol ++ js "//" ++ url.host

/-- A page of the installed service, below the path that the installer names: its WebSocket is let
in if, and only if, the installation is a dedicated one and the host is, as the browser has it, the
name that the installer was given. -/
theorem installed_origin (a : NodeRoute) {parse : JsString → Option Json}
    {env : JsString → Option JsString} {s : Settings}
    (hload : Settings.loadConfig parse env = .ok s) (henv : ∀ p ∈ a.settings, env p.1 = some p.2)
    {page : Url} {file : JsString} (hprotocol : page.protocol = js "https:")
    (hhost : 47 ∉ page.host) (hfile : 47 ∉ file) (hpage : page.path = a.basePath ++ file) :
    Http.upgrades s (signalingUrl (configModule page)).target (some page.origin) ↔
      a.dedicated.isSome ∧ page.host = a.publicHost := by
  obtain ⟨hbase,horigins⟩ := loadConfig_route hload
  have hbase : s.basePath.text = a.basePath := by
    refine hbase.trans (setting_of_some (henv (js "BASE_PATH",a.basePath) ?_) (.inl ?_))
    · simp [NodeRoute.settings]
    · rw [NodeRoute.basePath]
      split <;> decide
  have horigins : s.allowedOrigins = [a.allowedOrigins] := by
    have hread := readOrigins_intercalate
      (fun o (ho : o ∈ [a.allowedOrigins]) => List.mem_singleton.mp ho ▸ allowedOrigins_ok a)
    rw [List.intercalate_singleton] at hread
    rw [horigins,setting_of_some (henv (js "ALLOWED_ORIGINS",a.allowedOrigins)
      (by simp [NodeRoute.settings])) (.inr rfl),hread]
  have htarget := (page_paths s hfile (hpage.trans (by rw [hbase]))).2.2
  have hlet : Http.upgrades s (signalingUrl (configModule page)).target (some page.origin) ↔
      page.origin = a.allowedOrigins := by
    simp [Http.upgrades,htarget,horigins]
  have horigin : page.origin = js "https://" ++ page.host := by
    rw [Url.origin,hprotocol]
    rfl
  rw [hlet,horigin,a.allowedOrigins_eq,List.append_assoc,List.append_cancel_left_eq]
  cases hd : a.dedicated.isSome with
  | true => simp
  | false =>
    -- the path in the setting has a slash, and no host has one
    have hslash : page.host ≠ a.publicHost ++ js "/maia-meet" := by
      intro h
      rw [h] at hhost
      exact hhost (List.mem_append_right _ (by decide))
    simpa using hslash

theorem appsDomain_ok : js "apps.example" ≠ [] ∧ (js "apps.example").all isHost := by decide
theorem meetDomain_ok : js "meet.example" ≠ [] ∧ (js "meet.example").all isHost := by decide
theorem capitalDomain_ok : js "Meet.example" ≠ [] ∧ (js "Meet.example").all isHost := by decide
theorem bindAddress_ok : js "10.77.0.2" ≠ [] ∧ (js "10.77.0.2").all isHost := by decide

def sharedRoute : NodeRoute :=
  ⟨⟨3081,meetPort_bounds⟩,⟨js "apps.example",appsDomain_ok⟩,⟨js "meet.example",meetDomain_ok⟩,none⟩

def dedicatedRoute (meetDomain : DomainName) : NodeRoute :=
  ⟨⟨3081,meetPort_bounds⟩,⟨js "apps.example",appsDomain_ok⟩,meetDomain,
    some ⟨js "10.77.0.2",bindAddress_ok⟩⟩

def NodeRoute.env (a : NodeRoute) (name : JsString) : Option JsString :=
  (a.settings.find? (fun p => p.1 = name)).map Prod.snd

/-- The page behind a shared site is refused, that of a dedicated installation is let in, and it is
refused if the name was given with capitals. -/
theorem installed_origin_shared :
    (∃ s, Settings.loadConfig (fun _ => some (.arr [])) sharedRoute.env = .ok s ∧
      ¬Http.upgrades s (js "/maia-meet/ws") (some (js "https://apps.example"))) ∧
    (∃ s, Settings.loadConfig (fun _ => some (.arr []))
        (dedicatedRoute ⟨js "meet.example",meetDomain_ok⟩).env = .ok s ∧
      Http.upgrades s (js "/ws") (some (js "https://meet.example"))) ∧
    ∃ s, Settings.loadConfig (fun _ => some (.arr []))
        (dedicatedRoute ⟨js "Meet.example",capitalDomain_ok⟩).env = .ok s ∧
      ¬Http.upgrades s (js "/ws") (some (js "https://meet.example")) := by
  have hroute : ∀ (a : NodeRoute), (∀ p ∈ a.settings, a.env p.1 = some p.2) →
      (Settings.loadConfig (fun _ => some (.arr [])) a.env).toOption.isSome →
      ∀ page : Url, page.protocol = js "https:" → 47 ∉ page.host →
      page.path = a.basePath ++ js "index.html" →
      ∃ s, Settings.loadConfig (fun _ => some (.arr [])) a.env = .ok s ∧
        (Http.upgrades s (signalingUrl (configModule page)).target (some page.origin) ↔
          a.dedicated.isSome ∧ page.host = a.publicHost) := by
    intro a henv hsome page hprotocol hhost hpage
    cases hload : Settings.loadConfig (fun _ => some (.arr [])) a.env with
    | error e =>
      rw [hload] at hsome
      cases hsome
    | ok s =>
      exact ⟨s,rfl,installed_origin a hload henv hprotocol hhost (by decide) hpage⟩
  refine ⟨?_,?_,?_⟩
  · obtain ⟨s,hs,h⟩ := hroute sharedRoute (by decide +kernel) (by decide +kernel)
      ⟨js "https:",js "apps.example",js "/maia-meet/index.html",[]⟩ rfl (by decide) (by decide)
    exact ⟨s,hs,fun hup => absurd (h.mp hup).1 (by decide)⟩
  · obtain ⟨s,hs,h⟩ := hroute (dedicatedRoute ⟨js "meet.example",meetDomain_ok⟩) (by decide +kernel)
      (by decide +kernel) ⟨js "https:",js "meet.example",js "/index.html",[]⟩ rfl (by decide)
      (by decide)
    exact ⟨s,hs,h.mpr (by decide)⟩
  · obtain ⟨s,hs,h⟩ := hroute (dedicatedRoute ⟨js "Meet.example",capitalDomain_ok⟩)
      (by decide +kernel) (by decide +kernel) ⟨js "https:",js "meet.example",js "/index.html",[]⟩ rfl
      (by decide) (by decide)
    exact ⟨s,hs,fun hup => absurd (h.mp hup).2 (by decide)⟩

end MaiaMeet
