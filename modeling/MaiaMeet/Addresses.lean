import MaiaMeet.StaticFiles
set_option autoImplicit false

/-! The addresses a page goes by: its scripts and its WebSocket, all relative to where it was
loaded from. -/

namespace MaiaMeet

/-- A URL as far as `new URL` and the WebSocket handshake look at it. -/
structure Url where
  protocol : JsString
  host : JsString
  path : JsString
  search : JsString
  deriving DecidableEq, Repr

def mergePath (path : List JsString) : List JsString → List JsString
  | [] => path
  | [s] =>
    if upSegment s then path.dropLast ++ [[]] else if s = [46] then path ++ [[]] else path ++ [s]
  | s :: t :: rest =>
    mergePath (if upSegment s then path.dropLast else if s = [46] then path else path ++ [s])
      (t :: rest)

/-- `new URL(reference, base)`, of a reference that is a path without a leading slash. -/
def Url.relative (base : Url) (reference : JsString) : Url :=
  { base with
    path := Segments.text 47 (mergePath (base.path.splitOn 47).tail.dropLast (reference.splitOn 47))
    search := [] }

def Url.target (url : Url) : JsString := url.path ++ url.search

/-- `moduleUrl` is `import.meta.url` of config.js. -/
def signalingUrl (moduleUrl : Url) : Url :=
  { moduleUrl.relative (js "../ws") with
    protocol := if moduleUrl.protocol = js "https:" then js "wss:" else js "ws:" }

/-- The modules that app.js imports. -/
def appModules : List JsString :=
  [js "config.js",js "signaling.js",js "devices.js",js "webrtc.js",js "room.js",js "ui.js",
    js "chat.js"]

def appModule (page : Url) (name : JsString) : Url :=
  (page.relative (js "js/app.js")).relative (js "./" ++ name)

def configModule (page : Url) : Url := appModule page (js "config.js")

theorem relative_path {base : Url} {segments : List JsString} {file : JsString}
    (hpath : base.path = Segments.text 47 (segments ++ [file]))
    (hsegments : ∀ s ∈ segments, 47 ∉ s) (hfile : 47 ∉ file) (reference : JsString) :
    (base.relative reference).path =
      Segments.text 47 (mergePath segments (reference.splitOn 47)) := by
  have hall : ∀ s ∈ segments ++ [file], 47 ∉ s := by
    intro s hs
    rcases List.mem_append.mp hs with hs | hs
    · exact hsegments s hs
    · exact List.mem_singleton.mp hs ▸ hfile
  rw [Url.relative,hpath,Segments.splitOn_text (by simp) hall,List.tail_cons,List.dropLast_concat]

theorem text_closed (segments : List JsString) (file : JsString) :
    Segments.text 47 (segments ++ [file]) = 47 :: segments.flatMap (· ++ [47]) ++ file := by
  rw [Segments.text_of_ne_nil (by simp),List.flatMap_append,List.flatMap_singleton]
  induction segments with
  | nil => rfl
  | cons s segments ih =>
    rw [List.flatMap_cons,List.flatMap_cons,List.append_assoc,ih]
    simp

theorem mergePath_names (path : List JsString) {l : List JsString} (hl : ∀ s ∈ l, nameSegment s)
    (hne : l ≠ []) : mergePath path l = path ++ l := by
  induction l generalizing path with
  | nil => exact absurd rfl hne
  | cons s l ih =>
    obtain ⟨⟨hskip,hup⟩,-⟩ := hl s List.mem_cons_self
    have hdot : s ≠ [46] := by
      rintro rfl
      cases hskip
    have hup : ¬upSegment s := by simp [hup]
    cases l with
    | nil => rw [mergePath,if_neg hup,if_neg hdot]
    | cons t rest =>
      rw [mergePath,if_neg hup,if_neg hdot,ih _ (fun u hu => hl u (List.mem_cons_of_mem s hu))
        (by simp),List.append_assoc,List.singleton_append]

theorem relative_names {base : Url} {segments : List JsString} {file : JsString}
    (hpath : base.path = Segments.text 47 (segments ++ [file]))
    (hsegments : ∀ s ∈ segments, 47 ∉ s) (hfile : 47 ∉ file) {l : List JsString}
    (hl : ∀ s ∈ l, nameSegment s) (hne : l ≠ []) :
    (base.relative ([47].intercalate l)).path = Segments.text 47 (segments ++ l) := by
  rw [relative_path hpath hsegments hfile,
    List.splitOn_intercalate 47 (fun s hs => (hl s hs).2) hne,mergePath_names _ hl hne]

theorem basePath_segments (basePath : BasePath) :
    ∃ segments : List JsString, (∀ s ∈ segments, 47 ∉ s) ∧
      ∀ name, basePath.text ++ name = Segments.text 47 (segments ++ [name]) := by
  obtain ⟨segments,hs,htext⟩ := basePathOk_iff.mp basePath.ok
  refine ⟨segments,fun s hmem h => ?_,fun name => by rw [text_closed,htext]⟩
  exact absurd (List.all_eq_true.mp (hs s hmem).2 47 h) (by decide)

theorem js_name : nameSegment (js "js") := ⟨⟨by decide,by decide⟩,by decide⟩

theorem appScript_names : ∀ s ∈ [js "js",js "app.js"], nameSegment s := by
  intro s hs
  rcases List.mem_cons.mp hs with rfl | hs
  · exact js_name
  · rw [List.mem_singleton.mp hs]
    exact ⟨⟨by decide,by decide⟩,by decide⟩

theorem appModules_names : ∀ name ∈ appModules, nameSegment name := by
  have hplain : ∀ name ∈ appModules,
      (skipSegment name = false ∧ upSegment name = false) ∧ 47 ∉ name := by decide
  exact hplain

theorem page_paths (cfg : Settings) {page : Url} {file : JsString} (hfile : 47 ∉ file)
    (hpage : page.path = cfg.basePath.text ++ file) :
    (page.relative (js "js/app.js")).path = cfg.basePath.text ++ js "js/app.js" ∧
      (∀ name, nameSegment name →
        (appModule page name).path = cfg.basePath.text ++ (js "js/" ++ name)) ∧
      (signalingUrl (configModule page)).target = cfg.basePath.text ++ js "ws" := by
  obtain ⟨segments,hsep,hbase⟩ := basePath_segments cfg.basePath
  have hclosed : ∀ name, Segments.text 47 (segments ++ [js "js",name]) =
      cfg.basePath.text ++ (js "js/" ++ name) := by
    intro name
    have hjs := text_closed (segments ++ [js "js"]) name
    rw [List.append_assoc,List.singleton_append] at hjs
    rw [hjs,hbase,text_closed]
    simp [js]
  have hsep' : ∀ s ∈ segments ++ [js "js"], 47 ∉ s := by
    intro s hmem
    rcases List.mem_append.mp hmem with hmem | hmem
    · exact hsep s hmem
    · exact List.mem_singleton.mp hmem ▸ js_name.2
  have happ : (page.relative (js "js/app.js")).path =
      Segments.text 47 ((segments ++ [js "js"]) ++ [js "app.js"]) := by
    have hname := relative_names (hpage.trans (hbase file)) hsep hfile appScript_names (by simp)
    rwa [show [47].intercalate [js "js",js "app.js"] = js "js/app.js" by decide,
      ← List.singleton_append,← List.append_assoc] at hname
  have hmodule : ∀ name, nameSegment name →
      (appModule page name).path = Segments.text 47 ((segments ++ [js "js"]) ++ [name]) := by
    intro name hname
    have hsplit : (js "./" ++ name).splitOn 47 = [[46],name] := by
      have hseparate : ∀ s ∈ [[46],name], 47 ∉ s := by simpa using hname.2
      have htext : js "./" ++ name = [47].intercalate [[46],name] := by
        rw [List.intercalate_cons_cons,List.intercalate_singleton]
        simp [js]
      rw [htext,List.splitOn_intercalate 47 hseparate (by simp)]
    rw [appModule,relative_path happ hsep' (by decide),hsplit,mergePath,if_neg (by decide),
      if_pos rfl,mergePath_names _ (by simpa using hname) (by simp)]
  refine ⟨happ.trans ?_,fun name hname => (hmodule name hname).trans ?_,?_⟩
  · rw [List.append_assoc,List.singleton_append,hclosed]
    rfl
  · rw [List.append_assoc,List.singleton_append,hclosed]
  · have hconfig := hmodule (js "config.js") (appModules_names _ (by decide))
    have hpath : ((configModule page).relative (js "../ws")).path =
        Segments.text 47 (segments ++ [js "ws"]) := by
      rw [configModule,relative_path hconfig hsep' (by decide)]
      rw [show (js "../ws").splitOn 47 = [[46,46],js "ws"] by decide,mergePath,
        if_pos (by decide),List.dropLast_concat,mergePath,if_neg (by decide),if_neg (by decide)]
    rw [Url.target,hbase,← hpath]
    exact List.append_nil _

/-- Under every base path, and whatever file at the base path a page was loaded as, its script
and all modules that imports are asked for below the base path, and its WebSocket is the one
address that the server upgrades. -/
theorem page_addresses (cfg : Settings) {page : Url} {file : JsString} (hfile : 47 ∉ file)
    (hpage : page.path = cfg.basePath.text ++ file) :
    (page.relative (js "js/app.js")).path = cfg.basePath.text ++ js "js/app.js" ∧
      (∀ name ∈ appModules,
        (appModule page name).path = cfg.basePath.text ++ (js "js/" ++ name)) ∧
      (signalingUrl (configModule page)).host = page.host ∧
      ∀ url origin, Http.upgrades cfg url origin ↔
        url = (signalingUrl (configModule page)).target ∧
          (cfg.allowedOrigins = [] ∨ ∃ o ∈ cfg.allowedOrigins, origin = some o) := by
  obtain ⟨happ,hmodule,hws⟩ := page_paths cfg hfile hpage
  refine ⟨happ,fun name hname => hmodule name (appModules_names name hname),rfl,
    fun url origin => ?_⟩
  rw [hws,Http.upgrades]
  cases origin with
  | none => simp
  | some o => simp

theorem page_addresses_meet :
    (appModule ⟨js "https:",js "meet.example",js "/meet/index.html",[]⟩ (js "webrtc.js")).path =
        js "/meet/js/webrtc.js" ∧
      js "/meet/ws" = (signalingUrl (configModule
        ⟨js "https:",js "meet.example",js "/meet/index.html",[]⟩)).target := by
  obtain ⟨-,hmodule,-,hupgrades⟩ := page_addresses meetSettings (by decide)
    (rfl : Url.path ⟨js "https:",js "meet.example",js "/meet/index.html",[]⟩ =
      meetSettings.basePath.text ++ js "index.html")
  have h := hupgrades (js "/meet/ws") (some (js "https://meet.example"))
  exact ⟨hmodule (js "webrtc.js") (by decide),(h.mp (by decide)).1⟩

def Response.redirects (r : Response) : Prop := 300 ≤ r.status ∧ r.status < 400

instance (r : Response) : Decidable r.redirects := inferInstanceAs (Decidable (_ ∧ _))

theorem empty_redirects {status : Nat} {headers : List (JsString × JsString)} :
    (Http.empty status headers).redirects ↔ 300 ≤ status ∧ status < 400 := Iff.rfl

theorem serve_redirects (root : ClientRoot) (files : JsString → Option (List UInt8))
    (method path : JsString) : ¬(Http.serve root files method path).redirects := by
  have hmissing : ¬(Http.empty 404 []).redirects := by decide
  rw [Http.serve]
  split
  · cases mimeOf (extname path) with
    | none => exact hmissing
    | some contentType =>
      cases files path with
      | none => exact hmissing
      | some contents => exact fun h => absurd h.1 (by decide : ¬300 ≤ 200)
  · exact hmissing

theorem respond_redirects {cfg : Settings} {root : ClientRoot}
    {files : JsString → Option (List UInt8)} {req : Request}
    (h : (Http.respond cfg root files req).redirects) :
    ∃ pathname search p, req.url = some (pathname,search) ∧ Percent.decode pathname = some p ∧
      ¬(req.method ≠ js "GET" ∧ req.method ≠ js "HEAD") ∧
      (cfg.basePath.text ≠ [47] ∧ p = cfg.basePath.text.dropLast) := by
  obtain ⟨method,url⟩ := req
  obtain - | ⟨pathname,search⟩ := url
  · rw [Http.respond,empty_redirects] at h
    omega
  rw [Http.respond] at h
  cases hdecode : Percent.decode pathname with
  | none =>
    simp only [hdecode,empty_redirects] at h
    omega
  | some p =>
    simp only [hdecode,Http.route] at h
    by_cases hmethod : method ≠ js "GET" ∧ method ≠ js "HEAD"
    · rw [if_pos hmethod,empty_redirects] at h
      omega
    · refine ⟨pathname,search,p,rfl,hdecode,hmethod,?_⟩
      by_contra hredirect
      rw [if_neg hmethod,if_neg hredirect] at h
      split at h
      · split at h
        · exact absurd h.1 (by decide : ¬300 ≤ 200)
        · exact serve_redirects root files method _ h
      · rw [empty_redirects] at h
        omega

/-- What GET and HEAD of the base path itself are answered. -/
theorem respond_basePath (cfg : Settings) (root : ClientRoot)
    (files : JsString → Option (List UInt8)) {method : JsString} (search : JsString)
    (hmethod : ¬(method ≠ js "GET" ∧ method ≠ js "HEAD")) :
    Http.respond cfg root files ⟨method,some (cfg.basePath.text,search)⟩ =
      Http.serve root files method (Segments.text 47 (root.segments ++ [js "index.html"])) := by
  have hself : Percent.decode cfg.basePath.text = some cfg.basePath.text := by
    have hplain := Percent.decode_append (basePath_no_escape cfg.basePath) []
    rw [List.append_nil] at hplain
    rw [hplain]
    exact congrArg some (List.append_nil _)
  have hne : cfg.basePath.text ≠ cfg.basePath.text.dropLast := by
    intro hdrop
    obtain ⟨segments,_,htext⟩ := basePathOk_iff.mp cfg.basePath.ok
    have hlength := congrArg List.length hdrop
    rw [List.length_dropLast,htext,List.length_cons] at hlength
    omega
  have hindex : ∀ s ∈ [js "index.html"], nameSegment s :=
    fun s hmem => List.mem_singleton.mp hmem ▸ ⟨⟨by decide,by decide⟩,by decide⟩
  rw [Http.respond]
  simp only [hself,Http.route]
  rw [if_neg hmethod,if_neg (fun hc => hne hc.2),if_pos List.prefix_rfl,List.drop_length,
    if_neg (by decide)]
  exact congrArg _ (target_intercalate root hindex (by simp))

theorem basePath_one_slash (basePath : BasePath) (hroot : basePath.text ≠ [47]) (rest : JsString) :
    ¬js "//" <+: basePath.text ++ rest := by
  obtain ⟨segments,hs,htext⟩ := basePathOk_iff.mp basePath.ok
  intro hslashes
  cases segments with
  | nil => exact hroot htext
  | cons s segments =>
    obtain ⟨hne,hword⟩ := hs s List.mem_cons_self
    obtain ⟨u,s,rfl⟩ := List.exists_cons_of_ne_nil hne
    have hpre : js "//" <+: 47 :: u :: (s ++ [47] ++ segments.flatMap (· ++ [47]) ++ rest) := by
      rw [htext] at hslashes
      simpa using hslashes
    have hu : u = 47 := ((List.cons_prefix_cons.mp (List.cons_prefix_cons.mp hpre).2).1).symm
    have hslash : isWord 47 = false := by decide
    rw [hu,List.all_cons,hslash] at hword
    cases hword

/-- A redirect goes to the base path, on the server's own host. There it ends, at the page
itself. -/
theorem redirect_ends {cfg : Settings} {root : ClientRoot}
    {files : JsString → Option (List UInt8)} {req : Request}
    (h : (Http.respond cfg root files req).redirects) :
    ∃ pathname search, req.url = some (pathname,search) ∧
      Http.respond cfg root files req =
        Http.empty 308 [(js "Location",cfg.basePath.text ++ search)] ∧
      ¬js "//" <+: cfg.basePath.text ++ search ∧
      Http.respond cfg root files ⟨req.method,some (cfg.basePath.text,search)⟩ =
        Http.serve root files req.method (Segments.text 47 (root.segments ++ [js "index.html"])) ∧
      ¬(Http.respond cfg root files ⟨req.method,some (cfg.basePath.text,search)⟩).redirects := by
  obtain ⟨pathname,search,p,hurl,hdecode,hmethod,hredirect⟩ := respond_redirects h
  have hpage := respond_basePath cfg root files search hmethod
  refine ⟨pathname,search,hurl,?_,basePath_one_slash cfg.basePath hredirect.1 search,hpage,?_⟩
  · rw [Http.respond,hurl]
    simp only [hdecode,Http.route]
    rw [if_neg hmethod,if_pos hredirect]
  · rw [hpage]
    exact serve_redirects root files req.method _

theorem redirect_ends_meet :
    Http.respond meetSettings clientRoot (fun _ => some [60])
        ⟨js "GET",some (js "/meet",js "?room=abc")⟩ =
          Http.empty 308 [(js "Location",js "/meet/" ++ js "?room=abc")] ∧
      ¬(Http.respond meetSettings clientRoot (fun _ => some [60])
        ⟨js "GET",some (js "/meet/",js "?room=abc")⟩).redirects := by
  have h : (Http.respond meetSettings clientRoot (fun _ => some [60])
      ⟨js "GET",some (js "/meet",js "?room=abc")⟩).redirects := by decide
  obtain ⟨_,_,hurl,hlocation,-,-,hends⟩ := redirect_ends h
  obtain ⟨-,rfl⟩ := Prod.mk.inj (Option.some.inj hurl)
  exact ⟨hlocation,hends⟩

end MaiaMeet
