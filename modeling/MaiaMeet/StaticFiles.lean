import MaiaMeet.Http
set_option autoImplicit false

/-! Which files the server gives out, and under which URLs. -/

namespace MaiaMeet

def ClientRoot.Servable (root : ClientRoot) (path : JsString) : Prop :=
  ∃ s rest, path = Segments.text 47 (root.segments ++ s :: rest) ∧
    (∀ t ∈ s :: rest, nameSegment t) ∧ (mimeOf (extname path)).isSome

theorem resolvePath_names (root : ClientRoot) (relative : JsString) :
    ∀ s ∈ resolvePath root.segments relative, nameSegment s := by
  intro s hs
  have hstart : ∀ t ∈ (if relative.head? = some 47 then [] else root.segments), nameSegment t := by
    split
    · simp
    · exact root.names
  refine ⟨Segments.plain_of_mem_normalize (fun t ht => (hstart t ht).1) hs,?_⟩
  rcases Segments.mem_of_mem_normalize hs with h | h
  · exact (hstart s h).2
  · exact Segments.not_mem_of_mem_splitOn h

/-- What passes the check of `serve` lies below the client directory. -/
theorem target_below {root : ClientRoot} {relative : JsString}
    (h : root.text ++ [47] <+: Http.target root relative) :
    ∃ s rest, Http.target root relative = Segments.text 47 (root.segments ++ s :: rest) ∧
      ∀ t ∈ s :: rest, nameSegment t := by
  have hnames := resolvePath_names root (if relative = [] then js "index.html" else relative)
  obtain ⟨s,rest,heq⟩ := (Segments.prefix_text root.ne_nil (fun t ht => (root.names t ht).2)
    (fun t ht => (hnames t ht).2)).mp h
  refine ⟨s,rest,by rw [Http.target,heq],fun t ht => hnames t ?_⟩
  rw [heq]
  exact List.mem_append_right _ ht

/-- Whatever is asked for, the answer depends on no file but those below the client directory
that have a listed extension. -/
theorem respond_confined (cfg : Settings) (root : ClientRoot)
    {files files' : JsString → Option (List UInt8)}
    (h : ∀ path, root.Servable path → files path = files' path) (req : Request) :
    Http.respond cfg root files req = Http.respond cfg root files' req := by
  have hserve : ∀ method relative, Http.serve root files method (Http.target root relative) =
      Http.serve root files' method (Http.target root relative) := by
    intro method relative
    by_cases hbelow : root.text ++ [47] <+: Http.target root relative
    · rw [Http.serve,Http.serve,if_pos hbelow,if_pos hbelow]
      cases hmime : mimeOf (extname (Http.target root relative)) with
      | none => rfl
      | some contentType =>
        obtain ⟨s,rest,heq,hnames⟩ := target_below hbelow
        rw [h _ ⟨s,rest,heq,hnames,by rw [hmime]; rfl⟩]
    · rw [Http.serve,Http.serve,if_neg hbelow,if_neg hbelow]
  cases hurl : req.url with
  | none => rw [Http.respond,Http.respond,hurl]
  | some url =>
    obtain ⟨pathname,search⟩ := url
    rw [Http.respond,Http.respond,hurl]
    cases hdecode : Percent.decode pathname with
    | none => simp only [hdecode]
    | some pathname => simp only [hdecode,Http.route,hserve]

theorem clientSegments_names : ∀ s ∈ [js "srv",js "client"], nameSegment s := by
  intro s hs
  rcases List.mem_cons.mp hs with rfl | hs
  · exact ⟨⟨by decide,by decide⟩,by decide⟩
  · rw [List.mem_singleton.mp hs]
    exact ⟨⟨by decide,by decide⟩,by decide⟩

theorem clientSegments_ne_nil : [js "srv",js "client"] ≠ [] := by simp

def clientRoot : ClientRoot :=
  ⟨[js "srv",js "client"],clientSegments_ne_nil,clientSegments_names⟩

theorem respond_confined_passwd :
    Http.respond meetSettings clientRoot (fun _ => none)
        ⟨js "GET",some (js "/meet/..%2f..%2fetc/passwd",[])⟩ =
      Http.respond meetSettings clientRoot
        (fun path => if path = js "/etc/passwd" then some [114] else none)
        ⟨js "GET",some (js "/meet/..%2f..%2fetc/passwd",[])⟩ := by
  refine respond_confined meetSettings clientRoot (fun path hpath => ?_) _
  have hnone : (mimeOf (extname (js "/etc/passwd"))).isSome = false := by decide
  have hne : path ≠ js "/etc/passwd" := by
    rintro rfl
    obtain ⟨_,_,_,_,hmime⟩ := hpath
    rw [hnone] at hmime
    cases hmime
  exact (if_neg hne).symm

def Response.head (r : Response) : Response := { r with body := [] }

@[simp] theorem empty_head (status : Nat) (headers : List (JsString × JsString)) :
    (Http.empty status headers).head = Http.empty status headers := rfl

@[simp] theorem finish_head (contentType : JsString) (contents : List UInt8) :
    (Http.finish (js "GET") contentType contents).head =
      Http.finish (js "HEAD") contentType contents := rfl

theorem serve_head (root : ClientRoot) (files : JsString → Option (List UInt8)) (path : JsString) :
    Http.serve root files (js "HEAD") path = (Http.serve root files (js "GET") path).head := by
  by_cases hbelow : root.text ++ [47] <+: path
  · rw [Http.serve,Http.serve,if_pos hbelow,if_pos hbelow]
    cases mimeOf (extname path) with
    | none => rfl
    | some contentType => cases files path <;> rfl
  · rw [Http.serve,Http.serve,if_neg hbelow,if_neg hbelow]
    rfl

theorem respond_other {method : JsString} (hget : method ≠ js "GET") (hhead : method ≠ js "HEAD")
    (cfg : Settings) (root : ClientRoot) (files : JsString → Option (List UInt8))
    (url : Option (JsString × JsString)) :
    Http.respond cfg root files ⟨method,url⟩ =
      if (url.bind (fun u => Percent.decode u.1)).isSome then
        Http.empty 405 [(js "Allow",js "GET, HEAD")]
      else Http.respond cfg root files ⟨js "GET",url⟩ := by
  cases url with
  | none => rfl
  | some url =>
    obtain ⟨pathname,search⟩ := url
    rw [Http.respond,Http.respond,Option.bind_some]
    cases hdecode : Percent.decode pathname with
    | none => simp only [hdecode,Option.isSome_none,Bool.false_eq_true,if_false]
    | some pathname =>
      simp only [hdecode,Option.isSome_some,if_true,Http.route]
      rw [if_pos ⟨hget,hhead⟩]

theorem respond_no_body (cfg : Settings) (root : ClientRoot)
    (files : JsString → Option (List UInt8)) (url : Option (JsString × JsString)) :
    Http.respond cfg root files ⟨js "HEAD",url⟩ =
      (Http.respond cfg root files ⟨js "GET",url⟩).head := by
  have hget : ¬(js "GET" ≠ js "GET" ∧ js "GET" ≠ js "HEAD") := fun h => h.1 rfl
  have hhead : ¬(js "HEAD" ≠ js "GET" ∧ js "HEAD" ≠ js "HEAD") := fun h => h.2 rfl
  cases url with
  | none => rfl
  | some url =>
    obtain ⟨pathname,search⟩ := url
    rw [Http.respond,Http.respond]
    cases hdecode : Percent.decode pathname with
    | none => simp only [hdecode,empty_head]
    | some pathname =>
      simp only [hdecode,Http.route]
      rw [if_neg hget,if_neg hhead]
      by_cases hredirect : cfg.basePath.text ≠ [47] ∧ pathname = cfg.basePath.text.dropLast
      · rw [if_pos hredirect,if_pos hredirect,empty_head]
      · rw [if_neg hredirect,if_neg hredirect]
        by_cases hbase : cfg.basePath.text <+: pathname
        · rw [if_pos hbase,if_pos hbase]
          by_cases hhealth : pathname.drop cfg.basePath.text.length = js "health"
          · rw [if_pos hhealth,if_pos hhealth,finish_head]
          · rw [if_neg hhealth,if_neg hhealth,serve_head]
        · rw [if_neg hbase,if_neg hbase,empty_head]

theorem basePath_no_escape (basePath : BasePath) : 37 ∉ basePath.text := by
  obtain ⟨segments,hs,htext⟩ := basePathOk_iff.mp basePath.ok
  rw [htext]
  intro h
  rcases List.mem_cons.mp h with h | h
  · cases h
  · obtain ⟨s,hmem,h⟩ := List.mem_flatMap.mp h
    rcases List.mem_append.mp h with h | h
    · have hword := List.all_eq_true.mp (hs s hmem).2 37 h
      exact absurd hword (by decide)
    · exact absurd (List.mem_singleton.mp h) (by decide)

theorem extname_text {l : List JsString} (hl : ∀ s ∈ l, nameSegment s) (hne : l ≠ []) :
    extname (Segments.text 47 l) = baseExtension (l.getLast hne) := by
  have hfilter : l.filter (· ≠ []) = l := by
    refine List.filter_eq_self.mpr (fun s hs => ?_)
    have hskip := (hl s hs).1.1
    simp only [skipSegment,Bool.or_eq_false_iff,decide_eq_false_iff_not] at hskip
    simpa using hskip.1
  rw [extname,Segments.splitOn_text hne (fun s hs => (hl s hs).2)]
  rw [List.filter_cons_of_neg (by simp),hfilter,List.getLastD_eq_getLast?,
    List.getLast?_eq_some_getLast hne,Option.getD_some]

theorem flatMap_intercalate (names : List (List Char)) :
    (['/'].intercalate names).flatMap Percent.utf16 =
      [47].intercalate (names.map (fun name => name.flatMap Percent.utf16)) := by
  have hslash : Percent.utf16 '/' = [47] := by decide
  induction names with
  | nil => rfl
  | cons name names ih =>
    cases names with
    | nil => simp
    | cons next names =>
      rw [List.map_cons] at ih
      simp only [List.intercalate_cons_cons,List.map_cons,List.flatMap_append,
        List.flatMap_singleton,hslash,ih]

theorem nameSegment_ne_nil {s : JsString} (h : nameSegment s) : s ≠ [] := by
  rintro rfl
  exact absurd h.1.1 (by decide)

theorem intercalate_ne_nil {l : List JsString} (hl : ∀ s ∈ l, nameSegment s) (hne : l ≠ []) :
    [47].intercalate l ≠ [] ∧ ([47].intercalate l).head? ≠ some 47 := by
  obtain ⟨s,l,rfl⟩ := List.exists_cons_of_ne_nil hne
  have hs := hl s List.mem_cons_self
  obtain ⟨u,s,rfl⟩ := List.exists_cons_of_ne_nil (nameSegment_ne_nil hs)
  rw [Segments.intercalate_cons]
  refine ⟨by simp,fun h => hs.2 ?_⟩
  rw [List.cons_append,List.head?_cons,Option.some.injEq] at h
  exact h ▸ List.mem_cons_self

theorem target_intercalate (root : ClientRoot) {l : List JsString} (hl : ∀ s ∈ l, nameSegment s)
    (hne : l ≠ []) :
    Http.target root ([47].intercalate l) = Segments.text 47 (root.segments ++ l) := by
  obtain ⟨hnil,hhead⟩ := intercalate_ne_nil hl hne
  rw [Http.target,if_neg hnil,resolvePath,if_neg hhead,
    List.splitOn_intercalate 47 (fun s hs => (hl s hs).2) hne,
    Segments.normalize_plain (fun s hs => (hl s hs).1)]

theorem text_below (root : ClientRoot) {l : List JsString} (hl : ∀ s ∈ l, nameSegment s)
    (hne : l ≠ []) : root.text ++ [47] <+: Segments.text 47 (root.segments ++ l) := by
  obtain ⟨s,rest,rfl⟩ := List.exists_cons_of_ne_nil hne
  refine (Segments.prefix_text root.ne_nil (fun t ht => (root.names t ht).2) ?_).mpr ⟨s,rest,rfl⟩
  intro t ht
  exact (List.mem_append.mp ht).elim (fun h => (root.names t h).2) (fun h => (hl t h).2)

/-- No file of a listed extension is where the health answer is. -/
theorem intercalate_ne_health (root : ClientRoot) {l : List JsString}
    (hl : ∀ s ∈ l, nameSegment s) (hne : l ≠ [])
    (hmime : (mimeOf (extname (Segments.text 47 (root.segments ++ l)))).isSome) :
    [47].intercalate l ≠ js "health" := by
  intro h
  have hsplit := List.splitOn_intercalate 47 (fun s hs => (hl s hs).2) hne
  rw [h] at hsplit
  have hroot : ∀ s ∈ root.segments ++ l, nameSegment s := fun s hs =>
    (List.mem_append.mp hs).elim (root.names s) (hl s)
  have hhealth : l = [js "health"] := hsplit.symm.trans (by decide)
  subst hhealth
  have hnone : mimeOf (baseExtension (js "health")) = none := by decide
  rw [extname_text hroot (by simp),List.getLast_append_singleton,hnone] at hmime
  cases hmime

/-- A file below the client directory is got under its name, however much of the name the URL
escapes. -/
theorem respond_file (cfg : Settings) (root : ClientRoot)
    (files : JsString → Option (List UInt8)) {keep : Char → Bool}
    (hkeep : ∀ c, keep c → c.val.toNat < 0x80 ∧ c ≠ '%') {names : List (List Char)}
    (hne : names ≠ []) (hnames : ∀ name ∈ names, nameSegment (name.flatMap Percent.utf16))
    {path contentType : JsString} {contents : List UInt8}
    (hpath : path = Segments.text 47
      (root.segments ++ names.map (fun name => name.flatMap Percent.utf16)))
    (hmime : mimeOf (extname path) = some contentType) (hfile : files path = some contents)
    (search : JsString) :
    Http.respond cfg root files
        ⟨js "GET",some (cfg.basePath.text ++ Percent.encode keep (['/'].intercalate names),search)⟩ =
      Http.finish (js "GET") contentType contents := by
  obtain ⟨l,hl⟩ : ∃ l, names.map (fun name => name.flatMap Percent.utf16) = l := ⟨_,rfl⟩
  have hlne : l ≠ [] := by
    rw [← hl]
    simpa using hne
  have hlnames : ∀ s ∈ l, nameSegment s := by
    intro s hs
    rw [← hl] at hs
    obtain ⟨name,hname,rfl⟩ := List.mem_map.mp hs
    exact hnames name hname
  have hdecode : Percent.decode
      (cfg.basePath.text ++ Percent.encode keep (['/'].intercalate names)) =
      some (cfg.basePath.text ++ [47].intercalate l) := by
    rw [Percent.decode_append (basePath_no_escape cfg.basePath),Percent.decode_encode hkeep,
      flatMap_intercalate,hl]
    rfl
  have htarget := target_intercalate root hlnames hlne
  rw [hl] at hpath
  rw [← hpath] at htarget
  have hredirect : ¬(cfg.basePath.text ≠ [47] ∧
      cfg.basePath.text ++ [47].intercalate l = cfg.basePath.text.dropLast) := by
    rintro ⟨_,h⟩
    have hlength := congrArg List.length h
    have hpos := List.length_pos_iff.mpr (intercalate_ne_nil hlnames hlne).1
    rw [List.length_append,List.length_dropLast] at hlength
    omega
  have hhealth : [47].intercalate l ≠ js "health" := by
    refine intercalate_ne_health root hlnames hlne ?_
    rw [← hpath,hmime]
    rfl
  have hbelow : root.text ++ [47] <+: path := hpath ▸ text_below root hlnames hlne
  have hget : ¬(js "GET" ≠ js "GET" ∧ js "GET" ≠ js "HEAD") := fun h => h.1 rfl
  rw [Http.respond]
  simp only [hdecode,Http.route]
  rw [if_neg hget,if_neg hredirect,if_pos (List.prefix_append _ _),List.drop_left,if_neg hhealth,
    htarget,Http.serve,if_pos hbelow,hmime]
  simp only [hfile]

theorem respond_file_escaped :
    Http.respond meetSettings clientRoot (fun _ => some [47,47])
        ⟨js "GET",some (js "/meet/" ++ Percent.encode (fun c => c.val.toNat < 0x80 && c ≠ '%')
          (['/'].intercalate [['j','s'],['é','%','.','j','s']]),[])⟩ =
      Http.finish (js "GET") (js "text/javascript; charset=utf-8") [47,47] := by
  refine respond_file meetSettings clientRoot (fun _ => some [47,47]) (fun c hc => ?_) (by simp) ?_ rfl
    (by decide) rfl []
  · simpa using hc
  · intro name hname
    rcases List.mem_cons.mp hname with rfl | hname
    · exact ⟨⟨by decide,by decide⟩,by decide⟩
    · rw [List.mem_singleton.mp hname]
      exact ⟨⟨by decide,by decide⟩,by decide⟩

end MaiaMeet
