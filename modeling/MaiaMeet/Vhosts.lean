import MaiaMeet.AppsSite
import MaiaMeet.Publishing
set_option autoImplicit false

/-! What install-vps.py looks for in the output of `nginx -T` before it changes anything: the
include that its link counts on, and a server of the same name in another file. -/

namespace MaiaMeet

open Faults Publication Scan Script

def headerStart : List Char := "# configuration file ".toList
def sitesEnabled : List Char := "/etc/nginx/sites-enabled/*".toList

section
variable (isalnum : Char → Bool)

/-- `\s+([^;]+)` up to a semicolon. Where nothing else is left before it, `\s+` gives its last
character back. -/
def spaced (s : List Char) : List Char × List Char :=
  let space := s.takeWhile isPySpace
  let names := (s.dropWhile isPySpace).takeWhile (· ≠ ';')
  if names = [] then (space.dropLast,space.drop (space.length - 1)) else (space,names)

/-- `\bserver_name\s+([^;]+);` -/
def serverNames : Pattern Char (List Char) := fun prev s =>
  let m := spaced (s.drop 11)
  if boundary isalnum prev s ∧ serverNameWord <+: s ∧ m.1 ≠ [] ∧ m.2 ≠ [] ∧
      ((s.drop 11).dropWhile isPySpace).dropWhile (· ≠ ';') ≠ [] then
    some (m.2,11 + m.1.length + m.2.length)
  else none

end

/-- `# configuration file ([^\n]+):\n` -/
def fileHeader : Pattern Char (List Char) := fun _ s =>
  let line := (s.drop 21).takeWhile (· ≠ '\n')
  if headerStart <+: s ∧ (s.drop 21).dropWhile (· ≠ '\n') ≠ [] ∧ 2 ≤ line.length ∧
      line.getLast? = some ':' then
    some (line.dropLast,21 + line.length)
  else none

/-- `include\s+/etc/nginx/sites-enabled/\*` -/
def sitesInclude : Pattern Char Unit := fun _ s =>
  let space := (s.drop 7).takeWhile isPySpace
  if "include".toList <+: s ∧ space ≠ [] ∧ sitesEnabled <+: (s.drop 7).dropWhile isPySpace then
    some ((),6 + space.length + sitesEnabled.length)
  else none

section
variable (isalnum : Char → Bool) (domain : List Char) (isSite : List Char → Bool)

def configured (contents : List Char) : Bool :=
  (findall (serverNames isalnum) none 0 contents).any
    (fun names => decide (domain ∈ fields isPySpace names))

/-- The checks of the text that `nginx -T` prints. `isSite` says of a file's name that it
resolves to the path of the site. -/
def inspect (configuration : List Char) : Option PublishError :=
  if search sitesInclude configuration then
    match (split fileHeader none 0 configuration).2.find?
        (fun section' => configured isalnum domain section'.2 && !isSite section'.1) with
    | some section' => some (.RuntimeError (String.ofList (domain ++ " is already configured in ".toList
        ++ section'.1 ++ "; migrate that site first".toList)))
    | none => none
  else some (.RuntimeError "Expected the standard /etc/nginx/sites-enabled/* include")

/-- A `server_name` directive with the domain among its names, wherever it stands in the text. -/
def ServerNamed (contents : List Char) : Prop :=
  ∃ pre space names post, contents = pre ++ (serverNameWord ++ (space ++ (names ++ ';' :: post))) ∧
    boundary isalnum (before none pre) serverNameWord ∧ space ≠ [] ∧
    (∀ c ∈ space, isPySpace c) ∧ ';' ∉ names ∧ domain ∈ fields isPySpace names

end

/-- The text has a line that ends like the one `nginx -T` begins a file with. -/
def HasHeader (text : List Char) : Prop :=
  ∃ pre name post, text = pre ++ (headerStart ++ (name ++ (':' :: '\n' :: post))) ∧ name ≠ [] ∧
    '\n' ∉ name

/-- A file of the configuration, without such a line; its last one is ended in the output. -/
structure NginxFile where
  name : List Char
  contents : List Char
  name_ne_nil : name ≠ []
  name_line : '\n' ∉ name
  plain : ¬HasHeader (contents ++ ['\n'])

/-- What `nginx -T` prints of the files. -/
def dump (files : List NginxFile) : List Char :=
  files.flatMap (fun f => headerStart ++ (f.name ++ (':' :: '\n' :: (f.contents ++ ['\n']))))

section
variable {isalnum : Char → Bool} {domain names space s t rest contents post : List Char}
  {prev : Option Char} {n : Nat}

theorem spaced_append (t : List Char) : t =
    (spaced t).1 ++ ((spaced t).2 ++ (t.dropWhile isPySpace).dropWhile (· ≠ ';')) := by
  have hcut : t = t.takeWhile isPySpace ++ ((t.dropWhile isPySpace).takeWhile (· ≠ ';') ++
      (t.dropWhile isPySpace).dropWhile (· ≠ ';')) := by
    rw [List.takeWhile_append_dropWhile,List.takeWhile_append_dropWhile]
  rw [spaced]
  by_cases hnames : (t.dropWhile isPySpace).takeWhile (· ≠ ';') = []
  · rw [if_pos hnames]
    rw [hnames,List.nil_append] at hcut
    rw [List.dropLast_eq_take,← List.append_assoc,List.take_append_drop]
    exact hcut
  · rw [if_neg hnames]
    exact hcut

theorem spaced_space {c : Char} (h : c ∈ (spaced t).1) : isPySpace c := by
  rw [spaced] at h
  split at h
  · exact List.mem_takeWhile_imp (List.mem_of_mem_dropLast h)
  · exact List.mem_takeWhile_imp h

@[simp] theorem semicolon_not_space : isPySpace ';' = false := by decide

theorem spaced_names : ';' ∉ (spaced t).2 := by
  rw [spaced]
  split
  · intro h
    have hspace := List.mem_takeWhile_imp (List.mem_of_mem_drop h)
    simp at hspace
  · intro h
    simpa using List.mem_takeWhile_imp h

theorem length_serverNameWord : serverNameWord.length = 11 := by decide

theorem drop_serverNameWord (t : List Char) : (serverNameWord ++ t).drop 11 = t := by
  rw [← length_serverNameWord,List.drop_left]

theorem serverNames_some (h : serverNames isalnum prev s = some (names,n)) :
    ∃ space post, s = serverNameWord ++ (space ++ (names ++ ';' :: post)) ∧
      boundary isalnum prev s ∧ space ≠ [] ∧ (∀ c ∈ space, isPySpace c) ∧ ';' ∉ names ∧
      n = (serverNameWord ++ (space ++ names)).length := by
  rw [serverNames] at h
  obtain ⟨⟨hb,⟨t,rfl⟩,hspace,_,hsemi⟩,hres⟩ := Option.ite_none_right_eq_some.mp h
  rw [drop_serverNameWord] at hspace hsemi hres
  obtain ⟨post,hpost⟩ := dropWhile_cut hsemi
  have hcut := spaced_append t
  rw [hpost] at hcut
  cases hres
  refine ⟨(spaced t).1,post,by rw [← hcut],hb,hspace,fun c hc => spaced_space hc,spaced_names,?_⟩
  rw [List.length_append,List.length_append,length_serverNameWord,Nat.add_assoc]

theorem serverNameWord_ne_nil : serverNameWord ≠ [] := by decide

theorem boundary_append (t : List Char) :
    boundary isalnum prev (serverNameWord ++ t) = boundary isalnum prev serverNameWord := by
  rw [boundary,boundary,List.head?_append_of_ne_nil _ serverNameWord_ne_nil]

theorem serverNames_isSome (hb : boundary isalnum prev serverNameWord) (hspace : space ≠ [])
    (hall : ∀ c ∈ space, isPySpace c) (hsemi : ';' ∉ names)
    (hname : ∃ c ∈ names, isPySpace c = false) :
    (serverNames isalnum prev (serverNameWord ++ (space ++ (names ++ ';' :: post)))).isSome := by
  have hdrop : names.dropWhile isPySpace ≠ [] := by
    intro hnil
    obtain ⟨c,hc,hcs⟩ := hname
    have hspaces := List.dropWhile_eq_nil_iff.mp hnil c hc
    rw [hcs] at hspaces
    cases hspaces
  have hrest : (space ++ (names ++ ';' :: post)).dropWhile isPySpace =
      names.dropWhile isPySpace ++ ';' :: post := by
    rw [List.dropWhile_append_of_pos hall,List.dropWhile_append,if_neg (by simpa using hdrop)]
  have htake : (space ++ (names ++ ';' :: post)).takeWhile isPySpace =
      space ++ (names ++ ';' :: post).takeWhile isPySpace := List.takeWhile_append_of_pos hall
  have hsuffix : ';' ∉ names.dropWhile isPySpace :=
    fun h => hsemi ((List.dropWhile_suffix isPySpace).subset h)
  obtain ⟨hnames,hleft⟩ := cut_append hsuffix post
  rw [serverNames]
  simp only [drop_serverNameWord,boundary_append,spaced,hrest,htake,hnames,hleft,if_neg hdrop]
  rw [if_pos ⟨hb,List.prefix_append _ _,by simp [hspace],hdrop,List.cons_ne_nil _ _⟩]
  rfl

theorem exists_of_fields {f : List Char} (h : f ∈ fields isPySpace names) :
    ∃ c ∈ names, isPySpace c = false := by
  by_contra hno
  have hall : ∀ c ∈ names, isPySpace c := by
    intro c hc
    by_contra hcs
    exact hno ⟨c,hc,by simpa using hcs⟩
  rw [fields_all_space hall] at h
  cases h

theorem serverNameWord_fields : fields isPySpace serverNameWord = [serverNameWord] := by
  have hall : serverNameWord.all (fun c => !isPySpace c) := by decide
  refine fields_of_no_space serverNameWord_ne_nil (fun c hc => ?_)
  simpa using List.all_eq_true.mp hall c hc

theorem semicolon_not_mem (hall : ∀ c ∈ space, isPySpace c) (hsemi : ';' ∉ names) :
    ';' ∉ serverNameWord ++ (space ++ names) := by
  intro h
  rcases List.mem_append.mp h with h | h
  · exact absurd h (by decide)
  · rcases List.mem_append.mp h with h | h
    · simpa using hall ';' h
    · exact hsemi h

/-- A directive that begins within another one's has its names among the other's. -/
theorem fields_within {mid space₁ names₁ post₁ : List Char} (hspace : space ≠ [])
    (hall : ∀ c ∈ space, isPySpace c) (hsemi : ';' ∉ names) (hspace₁ : space₁ ≠ [])
    (hall₁ : ∀ c ∈ space₁, isPySpace c) (hsemi₁ : ';' ∉ names₁)
    (hlen : mid.length ≤ (serverNameWord ++ (space₁ ++ names₁)).length)
    (heq : mid ++ (serverNameWord ++ (space ++ (names ++ ';' :: post))) =
      serverNameWord ++ (space₁ ++ (names₁ ++ ';' :: post₁))) :
    fields isPySpace names ⊆ fields isPySpace names₁ := by
  have heq : (mid ++ (serverNameWord ++ (space ++ names))) ++ ';' :: post =
      (serverNameWord ++ (space₁ ++ names₁)) ++ ';' :: post₁ := by simpa using heq
  have hmid : mid <+: serverNameWord ++ (space₁ ++ names₁) := by
    refine List.prefix_of_prefix_length_le ?_ (List.prefix_append _ (';' :: post₁)) hlen
    rw [← heq,List.append_assoc]
    exact List.prefix_append _ _
  have hnot₁ := semicolon_not_mem hall₁ hsemi₁
  have hnot : ';' ∉ mid ++ (serverNameWord ++ (space ++ names)) := by
    intro h
    rcases List.mem_append.mp h with h | h
    · exact hnot₁ (hmid.subset h)
    · exact semicolon_not_mem hall hsemi h
  have hfields := congrArg (fields isPySpace) (Search.eq_of_append_cons hnot hnot₁ heq)
  rw [← List.append_assoc,fields_append hspace hall,fields_append hspace₁ hall₁,
    serverNameWord_fields] at hfields
  have hne : fields isPySpace (mid ++ serverNameWord) ≠ [] :=
    fields_ne_nil (c := 's') (List.mem_append_right mid (by decide)) (by decide)
  obtain ⟨f,fs,hf⟩ := List.exists_cons_of_ne_nil hne
  rw [hf,List.cons_append,List.singleton_append] at hfields
  intro g hg
  rw [← (List.cons_eq_cons.mp hfields).2]
  exact List.mem_append_right fs hg

/-- The names found are those of the directives, also of one that stands inside another's names. -/
theorem configured_iff : configured isalnum domain contents ↔ ServerNamed isalnum domain contents := by
  rw [configured,List.any_eq_true]
  constructor
  · rintro ⟨names,hfound,hdomain⟩
    obtain ⟨pre,rest,n,rfl,hmatch⟩ := match_of_mem_findall hfound
    obtain ⟨space,post,rfl,hb,hspace,hall,hsemi,_⟩ := serverNames_some hmatch
    rw [boundary_append] at hb
    exact ⟨pre,space,names,post,rfl,hb,hspace,hall,hsemi,of_decide_eq_true hdomain⟩
  · rintro ⟨pre,space,names,post,rfl,hb,hspace,hall,hsemi,hdomain⟩
    have hat : (serverNames isalnum (before none pre)
        (serverNameWord ++ (space ++ (names ++ ';' :: post)))).isSome :=
      serverNames_isSome hb hspace hall hsemi (exists_of_fields hdomain)
    obtain ⟨pre₁,mid,found,n,rfl,hmatch,hn,hfound⟩ :=
      findall_covers (List.append_ne_nil_of_left_ne_nil serverNameWord_ne_nil _) hat (Nat.zero_le _)
    refine ⟨found,hfound,decide_eq_true ?_⟩
    obtain ⟨space₁,post₁,hsplit,_,hspace₁,hall₁,hsemi₁,rfl⟩ := serverNames_some hmatch
    exact fields_within hspace hall hsemi hspace₁ hall₁ hsemi₁ hn hsplit hdomain

theorem length_headerStart : headerStart.length = 21 := by decide

theorem newline_not_headerStart : '\n' ∉ headerStart := by decide

theorem fileHeader_file (f : NginxFile) (t : List Char) :
    fileHeader prev (headerStart ++ (f.name ++ (':' :: '\n' :: t))) =
      some (f.name,21 + (f.name ++ [':']).length) := by
  have hline : '\n' ∉ f.name ++ [':'] := by
    intro h
    rcases List.mem_append.mp h with h | h
    · exact f.name_line h
    · exact absurd h (by decide)
  have hdrop : (headerStart ++ (f.name ++ (':' :: '\n' :: t))).drop 21 =
      (f.name ++ [':']) ++ '\n' :: t := by
    rw [← length_headerStart,List.drop_left]
    simp
  obtain ⟨htake,hleft⟩ := cut_append hline t
  have hlength : 2 ≤ (f.name ++ [':']).length := by
    have hpos := List.length_pos_iff.mpr f.name_ne_nil
    simp only [List.length_append,List.length_singleton]
    omega
  rw [fileHeader]
  simp only [hdrop,htake,hleft]
  rw [if_pos ⟨List.prefix_append _ _,List.cons_ne_nil _ _,hlength,by simp⟩]
  simp

theorem fileHeader_inside (f : NginxFile) {pre suf : List Char} (h : f.contents ++ ['\n'] = pre ++ suf)
    (hsuf : suf ≠ []) (t : List Char) : fileHeader prev (suf ++ t) = none := by
  rw [fileHeader]
  refine if_neg (fun hcond => ?_)
  obtain ⟨l,c,rfl⟩ := (List.eq_nil_or_concat suf).resolve_left hsuf
  rw [List.concat_eq_append] at h hcond
  have hc : '\n' = c := by
    have hend : f.contents ++ ['\n'] = (pre ++ l) ++ [c] := by rw [h,List.append_assoc]
    exact List.singleton_inj.mp (List.append_inj' hend rfl).2
  subst hc
  rw [List.append_assoc,List.singleton_append] at hcond
  obtain ⟨hstart,_,hlength,hlast⟩ := hcond
  obtain ⟨m,rfl⟩ := Search.prefix_append_cons newline_not_headerStart hstart
  have hdrop : ((headerStart ++ m) ++ '\n' :: t).drop 21 = m ++ '\n' :: t := by
    rw [List.append_assoc,← length_headerStart,List.drop_left]
  rw [hdrop,takeWhile_stop (by simp)] at hlength hlast
  obtain ⟨name,hname⟩ := List.getLast?_eq_some_iff.mp hlast
  have hleft : (m ++ ['\n']).dropWhile (· ≠ '\n') ≠ [] := by
    rw [dropWhile_stop (by simp)]
    simp
  obtain ⟨post,hpost⟩ := dropWhile_cut hleft
  have hcut := List.takeWhile_append_dropWhile (p := (· ≠ '\n')) (l := m ++ ['\n'])
  rw [takeWhile_stop (by simp),hname,hpost] at hcut
  refine f.plain ⟨pre,name,post,?_,?_,fun hin => ?_⟩
  · rw [h,List.append_assoc headerStart,← hcut]
    simp
  · rintro rfl
    rw [hname] at hlength
    simp at hlength
  · have hline : '\n' ∈ m.takeWhile (· ≠ '\n') := hname ▸ List.mem_append_left _ hin
    simpa using List.mem_takeWhile_imp hline

/-- The sections are the files. -/
theorem split_dump (prev : Option Char) (files : List NginxFile) :
    split fileHeader prev 0 (dump files) =
      ([],files.map (fun f => (f.name,f.contents ++ ['\n']))) := by
  induction files generalizing prev with
  | nil => rfl
  | cons f files ih =>
    have hdump : dump (f :: files) = (headerStart ++ (f.name ++ [':','\n'])) ++
        ((f.contents ++ ['\n']) ++ dump files) := by simp [dump]
    have hhead : fileHeader prev ((headerStart ++ (f.name ++ [':','\n'])) ++
        ((f.contents ++ ['\n']) ++ dump files)) = some (f.name,21 + (f.name ++ [':']).length) := by
      have hfile := @fileHeader_file prev f ((f.contents ++ ['\n']) ++ dump files)
      simpa using hfile
    have hlength : (headerStart ++ (f.name ++ [':','\n'])).length =
        21 + (f.name ++ [':']).length + 1 := by
      rw [List.length_append,length_headerStart]
      simp
      omega
    rw [hdump,split_match hhead hlength,split_keep (fun pre suf h hsuf => fileHeader_inside f h hsuf _),
      ih]
    simp

theorem serverNamed_newline :
    ServerNamed isalnum domain (contents ++ ['\n']) ↔ ServerNamed isalnum domain contents := by
  constructor
  · rintro ⟨pre,space,names,post,h,hrest⟩
    rcases List.eq_nil_or_concat post with rfl | ⟨post,c,rfl⟩
    · have hlast := congrArg List.getLast? h
      simp [List.getLast?_append] at hlast
    · rw [List.concat_eq_append] at h
      have h : contents ++ ['\n'] =
          (pre ++ (serverNameWord ++ (space ++ (names ++ ';' :: post)))) ++ [c] := by simpa using h
      exact ⟨pre,space,names,post,(List.append_inj' h rfl).1,hrest⟩
  · rintro ⟨pre,space,names,post,rfl,hrest⟩
    exact ⟨pre,space,names,post ++ ['\n'],by simp,hrest⟩

end

def SoleServer (isalnum : Char → Bool) (domain : List Char) (isSite : List Char → Bool)
    (files : List NginxFile) : Prop :=
  search sitesInclude (dump files) ∧
    ∀ f ∈ files, ServerNamed isalnum domain f.contents → isSite f.name

section
variable {isalnum : Char → Bool} {domain : List Char} {isSite : List Char → Bool}
  {files : List NginxFile}

theorem inspect_none_iff : inspect isalnum domain isSite (dump files) = none ↔
    SoleServer isalnum domain isSite files := by
  rw [inspect,SoleServer]
  by_cases hinclude : search sitesInclude (dump files)
  · rw [if_pos hinclude,split_dump]
    simp only [hinclude,true_and]
    cases hfind : (files.map (fun f => (f.name,f.contents ++ ['\n']))).find?
        (fun section' => configured isalnum domain section'.2 && !isSite section'.1) with
    | none =>
      simp only [true_iff]
      intro f hf hnamed
      have hno := List.find?_eq_none.mp hfind _ (List.mem_map_of_mem hf)
      have hconf := configured_iff.mpr (serverNamed_newline.mpr hnamed)
      simpa [hconf] using hno
    | some section' =>
      simp only [reduceCtorEq,false_iff]
      intro hall
      obtain ⟨f,hf,rfl⟩ := List.mem_map.mp (List.mem_of_find?_eq_some hfind)
      have hcond := List.find?_some hfind
      simp only [Bool.and_eq_true,Bool.not_eq_true'] at hcond
      have hsite := hall f hf (serverNamed_newline.mp (configured_iff.mp hcond.1))
      rw [hcond.2] at hsite
      cases hsite
  · rw [if_neg hinclude]
    simp [hinclude]

theorem wp_check_inspection (plan : Publication) {w : World PublishError Vps} :
    wp plan.check (fun _ _ => plan.inspection = none) (fun _ _ => True) w := by
  refine wp_seq wp_true (fun _ t _ => ?_)
  rw [wp_bind,wp_look]
  cases hinspection : plan.inspection with
  | some e => trivial
  | none => exact wp_mono wp_true (fun _ _ _ => rfl) (fun _ _ _ => trivial)

end

theorem headerStart_of_hasHeader {text : List Char} (h : HasHeader text) : headerStart <:+: text := by
  obtain ⟨pre,name,post,rfl,_⟩ := h
  exact ⟨pre,name ++ (':' :: '\n' :: post),by simp⟩

def otherText : List Char := "server \x7b server_name\n  a.org m.org; \x7d".toList
def mainText : List Char := "include /etc/nginx/sites-enabled/*;".toList

theorem otherText_plain : ¬HasHeader (otherText ++ ['\n']) := fun h =>
  absurd (headerStart_of_hasHeader h) (by decide +kernel)

theorem mainText_plain : ¬HasHeader (mainText ++ ['\n']) := fun h =>
  absurd (headerStart_of_hasHeader h) (by decide +kernel)

def otherServer : NginxFile where
  name := "/etc/nginx/sites-enabled/a.conf".toList
  contents := otherText
  name_ne_nil := by decide
  name_line := by decide
  plain := otherText_plain

def mainFile : NginxFile where
  name := "/etc/nginx/nginx.conf".toList
  contents := mainText
  name_ne_nil := by decide
  name_line := by decide
  plain := mainText_plain

def inspectedPublication : Publication :=
  { samplePublication with
    inspection := inspect Char.isAlphanum "m.org".toList (fun _ => false)
      (dump [mainFile,otherServer]) }

end MaiaMeet
