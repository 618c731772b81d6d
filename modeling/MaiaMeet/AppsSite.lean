import MaiaMeet.NodeRoute
import MaiaMeet.Scan
import MaiaMeet.Search
set_option autoImplicit false

/-! The nginx site that install-apps.py proposes: the site as it is, with the include of the Meet
snippet in its server block. -/

namespace MaiaMeet

open Scan

/-- `\s` and `str.split` of Python. -/
def isPySpace (c : Char) : Bool := c.toNat < 65536 && pySpace c.toNat.toUInt16

def serverNameWord : List Char := "server_name".toList
def includeLine : List Char := "include /etc/nginx/maia-apps.d/*.conf;".toList
def insertion : List Char := "\n    ".toList ++ includeLine
def meetPath : List Char := "/maia-meet".toList

/-- `[=~^*]` -/
def isModifier (c : Char) : Bool := c == '=' || c == '~' || c == '^' || c == '*'

/-- `[A-Za-z0-9][A-Za-z0-9.-]+`, as `--domain` is checked. -/
abbrev SiteDomain := { domain : List Char //
  2 ≤ domain.length ∧ domain.all (fun c => c.isAlphanum || c == '.' || c == '-') }

/-- Under `re.I` an ASCII letter is met by its capital, and by four letters that are none. -/
def foldCase (c : Char) : Char :=
  if c = 'İ' ∨ c = 'ı' then 'i' else if c = 'ſ' then 's' else if c.toNat = 0x212a then 'k'
  else c.toLower

/-- `word.*maia.edge` with `re.I`, at the beginning of what is left of a line. -/
def mentions (word line : List Char) : Bool :=
  decide (word <+: line.map foldCase) && (line.drop word.length).tails.any (fun t =>
    decide ("maia".toList <+: t.map foldCase) && decide ("edge".toList <+: (t.drop 5).map foldCase))

/-- `managed by.*maia.edge|generated by.*maia.edge` with `re.I`; a dot is no line break. -/
def managedByEdge (text : List Char) : Bool :=
  text.tails.any (fun s => mentions "managed by".toList (s.takeWhile (· ≠ '\n')) ||
    mentions "generated by".toList (s.takeWhile (· ≠ '\n')))

/-- `\s*\{` -/
def blockBegin (s : List Char) : Option Nat :=
  if (s.dropWhile isPySpace).head? = some '{' then some ((s.takeWhile isPySpace).length + 1) else none

/-- `\s+domain\s*;` -/
def domainThen (domain : SiteDomain) (s : List Char) : Option Nat :=
  let space := s.takeWhile isPySpace
  let rest := (s.dropWhile isPySpace).drop domain.val.length
  if space ≠ [] ∧ domain.val <+: s.dropWhile isPySpace ∧
      (rest.dropWhile isPySpace).head? = some ';' then
    some (space.length + domain.val.length + (rest.takeWhile isPySpace).length + 1)
  else none

/-- `\s+(?:[=~^*]+\s+)?/maia-meet` -/
def pathThen (s : List Char) : Option Nat :=
  let space := s.takeWhile isPySpace
  let rest := s.dropWhile isPySpace
  let modifiers := rest.takeWhile isModifier
  let after := rest.dropWhile isModifier
  if space ≠ [] ∧ meetPath <+: rest then some (space.length + meetPath.length)
  else if space ≠ [] ∧ modifiers ≠ [] ∧ after.takeWhile isPySpace ≠ [] ∧
      meetPath <+: after.dropWhile isPySpace then
    some (space.length + modifiers.length + (after.takeWhile isPySpace).length + meetPath.length)
  else none

section
variable (isalnum : Char → Bool)

/-- `\w` of Python, by `str.isalnum`. -/
def isPyWord (c : Char) : Bool := isalnum c || c == '_'

/-- `\b` -/
def boundary (prev : Option Char) (s : List Char) : Bool :=
  prev.any (isPyWord isalnum) != s.head?.any (isPyWord isalnum)

/-- `\bword`, and behind it what `body` says to take, if it matches. -/
def wordThen (word : List Char) (body : List Char → Option Nat) : Pattern Char (List Char) :=
  fun prev s =>
    if boundary isalnum prev s ∧ word <+: s then
      (body (s.drop word.length)).map
        (fun n => (s.take (word.length + n),word.length + n - 1))
    else none

/-- `\bserver\s*\{` -/
def serverBlock : Pattern Char (List Char) := wordThen isalnum "server".toList blockBegin

/-- `\bserver_name\s+domain\s*;` -/
def domainServer (domain : SiteDomain) : Pattern Char (List Char) :=
  wordThen isalnum serverNameWord (domainThen domain)

/-- `\blocation\s+(?:[=~^*]+\s+)?/maia-meet` -/
def meetLocation : Pattern Char (List Char) := wordThen isalnum "location".toList pathThen

def siteConfig (domain : SiteDomain) (original : List Char) : Except String (List Char) :=
  if managedByEdge original then .error
    "Use the Maia Edge CLI for a managed site; this installer expects the Apps template"
  else if (findall (serverBlock isalnum) none 0 original).length ≠ 1 then
    .error "Expected exactly one Apps server block"
  else if !search (domainServer isalnum domain) original then
    .error "The selected site does not match the Apps domain"
  else if search (meetLocation isalnum) original then
    .error "An existing Meet location needs manual review"
  else if includeLine <:+: original then .ok original
  else .ok (replaceFirst (serverBlock isalnum) (fun block => block ++ insertion) none original)

end

section
variable {s t u l ins word line more : List Char}

theorem mentions_append (h : mentions word line) (more : List Char) :
    mentions word (line ++ more) := by
  rw [mentions,Bool.and_eq_true,List.any_eq_true] at h ⊢
  obtain ⟨hword,t,ht,hmaia⟩ := h
  simp only [Bool.and_eq_true,decide_eq_true_eq] at hword hmaia ⊢
  have hlength : word.length ≤ line.length := by simpa using hword.length_le
  have hfive : 5 ≤ t.length := by
    have hedge := hmaia.2.length_le
    simp only [List.length_map,List.length_drop] at hedge
    have hfour : "edge".toList.length = 4 := by decide
    omega
  refine ⟨?_,t ++ more,?_,?_,?_⟩
  · rw [List.map_append]
    exact hword.trans (List.prefix_append _ _)
  · obtain ⟨pre,hpre⟩ := (List.mem_tails _ _).mp ht
    refine (List.mem_tails _ _).mpr ⟨pre,?_⟩
    rw [List.drop_append_of_le_length hlength,← hpre,List.append_assoc]
  · rw [List.map_append]
    exact hmaia.1.trans (List.prefix_append _ _)
  · rw [List.drop_append_of_le_length hfive,List.map_append]
    exact hmaia.2.trans (List.prefix_append _ _)

theorem not_begun {g : List Char} (hg : g ≠ []) (hsuf : g <:+ insertion) (s : List Char) :
    ∀ word ∈ ["server".toList,serverNameWord,"location".toList], ¬word <+: g ++ s := by
  have hall : ∀ g ∈ insertion.tails, g ≠ [] →
      ∀ word ∈ ["server".toList,serverNameWord,"location".toList], ¬word <+: g ∧ ¬g <+: word := by
    decide +kernel
  intro word hword h
  have hno := hall g ((List.mem_tails _ _).mpr hsuf) hg word hword
  exact (List.prefix_or_prefix_of_prefix h (List.prefix_append g s)).elim hno.1 hno.2

theorem not_mentioned {g : List Char} (hg : g ≠ []) (hsuf : g <:+ insertion) (s : List Char) :
    ∀ word ∈ ["managed by".toList,"generated by".toList],
      mentions word ((g ++ s).takeWhile (· ≠ '\n')) = false := by
  have hall : ∀ g ∈ insertion.tails, g ≠ [] → ∀ word ∈ ["managed by".toList,"generated by".toList],
      ¬word <+: g.map foldCase ∧ ¬g.map foldCase <+: word := by
    decide +kernel
  intro word hword
  have hno := hall g ((List.mem_tails _ _).mpr hsuf) hg word hword
  rw [mentions,Bool.and_eq_false_iff]
  refine .inl (decide_eq_false (fun h => ?_))
  have hline := h.trans ((List.takeWhile_prefix (· ≠ '\n')).map foldCase)
  rw [List.map_append] at hline
  have hor := List.prefix_or_prefix_of_prefix hline (List.prefix_append _ _)
  exact hor.elim hno.1 hno.2

theorem line_append (s t : List Char) :
    ∃ more, (s ++ t).takeWhile (· ≠ '\n') = s.takeWhile (· ≠ '\n') ++ more := by
  rw [List.takeWhile_append]
  split
  · rename_i hlength
    refine ⟨t.takeWhile (· ≠ '\n'),?_⟩
    rw [(List.takeWhile_prefix _).eq_of_length hlength]
  · exact ⟨[],(List.append_nil _).symm⟩

/-- The insertion makes no file a managed one. -/
theorem managed_insert (h : managedByEdge (l ++ '{' :: s) = false) :
    managedByEdge (l ++ '{' :: (insertion ++ s)) = false := by
  have hnew : l ++ '{' :: (insertion ++ s) = (l ++ ['{']) ++ (insertion ++ s) := by simp
  have hold : l ++ '{' :: s = (l ++ ['{']) ++ s := by simp
  rw [hold] at h
  rw [hnew]
  simp only [managedByEdge,List.any_eq_false,List.mem_tails,Bool.or_eq_true,not_or] at h ⊢
  intro u hu
  rcases Search.suffix_append_cases hu with hu | ⟨g,_,hsuf,rfl⟩
  · rcases Search.suffix_append_cases hu with hu | ⟨g,hg,hsuf,rfl⟩
    · exact h u (hu.trans (List.suffix_append _ s))
    · have hmanaged := not_mentioned hg hsuf s _ List.mem_cons_self
      have hgenerated := not_mentioned hg hsuf s _ (List.mem_cons_of_mem _ List.mem_cons_self)
      exact ⟨ne_true_of_eq_false hmanaged,ne_true_of_eq_false hgenerated⟩
  · -- the line breaks off at the insertion
    have hline : (g ++ (insertion ++ s)).takeWhile (· ≠ '\n') = g.takeWhile (· ≠ '\n') :=
      takeWhile_stop (by decide) g _
    obtain ⟨pre,hpre⟩ := hsuf
    have hlonger := h (g ++ s) ⟨pre,by rw [← List.append_assoc,hpre]⟩
    obtain ⟨more,hmore⟩ := line_append g s
    rw [hline]
    rw [hmore] at hlonger
    exact ⟨fun hm => hlonger.1 (mentions_append hm more),fun hm => hlonger.2 (mentions_append hm more)⟩

end

/-- What a pattern's body makes of a text: it does not look beyond a brace. -/
structure Stops (body : List Char → Option Nat) : Prop where
  closed : ∀ l s t, body (l ++ '{' :: s) = body (l ++ '{' :: t)
  within : ∀ l s n, body (l ++ '{' :: s) = some n → n ≤ l.length + 1

section
variable {l s t : List Char}

@[simp] theorem brace_not_space : isPySpace '{' = false := by decide
@[simp] theorem brace_not_modifier : isModifier '{' = false := by decide

theorem head?_brace (l s : List Char) : (l ++ '{' :: s).head? = (l ++ ['{']).head? := by
  cases l <;> rfl

theorem brace_not_domain (domain : SiteDomain) : '{' ∉ domain.val := by
  intro h
  have hall := List.all_eq_true.mp domain.property.2 '{' h
  revert hall
  decide

theorem word_brace {word : List Char} (hword : '{' ∉ word) (l s : List Char) :
    word <+: l ++ '{' :: s ↔ word <+: l :=
  ⟨Search.prefix_append_cons hword,fun h => h.trans (List.prefix_append _ _)⟩

theorem stops_blockBegin : Stops blockBegin where
  closed l s t := by
    simp only [blockBegin,takeWhile_stop brace_not_space,dropWhile_stop brace_not_space]
    rw [head?_brace _ s,head?_brace _ t]
  within l s n h := by
    obtain ⟨_,h⟩ := Option.ite_none_right_eq_some.mp h
    cases h
    rw [takeWhile_stop brace_not_space]
    have hlength := length_split isPySpace l
    omega

theorem domainThen_brace (domain : SiteDomain) (l s : List Char) :
    domainThen domain (l ++ '{' :: s) =
      if l.takeWhile isPySpace ≠ [] ∧ domain.val <+: l.dropWhile isPySpace ∧
          ((((l.dropWhile isPySpace).drop domain.val.length).dropWhile isPySpace) ++ ['{']).head? =
            some ';' then
        some ((l.takeWhile isPySpace).length + domain.val.length +
          (((l.dropWhile isPySpace).drop domain.val.length).takeWhile isPySpace).length + 1)
      else none := by
  simp only [domainThen,takeWhile_stop brace_not_space,dropWhile_stop brace_not_space,
    word_brace (brace_not_domain domain)]
  by_cases hdomain : domain.val <+: l.dropWhile isPySpace
  · rw [List.drop_append_of_le_length hdomain.length_le,takeWhile_stop brace_not_space,
      dropWhile_stop brace_not_space,head?_brace]
  · simp [hdomain]

theorem stops_domainThen (domain : SiteDomain) : Stops (domainThen domain) where
  closed l s t := by rw [domainThen_brace,domainThen_brace]
  within l s n h := by
    rw [domainThen_brace] at h
    obtain ⟨⟨_,hdomain,_⟩,h⟩ := Option.ite_none_right_eq_some.mp h
    cases h
    have hspace := length_split isPySpace l
    have hrest := length_split isPySpace ((l.dropWhile isPySpace).drop domain.val.length)
    have hle := hdomain.length_le
    rw [List.length_drop] at hrest
    omega

theorem brace_not_meetPath : '{' ∉ meetPath := by decide

theorem pathThen_brace (l s : List Char) :
    pathThen (l ++ '{' :: s) = pathThen l := by
  simp only [pathThen,takeWhile_stop brace_not_space,dropWhile_stop brace_not_space,
    takeWhile_stop brace_not_modifier,dropWhile_stop brace_not_modifier,
    word_brace brace_not_meetPath]

theorem stops_pathThen : Stops pathThen where
  closed l s t := by rw [pathThen_brace,pathThen_brace]
  within l s n h := by
    rw [pathThen_brace,pathThen] at h
    have hspace := length_split isPySpace l
    split at h
    · rename_i hcond
      cases h
      have hle := hcond.2.length_le
      omega
    · obtain ⟨⟨_,_,_,hpath⟩,h⟩ := Option.ite_none_right_eq_some.mp h
      cases h
      have hmodifiers := length_split isModifier (l.dropWhile isPySpace)
      have hafter := length_split isPySpace ((l.dropWhile isPySpace).dropWhile isModifier)
      have hle := hpath.length_le
      omega

end

section
variable {isalnum : Char → Bool} {domain : SiteDomain} {word : List Char}
  {body : List Char → Option Nat}

theorem wordThen_brace (hword : '{' ∉ word) (prev : Option Char) (l s : List Char) :
    wordThen isalnum word body prev (l ++ '{' :: s) =
      if boundary isalnum prev (l ++ ['{']) ∧ word <+: l then
        (body (l.drop word.length ++ '{' :: s)).map (fun n =>
          ((l ++ '{' :: s).take (word.length + n),word.length + n - 1))
      else none := by
  have hb : boundary isalnum prev (l ++ '{' :: s) = boundary isalnum prev (l ++ ['{']) := by
    rw [boundary,boundary,head?_brace]
  rw [wordThen,hb]
  simp only [word_brace hword]
  split
  · rename_i hcond
    rw [List.drop_append_of_le_length hcond.2.length_le]
  · rfl

theorem wordThen_apart (hascii : ∀ c : Char, c.toNat < 128 → isalnum c = c.isAlphanum)
    (hword : '{' ∉ word)
    (hbegun : word ∈ ["server".toList,serverNameWord,"location".toList]) (hbody : Stops body) :
    Apart (wordThen isalnum word body) '{' ';' insertion where
  closed prev l s t := by
    rw [wordThen_brace hword,wordThen_brace hword]
    split
    · rename_i hcond
      rw [hbody.closed _ s t]
      cases hn : body (l.drop word.length ++ '{' :: t) with
      | none => rfl
      | some n =>
        have hle := hbody.within _ _ _ hn
        have hlength := hcond.2.length_le
        rw [List.length_drop] at hle
        have htake : ∀ r, (l ++ '{' :: r).take (word.length + n) =
            (l ++ ['{']).take (word.length + n) := by
          intro r
          have happ : l ++ '{' :: r = (l ++ ['{']) ++ r := by simp
          rw [happ,List.take_append_of_le_length]
          simp only [List.length_append,List.length_singleton]
          omega
        simp only [Option.map_some,htake]
    · rfl
  within prev l s b n h := by
    rw [wordThen_brace hword] at h
    obtain ⟨⟨_,hl⟩,h⟩ := Option.ite_none_right_eq_some.mp h
    obtain ⟨m,hm,hres⟩ := Option.map_eq_some_iff.mp h
    have hle := hbody.within _ _ _ hm
    have hlength := hl.length_le
    rw [List.length_drop] at hle
    cases hres
    omega
  none_begins prev g s hg hsuf := if_neg (fun h => not_begun hg hsuf s word hbegun h.2)
  last := by decide
  same_before s := by
    have hbrace : isalnum '{' = false := by rw [hascii _ (by decide)]; decide
    have hsemi : isalnum ';' = false := by rw [hascii _ (by decide)]; decide
    simp [wordThen,boundary,isPyWord,hbrace,hsemi]

theorem serverBlock_some {prev : Option Char} {s block : List Char} {n : Nat}
    (h : serverBlock isalnum prev s = some (block,n)) :
    ∃ space post, s = "server".toList ++ space ++ '{' :: post ∧ boundary isalnum prev s ∧
      (∀ c ∈ space, isPySpace c) ∧ block = "server".toList ++ space ++ ['{'] ∧
      n + 1 = block.length := by
  obtain ⟨⟨hb,⟨t,rfl⟩⟩,h⟩ := Option.ite_none_right_eq_some.mp h
  obtain ⟨m,hm,hres⟩ := Option.map_eq_some_iff.mp h
  rw [List.drop_left,blockBegin] at hm
  obtain ⟨hbrace,hm⟩ := Option.ite_none_right_eq_some.mp hm
  obtain ⟨post,hpost⟩ := List.head?_eq_some_iff.mp hbrace
  cases hm
  have ht : t = t.takeWhile isPySpace ++ '{' :: post := by
    rw [← hpost,List.takeWhile_append_dropWhile]
  have hblock : ("server".toList ++ t).take
      ("server".toList.length + ((t.takeWhile isPySpace).length + 1)) =
      "server".toList ++ t.takeWhile isPySpace ++ ['{'] := by
    rw [List.take_length_add_append,List.append_assoc]
    congr 1
    nth_rewrite 2 [ht]
    rw [List.take_length_add_append]
    rfl
  rw [hblock] at hres
  cases hres
  refine ⟨t.takeWhile isPySpace,post,?_,hb,fun c hc => List.mem_takeWhile_imp hc,rfl,?_⟩
  · rw [List.append_assoc,← ht]
  · simp only [List.length_append,List.length_singleton]
    omega

def Inserted (isalnum : Char → Bool) (text proposed : List Char) : Prop :=
  ∃ front space post, text = front ++ ("server".toList ++ space ++ '{' :: post) ∧
    boundary isalnum (before none front) ("server".toList ++ space ++ '{' :: post) ∧
    (∀ c ∈ space, isPySpace c) ∧
    proposed = front ++ ("server".toList ++ space ++ '{' :: (insertion ++ post))

theorem replaceFirst_inserted {text : List Char}
    (h : (findall (serverBlock isalnum) none 0 text).length = 1) :
    Inserted isalnum text
      (replaceFirst (serverBlock isalnum) (fun block => block ++ insertion) none text) := by
  have hfound : findall (serverBlock isalnum) none 0 text ≠ [] :=
    List.ne_nil_of_length_eq_add_one h
  obtain ⟨front,rest,block,n,rfl,hmatch,hreplaced⟩ :=
    replaceFirst_append (f := fun block => block ++ insertion) hfound
  obtain ⟨space,post,rfl,hb,hspace,rfl,hn⟩ := serverBlock_some hmatch
  refine ⟨front,space,post,rfl,hb,hspace,?_⟩
  have hdrop : ("server".toList ++ space ++ '{' :: post).drop (n+1) = post := by
    have happ : "server".toList ++ space ++ '{' :: post =
        ("server".toList ++ space ++ ['{']) ++ post := by simp
    rw [happ,hn,List.drop_left]
  rw [hreplaced,hdrop]
  simp

structure Accepted (isalnum : Char → Bool) (domain : SiteDomain) (text : List Char) : Prop where
  unmanaged : managedByEdge text = false
  block : (findall (serverBlock isalnum) none 0 text).length = 1
  same : search (domainServer isalnum domain) text = true
  free : search (meetLocation isalnum) text = false

theorem siteConfig_ok_iff {text proposed : List Char} :
    siteConfig isalnum domain text = .ok proposed ↔ Accepted isalnum domain text ∧
      (if includeLine <:+: text then text else
        replaceFirst (serverBlock isalnum) (fun block => block ++ insertion) none text) = proposed := by
  rw [siteConfig]
  by_cases hmanaged : managedByEdge text = true
  · rw [if_pos hmanaged]
    refine ⟨fun h => (by cases h),fun h => ?_⟩
    rw [h.1.unmanaged] at hmanaged
    cases hmanaged
  rw [if_neg hmanaged]
  by_cases hblock : (findall (serverBlock isalnum) none 0 text).length = 1
  swap
  · rw [if_pos hblock]
    exact ⟨fun h => (by cases h),fun h => absurd h.1.block hblock⟩
  rw [if_neg (not_not.mpr hblock)]
  cases hsame : search (domainServer isalnum domain) text with
  | false =>
    refine ⟨fun h => (by cases h),fun h => ?_⟩
    rw [h.1.same] at hsame
    cases hsame
  | true =>
    cases hfree : search (meetLocation isalnum) text with
    | true =>
      refine ⟨fun h => (by cases h),fun h => ?_⟩
      rw [h.1.free] at hfree
      cases hfree
    | false =>
      have haccepted : Accepted isalnum domain text :=
        ⟨by simpa using hmanaged,hblock,hsame,hfree⟩
      simp only [haccepted,true_and,Bool.not_true,Bool.false_eq_true,if_false]
      split <;> simp

/-- The insertion is seen by none of the checks. -/
theorem Accepted.inserted (hascii : ∀ c : Char, c.toNat < 128 → isalnum c = c.isAlphanum)
    {text proposed : List Char} (h : Accepted isalnum domain text)
    (hins : Inserted isalnum text proposed) :
    Accepted isalnum domain proposed := by
  obtain ⟨front,space,post,rfl,_,_,rfl⟩ := hins
  rw [← List.append_assoc] at h ⊢
  have hblock : Apart (serverBlock isalnum) '{' ';' insertion :=
    wordThen_apart hascii (by decide) (by simp) stops_blockBegin
  have hdomain : Apart (domainServer isalnum domain) '{' ';' insertion :=
    wordThen_apart hascii (by decide) (by simp) (stops_domainThen domain)
  have hlocation : Apart (meetLocation isalnum) '{' ';' insertion :=
    wordThen_apart hascii (by decide) (by simp) stops_pathThen
  exact ⟨managed_insert h.unmanaged,by rw [findall_insert hblock _ (Nat.zero_le _)]; exact h.block,
    by rw [search_insert hdomain]; exact h.same,by rw [search_insert hlocation]; exact h.free⟩

theorem siteConfig_included {text proposed : List Char}
    (h : siteConfig isalnum domain text = .ok proposed) :
    includeLine <:+: proposed ∧ (proposed = text ∨ Inserted isalnum text proposed) := by
  obtain ⟨haccepted,hproposed⟩ := siteConfig_ok_iff.mp h
  split at hproposed
  · rename_i hincluded
    subst hproposed
    exact ⟨hincluded,.inl rfl⟩
  · subst hproposed
    have hins := replaceFirst_inserted haccepted.block
    refine ⟨?_,.inr hins⟩
    obtain ⟨front,space,post,_,_,_,hproposed⟩ := hins
    rw [hproposed,insertion]
    refine ⟨front ++ ("server".toList ++ space ++ '{' :: "\n    ".toList),post,?_⟩
    simp

theorem siteConfig_fixed (hascii : ∀ c : Char, c.toNat < 128 → isalnum c = c.isAlphanum)
    {text proposed : List Char} (h : siteConfig isalnum domain text = .ok proposed) :
    siteConfig isalnum domain proposed = .ok proposed := by
  obtain ⟨hincluded,hwhere⟩ := siteConfig_included h
  have haccepted := (siteConfig_ok_iff.mp h).1
  refine siteConfig_ok_iff.mpr ⟨?_,if_pos hincluded⟩
  rcases hwhere with rfl | hins
  · exact haccepted
  · exact haccepted.inserted hascii hins

/-- The installer changes a site once: it puts the include behind the brace of the one server
block, and takes what it has proposed for good when it reads it again. -/
theorem siteConfig_again (hascii : ∀ c : Char, c.toNat < 128 → isalnum c = c.isAlphanum)
    {text proposed : List Char} (h : siteConfig isalnum domain text = .ok proposed) :
    includeLine <:+: proposed ∧ (proposed = text ∨ Inserted isalnum text proposed) ∧
      siteConfig isalnum domain proposed = .ok proposed :=
  ⟨(siteConfig_included h).1,(siteConfig_included h).2,siteConfig_fixed hascii h⟩

end

def appsDomain : SiteDomain := ⟨"a.org".toList,by decide⟩

def appsSite : List Char := "server \x7b\n server_name a.org;\n\x7d".toList

theorem siteConfig_again_apps : ∃ proposed,
    siteConfig Char.isAlphanum appsDomain appsSite = .ok proposed ∧
      includeLine <:+: proposed ∧
      (proposed = appsSite ∨ Inserted Char.isAlphanum appsSite proposed) ∧
      siteConfig Char.isAlphanum appsDomain proposed = .ok proposed := by
  have hsite : siteConfig Char.isAlphanum appsDomain appsSite =
      .ok "server \x7b\n    include /etc/nginx/maia-apps.d/*.conf;\n server_name a.org;\n\x7d".toList := by
    decide +kernel
  exact ⟨_,hsite,siteConfig_again (fun _ _ => rfl) hsite⟩

end MaiaMeet
