import Mathlib.Data.List.TakeWhile
set_option autoImplicit false

/-!
Patterns tried at every place of a text from left to right, as a regular expression's `findall`
and `split` try them: after a match the search goes on behind it.
-/

namespace Scan

variable {α β : Type}

/-- A pattern at a place: what it is told of the character before, and what follows. A match
gives a value and how many characters more than one it takes. -/
abbrev Pattern (α β : Type) := Option α → List α → Option (β × Nat)

def before (prev : Option α) (pre : List α) : Option α := pre.getLast?.or prev

/-- The matches, none inside another; `k` characters are still part of the last one. -/
def findall (p : Pattern α β) : Option α → Nat → List α → List β
  | _, _, [] => []
  | _, k+1, c :: s => findall p (some c) k s
  | prev, 0, c :: s =>
    match p prev (c :: s) with
    | some (b,n) => b :: findall p (some c) n s
    | none => findall p (some c) 0 s

/-- The text before the first match, and after each match what follows up to the next. -/
def split (p : Pattern α β) : Option α → Nat → List α → List α × List (β × List α)
  | _, _, [] => ([],[])
  | _, k+1, c :: s => split p (some c) k s
  | prev, 0, c :: s =>
    match p prev (c :: s) with
    | some (b,n) => ([],(b,(split p (some c) n s).1) :: (split p (some c) n s).2)
    | none => (c :: (split p (some c) 0 s).1,(split p (some c) 0 s).2)

def search (p : Pattern α β) (s : List α) : Bool := !(findall p none 0 s).isEmpty

section
variable {p : Pattern α β} {prev : Option α} {k : Nat} {s t rest : List α} {b : β}

@[simp] theorem before_nil : before prev [] = prev := rfl

@[simp] theorem before_cons (c : α) (pre : List α) :
    before prev (c :: pre) = before (some c) pre := by
  cases pre with
  | nil => rfl
  | cons d pre => simp [before,List.getLast?_cons]

theorem match_of_mem_findall (h : b ∈ findall p prev k s) :
    ∃ pre rest n, s = pre ++ rest ∧ p (before prev pre) rest = some (b,n) := by
  induction s generalizing prev k with
  | nil => cases h
  | cons c s ih =>
    have hlater : ∀ {j}, b ∈ findall p (some c) j s →
        ∃ pre rest n, c :: s = pre ++ rest ∧ p (before prev pre) rest = some (b,n) := by
      intro j hj
      obtain ⟨pre,rest,n,rfl,hp⟩ := ih hj
      exact ⟨c :: pre,rest,n,rfl,by rwa [before_cons]⟩
    cases k with
    | succ k => exact hlater h
    | zero =>
      rw [findall] at h
      cases hp : p prev (c :: s) with
      | none =>
        rw [hp] at h
        exact hlater h
      | some m =>
        rw [hp] at h
        rcases List.mem_cons.mp h with rfl | h
        · exact ⟨[],c :: s,m.2,rfl,hp⟩
        · exact hlater h

/-- Where the pattern matches, the search finds that match or one that takes in its place. -/
theorem findall_covers {pre : List α} (hrest : rest ≠ []) (hp : (p (before prev pre) rest).isSome)
    (hk : k ≤ pre.length) :
    ∃ pre₁ mid b n, pre = pre₁ ++ mid ∧ p (before prev pre₁) (mid ++ rest) = some (b,n) ∧
      mid.length ≤ n ∧ b ∈ findall p prev k (pre ++ rest) := by
  induction pre generalizing prev k with
  | nil =>
    obtain ⟨c,s,rfl⟩ := List.exists_cons_of_ne_nil hrest
    obtain ⟨⟨b,n⟩,hb⟩ := Option.isSome_iff_exists.mp hp
    rw [before_nil] at hb
    have hk : k = 0 := by simpa using hk
    subst hk
    refine ⟨[],[],b,n,rfl,hb,Nat.zero_le n,?_⟩
    simp [findall,hb]
  | cons c pre ih =>
    rw [before_cons] at hp
    have hlater : ∀ {j}, j ≤ pre.length → ∃ pre₁ mid b n, c :: pre = pre₁ ++ mid ∧
        p (before prev pre₁) (mid ++ rest) = some (b,n) ∧ mid.length ≤ n ∧
        b ∈ findall p (some c) j (pre ++ rest) := by
      intro j hj
      obtain ⟨pre₁,mid,b,n,rfl,hb,hn,hfound⟩ := ih hp hj
      exact ⟨c :: pre₁,mid,b,n,rfl,by rwa [before_cons],hn,hfound⟩
    cases k with
    | succ k => exact hlater (Nat.le_of_succ_le_succ hk)
    | zero =>
      rw [List.cons_append,findall]
      cases hm : p prev (c :: (pre ++ rest)) with
      | none => exact hlater (Nat.zero_le _)
      | some m =>
        obtain ⟨b,n⟩ := m
        by_cases hn : n ≤ pre.length
        · obtain ⟨pre₁,mid,b',n',hpre,hb',hn',hfound⟩ := hlater hn
          exact ⟨pre₁,mid,b',n',hpre,hb',hn',List.mem_cons_of_mem b hfound⟩
        · refine ⟨[],c :: pre,b,n,rfl,hm,?_,List.mem_cons_self⟩
          simp only [List.length_cons]
          omega

theorem split_skip (s : List α) : split p prev t.length (t ++ s) = split p (before prev t) 0 s := by
  induction t generalizing prev with
  | nil => rfl
  | cons c t ih => rw [List.length_cons,List.cons_append,split,ih,before_cons]

theorem split_match {m : List α} {n : Nat} (h : p prev (m ++ s) = some (b,n))
    (hm : m.length = n + 1) : split p prev 0 (m ++ s) =
      ([],(b,(split p (before prev m) 0 s).1) :: (split p (before prev m) 0 s).2) := by
  cases m with
  | nil => cases hm
  | cons c t =>
    have hn : n = t.length := by simpa using hm.symm
    rw [List.cons_append] at h ⊢
    rw [split,h,hn]
    simp only
    rw [split_skip,before_cons]

theorem split_keep (h : ∀ pre suf, t = pre ++ suf → suf ≠ [] →
    p (before prev pre) (suf ++ s) = none) :
    split p prev 0 (t ++ s) =
      (t ++ (split p (before prev t) 0 s).1,(split p (before prev t) 0 s).2) := by
  induction t generalizing prev with
  | nil => rfl
  | cons c t ih =>
    have hnone : p prev (c :: (t ++ s)) = none := h [] (c :: t) rfl (List.cons_ne_nil c t)
    have hrest := @ih (some c) (fun pre suf hsplit hsuf => by
      have hpre := h (c :: pre) suf (by rw [hsplit]; rfl) hsuf
      rwa [before_cons] at hpre)
    rw [List.cons_append,split,hnone,hrest,before_cons]
    rfl

end

def replaceFirst (p : Pattern α β) (f : β → List α) : Option α → List α → List α
  | _, [] => []
  | prev, c :: s =>
    match p prev (c :: s) with
    | some (b,n) => f b ++ s.drop n
    | none => c :: replaceFirst p f (some c) s

/-- What a pattern makes of a text inserted behind a `c` which ends with a `d`: it does not look
beyond the `c`, finds nothing that begins in the insertion, and takes both for the same before
what follows. -/
structure Apart (p : Pattern α β) (c d : α) (ins : List α) : Prop where
  closed : ∀ prev l s t, p prev (l ++ c :: s) = p prev (l ++ c :: t)
  within : ∀ prev l s b n, p prev (l ++ c :: s) = some (b,n) → n ≤ l.length
  none_begins : ∀ prev g s, g ≠ [] → g <:+ ins → p prev (g ++ s) = none
  last : ins.getLast? = some d
  same_before : ∀ s, p (some d) s = p (some c) s

section
variable {p : Pattern α β} {prev : Option α} {k : Nat} {s t : List α} {b : β} {c d : α}
  {ins : List α}

theorem findall_keep (h : ∀ pre suf, t = pre ++ suf → suf ≠ [] →
    p (before prev pre) (suf ++ s) = none) :
    findall p prev 0 (t ++ s) = findall p (before prev t) 0 s := by
  induction t generalizing prev with
  | nil => rfl
  | cons c t ih =>
    have hnone : p prev (c :: (t ++ s)) = none := h [] (c :: t) rfl (List.cons_ne_nil c t)
    rw [List.cons_append,findall,hnone,before_cons]
    refine ih (fun pre suf hsplit hsuf => ?_)
    have hpre := h (c :: pre) suf (by rw [hsplit]; rfl) hsuf
    rwa [before_cons] at hpre

theorem Apart.findall_behind (h : Apart p c d ins) (s : List α) :
    findall p (some c) 0 (ins ++ s) = findall p (some c) 0 s := by
  have hkeep : findall p (some c) 0 (ins ++ s) = findall p (before (some c) ins) 0 s := by
    refine findall_keep (fun pre suf hsplit hsuf => h.none_begins _ suf s hsuf ?_)
    rw [hsplit]
    exact List.suffix_append pre suf
  have hbefore : before (some c) ins = some d := by rw [before,h.last]; rfl
  rw [hkeep,hbefore]
  cases s with
  | nil => rfl
  | cons x s => rw [findall,findall,h.same_before]

/-- The insertion changes nothing that the pattern finds. -/
theorem findall_insert (h : Apart p c d ins) {l : List α} (s : List α) (hk : k ≤ l.length + 1) :
    findall p prev k (l ++ c :: (ins ++ s)) = findall p prev k (l ++ c :: s) := by
  induction l generalizing prev k with
  | nil =>
    cases k with
    | succ k =>
      have hk : k = 0 := by simpa using hk
      rw [hk]
      exact h.findall_behind s
    | zero =>
      have hclosed := h.closed prev [] (ins ++ s) s
      rw [List.nil_append,List.nil_append] at hclosed ⊢
      rw [findall,findall,hclosed]
      cases hp : p prev (c :: s) with
      | none => exact h.findall_behind s
      | some m =>
        have hn : m.2 = 0 := by simpa using h.within prev [] s m.1 m.2 hp
        simp only [hn]
        rw [h.findall_behind]
  | cons x l ih =>
    cases k with
    | succ k => exact ih (Nat.le_of_succ_le_succ hk)
    | zero =>
      have hclosed := h.closed prev (x :: l) (ins ++ s) s
      rw [List.cons_append,List.cons_append] at hclosed ⊢
      rw [findall,findall,hclosed]
      cases hp : p prev (x :: (l ++ c :: s)) with
      | none => exact ih (Nat.zero_le _)
      | some m =>
        have hn := h.within prev (x :: l) s m.1 m.2 hp
        simp only
        rw [ih hn]

theorem search_insert (h : Apart p c d ins) (l s : List α) :
    search p (l ++ c :: (ins ++ s)) = search p (l ++ c :: s) := by
  rw [search,search,findall_insert h s (Nat.zero_le _)]

theorem replaceFirst_append {f : β → List α} (h : findall p prev 0 s ≠ []) :
    ∃ pre rest b n, s = pre ++ rest ∧ p (before prev pre) rest = some (b,n) ∧
      replaceFirst p f prev s = pre ++ (f b ++ rest.drop (n+1)) := by
  induction s generalizing prev with
  | nil => exact absurd rfl h
  | cons c s ih =>
    rw [findall] at h
    rw [replaceFirst]
    cases hp : p prev (c :: s) with
    | some m => exact ⟨[],c :: s,m.1,m.2,rfl,hp,rfl⟩
    | none =>
      rw [hp] at h
      obtain ⟨pre,rest,b,n,rfl,hmatch,hreplaced⟩ := ih h
      refine ⟨c :: pre,rest,b,n,rfl,by rwa [before_cons],?_⟩
      simp only [hreplaced]
      rfl

end

section
variable {space : α → Bool} {c : α}

theorem takeWhile_stop (h : space c = false) (l s : List α) :
    (l ++ c :: s).takeWhile space = l.takeWhile space := by
  rw [List.takeWhile_append]
  split
  · rename_i hlength
    rw [List.takeWhile_cons_of_neg (by simp [h]),List.append_nil]
    exact (List.takeWhile_prefix space).eq_of_length hlength |>.symm
  · rfl

theorem dropWhile_stop (h : space c = false) (l s : List α) :
    (l ++ c :: s).dropWhile space = l.dropWhile space ++ c :: s := by
  rw [List.dropWhile_append]
  split
  · rename_i hnil
    rw [List.isEmpty_iff.mp hnil,List.dropWhile_cons_of_neg (by simp [h])]
    rfl
  · rfl

theorem length_split (p : α → Bool) (l : List α) :
    (l.takeWhile p).length + (l.dropWhile p).length = l.length := by
  rw [← List.length_append,List.takeWhile_append_dropWhile]

theorem dropWhile_cut [DecidableEq α] {s : List α} (h : s.dropWhile (· ≠ c) ≠ []) :
    ∃ post, s.dropWhile (· ≠ c) = c :: post := by
  have hhead := List.head_dropWhile_not (fun x : α => decide (x ≠ c)) h
  obtain ⟨d,post,hd⟩ := List.exists_cons_of_ne_nil h
  simp only [hd,List.head_cons] at hhead
  exact ⟨post,by rw [hd]; simpa using hhead⟩

theorem cut_append [DecidableEq α] {s : List α} (h : c ∉ s) (post : List α) :
    (s ++ c :: post).takeWhile (· ≠ c) = s ∧
      (s ++ c :: post).dropWhile (· ≠ c) = c :: post := by
  have hall : ∀ x ∈ s, decide (x ≠ c) = true := by
    intro x hx
    simpa using fun hxc : x = c => h (hxc ▸ hx)
  rw [takeWhile_stop (by simp),dropWhile_stop (by simp),List.takeWhile_eq_self_iff.mpr hall,
    List.dropWhile_eq_nil_iff.mpr hall]
  exact ⟨rfl,rfl⟩

end

def fields (space : α → Bool) (s : List α) : List (List α) :=
  (s.splitOnP space).filter (fun f => !f.isEmpty)

section
variable {space : α → Bool} {w s t : List α}

theorem fields_spaced {x : α} (hx : space x) (s t : List α) :
    fields space (s ++ x :: t) = fields space s ++ fields space t := by
  rw [fields,List.splitOnP_append_cons s t hx,List.filter_append]
  rfl

@[simp] theorem fields_nil : fields space [] = [] := rfl

theorem fields_space {x : α} (hx : space x) (t : List α) : fields space (x :: t) = fields space t :=
  fields_spaced hx [] t

theorem fields_append (hw : w ≠ []) (hspace : ∀ c ∈ w, space c) (s t : List α) :
    fields space (s ++ (w ++ t)) = fields space s ++ fields space t := by
  induction w generalizing s with
  | nil => exact absurd rfl hw
  | cons x w ih =>
    have hx := hspace x List.mem_cons_self
    rw [List.cons_append,fields_spaced hx]
    cases w with
    | nil => rfl
    | cons y w =>
      have hrest := ih (List.cons_ne_nil y w) (fun c hc => hspace c (List.mem_cons_of_mem x hc)) []
      rw [List.nil_append,fields_nil,List.nil_append] at hrest
      rw [hrest]

theorem fields_all_space (h : ∀ c ∈ s, space c) : fields space s = [] := by
  induction s with
  | nil => rfl
  | cons x s ih =>
    rw [fields_space (h x List.mem_cons_self)]
    exact ih (fun c hc => h c (List.mem_cons_of_mem x hc))

theorem fields_of_no_space (hne : s ≠ []) (h : ∀ c ∈ s, space c = false) :
    fields space s = [s] := by
  rw [fields,List.splitOnP_eq_singleton h]
  simp [hne]

theorem fields_ne_nil {c : α} (hc : c ∈ s) (h : space c = false) : fields space s ≠ [] := by
  obtain ⟨s,t,rfl⟩ := List.append_of_mem hc
  induction s with
  | nil =>
    rw [List.nil_append,fields,List.splitOnP_cons_eq_if_modifyHead,if_neg (by simp [h])]
    cases hsplit : t.splitOnP space with
    | nil => exact absurd hsplit (List.splitOnP_ne_nil _ _)
    | cons f fs => simp
  | cons x s ih =>
    by_cases hx : space x
    · rw [List.cons_append,fields_space hx]
      exact ih (by simp)
    · rw [List.cons_append,fields,List.splitOnP_cons_eq_if_modifyHead,if_neg hx]
      cases hsplit : (s ++ c :: t).splitOnP space with
      | nil => exact absurd hsplit (List.splitOnP_ne_nil _ _)
      | cons f fs => simp

end

end Scan
