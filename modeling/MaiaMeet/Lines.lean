import Mathlib.Data.List.Basic
set_option autoImplicit false

/-!
Texts of lines: where a text is split, and the lines of one kind replaced by others at its end.
A text that ends with a break has no line behind it.
-/

namespace Lines

section
variable {α : Type} (brk : α → Bool) (nl : α)

def split : List α → List (List α)
  | [] => []
  | u :: s =>
    if brk u then [] :: split s
    else match split s with
      | [] => [[u]]
      | l :: lines => (u :: l) :: lines

/-- Each line with its break. -/
def join (lines : List (List α)) : List α := lines.flatMap (· ++ [nl])

def replace (own : List α → Bool) (mine : List (List α)) (text : List α) : List α :=
  [nl].intercalate ((split brk text).filter (fun l => !own l)) ++ nl :: join nl mine

variable {brk nl}

theorem split_cons_of_neg {u : α} (hu : brk u = false) {s l : List α} {lines : List (List α)}
    (h : split brk s = l :: lines) : split brk (u :: s) = (u :: l) :: lines := by
  simp [split,hu,h]

theorem split_append (hnl : brk nl) {l : List α} (hl : ∀ u ∈ l, brk u = false) (rest : List α) :
    split brk (l ++ nl :: rest) = l :: split brk rest := by
  induction l with
  | nil => simp [split,hnl]
  | cons u l ih =>
    have hrest := ih (fun v hv => hl v (List.mem_cons_of_mem u hv))
    exact split_cons_of_neg (hl u List.mem_cons_self) hrest

theorem split_join (hnl : brk nl) {lines : List (List α)}
    (hlines : ∀ l ∈ lines, ∀ u ∈ l, brk u = false) : split brk (join nl lines) = lines := by
  induction lines with
  | nil => rfl
  | cons l lines ih =>
    have hl := hlines l List.mem_cons_self
    have hrest := ih (fun m hm => hlines m (List.mem_cons_of_mem l hm))
    rw [join] at hrest
    rw [join,List.flatMap_cons,List.append_assoc,List.singleton_append,split_append hnl hl,hrest]

theorem not_break_of_mem_split {s l : List α} (h : l ∈ split brk s) : ∀ u ∈ l, brk u = false := by
  induction s generalizing l with
  | nil => cases h
  | cons v s ih =>
    rw [split] at h
    by_cases hv : brk v
    · rw [if_pos hv] at h
      rcases List.mem_cons.mp h with rfl | h
      · simp
      · exact ih h
    · rw [if_neg hv] at h
      have hv : brk v = false := by simpa using hv
      cases hs : split brk s with
      | nil =>
        rw [hs] at h
        simp only [List.mem_singleton] at h
        subst h
        simpa using hv
      | cons m lines =>
        rw [hs] at h ih
        rcases List.mem_cons.mp h with rfl | h
        · intro u hu
          rcases List.mem_cons.mp hu with rfl | hu
          · exact hv
          · exact ih List.mem_cons_self u hu
        · exact ih (List.mem_cons_of_mem m h)

theorem intercalate_join {lines : List (List α)} (h : lines ≠ []) :
    [nl].intercalate lines ++ [nl] = join nl lines := by
  induction lines with
  | nil => exact absurd rfl h
  | cons l lines ih =>
    cases lines with
    | nil => simp [join]
    | cons m lines =>
      have hrest := ih (by simp)
      rw [List.intercalate_cons_cons,List.append_assoc,List.append_assoc,hrest]
      simp [join]

end

section
variable {α : Type} {brk : α → Bool} {nl : α} {own : List α → Bool} {mine : List (List α)}

/-- The lines that stay; where there is none, an empty one. -/
def kept (brk : α → Bool) (own : List α → Bool) (text : List α) : List (List α) :=
  match (split brk text).filter (fun l => !own l) with
  | [] => [[]]
  | l :: lines => l :: lines

theorem replace_eq (brk : α → Bool) (nl : α) (own : List α → Bool) (mine : List (List α))
    (text : List α) : replace brk nl own mine text = join nl (kept brk own text ++ mine) := by
  rw [replace,kept,join,join,List.flatMap_append]
  cases hkept : (split brk text).filter (fun l => !own l) with
  | nil => rfl
  | cons l lines =>
    have hjoin : [nl].intercalate (l :: lines) ++ [nl] = join nl (l :: lines) :=
      intercalate_join (List.cons_ne_nil l lines)
    change [nl].intercalate (l :: lines) ++ nl :: join nl mine =
      join nl (l :: lines) ++ join nl mine
    rw [← hjoin,List.append_assoc,List.singleton_append]

theorem split_replace (hnl : brk nl) (hmine : ∀ l ∈ mine, ∀ u ∈ l, brk u = false)
    (text : List α) : split brk (replace brk nl own mine text) = kept brk own text ++ mine := by
  rw [replace_eq]
  refine split_join hnl (fun l hl => ?_)
  rcases List.mem_append.mp hl with hl | hl
  · rw [kept] at hl
    split at hl
    · rw [List.mem_singleton.mp hl]
      simp
    · rename_i m lines hkept
      rw [← hkept] at hl
      exact not_break_of_mem_split (List.mem_of_mem_filter hl)
  · exact hmine l hl

theorem kept_not_own (hnil : own [] = false) (text : List α) :
    ∀ l ∈ kept brk own text, own l = false := by
  intro l hl
  rw [kept] at hl
  split at hl
  · rw [List.mem_singleton.mp hl]
    exact hnil
  · rename_i m lines hkept
    rw [← hkept] at hl
    simpa using (List.mem_filter.mp hl).2

theorem own_replace (hnl : brk nl) (hnil : own [] = false)
    (hmine : ∀ l ∈ mine, (∀ u ∈ l, brk u = false) ∧ own l) (text : List α) :
    (split brk (replace brk nl own mine text)).filter own = mine := by
  rw [split_replace hnl (fun l hl => (hmine l hl).1),List.filter_append]
  have hnone : (kept brk own text).filter own = [] := by
    refine List.filter_eq_nil_iff.mpr (fun l hl => ?_)
    simp [kept_not_own hnil text l hl]
  have hall : mine.filter own = mine := List.filter_eq_self.mpr (fun l hl => (hmine l hl).2)
  rw [hnone,hall,List.nil_append]

theorem replace_replace (hnl : brk nl) (hnil : own [] = false)
    (hmine : ∀ l ∈ mine, (∀ u ∈ l, brk u = false) ∧ own l) (mine' : List (List α))
    (text : List α) :
    replace brk nl own mine' (replace brk nl own mine text) = replace brk nl own mine' text := by
  have hkept : kept brk own (replace brk nl own mine text) = kept brk own text := by
    have hall : (kept brk own text).filter (fun l => !own l) = kept brk own text := by
      refine List.filter_eq_self.mpr (fun l hl => ?_)
      simp [kept_not_own hnil text l hl]
    have hnone : mine.filter (fun l => !own l) = [] := by
      refine List.filter_eq_nil_iff.mpr (fun l hl => ?_)
      simp [(hmine l hl).2]
    have hne : kept brk own text ≠ [] := by
      rw [kept]
      split <;> simp
    rw [kept,split_replace hnl (fun l hl => (hmine l hl).1),List.filter_append,hall,hnone,
      List.append_nil]
    split
    · contradiction
    · symm
      assumption
  rw [replace_eq brk nl own mine',hkept,← replace_eq]

end

end Lines
