import Mathlib.Data.List.Basic
set_option autoImplicit false

/-!
Absolute paths as lists of segments. A segment is skipped, goes up, or is a plain one; a
normalised path has plain segments only. The text of a path sets a separator before each.
-/

namespace Segments

section
variable {S : Type} (skip up : S → Bool)

/-- A segment read from a path: going up from the root stays there. -/
def push (path : List S) (s : S) : List S :=
  if skip s then path else if up s then path.dropLast else path ++ [s]

def normalize (path segments : List S) : List S := segments.foldl (push skip up) path

def plain (s : S) : Prop := skip s = false ∧ up s = false

variable {skip up}

theorem push_plain {s : S} (hs : plain skip up s) (path : List S) :
    push skip up path s = path ++ [s] := by
  simp [push,hs.1,hs.2]

theorem plain_of_mem_normalize {path l : List S} (hpath : ∀ s ∈ path, plain skip up s) {s : S}
    (hs : s ∈ normalize skip up path l) : plain skip up s := by
  induction l generalizing path with
  | nil => exact hpath s hs
  | cons a l ih =>
    refine ih (fun t ht => ?_) hs
    rw [push] at ht
    by_cases hskip : skip a
    · rw [if_pos hskip] at ht
      exact hpath t ht
    · by_cases hup : up a
      · rw [if_neg hskip,if_pos hup] at ht
        exact hpath t (List.dropLast_subset _ ht)
      · rw [if_neg hskip,if_neg hup] at ht
        rcases List.mem_append.mp ht with ht | ht
        · exact hpath t ht
        · obtain rfl := List.mem_singleton.mp ht
          exact ⟨by simpa using hskip,by simpa using hup⟩

theorem mem_of_mem_normalize {path l : List S} {s : S} (hs : s ∈ normalize skip up path l) :
    s ∈ path ∨ s ∈ l := by
  induction l generalizing path with
  | nil => exact .inl hs
  | cons a l ih =>
    rcases ih hs with h | h
    · rw [push] at h
      split at h
      · exact .inl h
      · split at h
        · exact .inl (List.dropLast_subset _ h)
        · simpa [or_assoc] using Or.imp_right (Or.inl (b := s ∈ l)) (List.mem_append.mp h)
    · exact .inr (List.mem_cons_of_mem a h)

theorem normalize_plain {l : List S} (h : ∀ s ∈ l, plain skip up s) (path : List S) :
    normalize skip up path l = path ++ l := by
  induction l generalizing path with
  | nil => simp [normalize]
  | cons a l ih =>
    have ha := push_plain (h a List.mem_cons_self) path
    have hl := ih (fun s hs => h s (List.mem_cons_of_mem a hs)) (path ++ [a])
    rw [normalize] at hl
    simp [normalize,ha,hl]

end

section
variable {α : Type} (sep : α)

/-- `sep` before each segment; the root is `sep` alone. -/
def text : List (List α) → List α
  | [] => [sep]
  | s :: l => (s :: l).flatMap (sep :: ·)

variable {sep}

theorem text_of_ne_nil {l : List (List α)} (h : l ≠ []) : text sep l = l.flatMap (sep :: ·) := by
  cases l with
  | nil => exact absurd rfl h
  | cons s l => rfl

theorem prefix_separated {s t x y : List α} (hs : sep ∉ s) (ht : sep ∉ t)
    (hy : y = [] ∨ ∃ z, y = sep :: z) (h : s ++ sep :: x <+: t ++ y) : s = t ∧ sep :: x <+: y := by
  induction s generalizing t with
  | nil =>
    cases t with
    | nil => exact ⟨rfl,h⟩
    | cons b t =>
      rw [List.nil_append,List.cons_append,List.cons_prefix_cons] at h
      exact absurd (h.1 ▸ List.mem_cons_self) ht
  | cons a s ih =>
    cases t with
    | nil =>
      rcases hy with rfl | ⟨z,rfl⟩
      · simp at h
      · rw [List.nil_append,List.cons_append,List.cons_prefix_cons] at h
        exact absurd (h.1 ▸ List.mem_cons_self) hs
    | cons b t =>
      rw [List.cons_append,List.cons_append,List.cons_prefix_cons] at h
      obtain ⟨rfl,h⟩ := h
      have hst := ih (fun hm => hs (List.mem_cons_of_mem a hm))
        (fun hm => ht (List.mem_cons_of_mem a hm)) h
      exact ⟨by rw [hst.1],hst.2⟩

theorem flatMap_separated (l : List (List α)) :
    l.flatMap (sep :: ·) = [] ∨ ∃ z, l.flatMap (sep :: ·) = sep :: z := by
  cases l with
  | nil => exact .inl rfl
  | cons s l => exact .inr ⟨s ++ l.flatMap (sep :: ·),by simp⟩

theorem prefix_flatMap {root l : List (List α)} (hroot : ∀ s ∈ root, sep ∉ s)
    (hl : ∀ s ∈ l, sep ∉ s) :
    root.flatMap (sep :: ·) ++ [sep] <+: l.flatMap (sep :: ·) ↔
      ∃ s rest, l = root ++ s :: rest := by
  induction root generalizing l with
  | nil =>
    cases l with
    | nil => simp
    | cons s l => simp
  | cons r root ih =>
    constructor
    · intro h
      cases l with
      | nil => simp at h
      | cons s l =>
        rw [List.flatMap_cons,List.flatMap_cons,List.append_assoc,List.cons_append,
          List.cons_append,List.cons_prefix_cons] at h
        obtain ⟨x,hx⟩ : ∃ x, root.flatMap (sep :: ·) ++ [sep] = sep :: x := by
          cases root with
          | nil => exact ⟨[],rfl⟩
          | cons q root => exact ⟨q ++ root.flatMap (sep :: ·) ++ [sep],by simp⟩
        rw [hx] at h
        have hp := prefix_separated (hroot r List.mem_cons_self) (hl s List.mem_cons_self)
          (flatMap_separated l) h.2
        rw [← hx] at hp
        obtain ⟨rfl,hp⟩ := hp
        obtain ⟨t,rest,rfl⟩ := (ih (fun s hs => hroot s (List.mem_cons_of_mem r hs))
          (fun s hs => hl s (List.mem_cons_of_mem _ hs))).mp hp
        exact ⟨t,rest,rfl⟩
    · rintro ⟨s,rest,rfl⟩
      exact ⟨s ++ rest.flatMap (sep :: ·),by simp⟩

/-- A text goes on after a path's text and a separator if it is that of a longer path. -/
theorem prefix_text {root l : List (List α)} (hne : root ≠ []) (hroot : ∀ s ∈ root, sep ∉ s)
    (hl : ∀ s ∈ l, sep ∉ s) :
    text sep root ++ [sep] <+: text sep l ↔ ∃ s rest, l = root ++ s :: rest := by
  rw [text_of_ne_nil hne]
  cases l with
  | nil =>
    obtain ⟨r,root,rfl⟩ := List.exists_cons_of_ne_nil hne
    simp [text,List.prefix_iff_eq_take]
  | cons s l =>
    rw [text_of_ne_nil (by simp)]
    exact prefix_flatMap hroot hl

theorem intercalate_cons (s : List α) (l : List (List α)) :
    [sep].intercalate (s :: l) = s ++ l.flatMap (sep :: ·) := by
  induction l generalizing s with
  | nil => simp
  | cons t l ih => simp [List.intercalate_cons_cons,ih]

variable [BEq α] [LawfulBEq α]

theorem splitOn_text {l : List (List α)} (hne : l ≠ []) (hl : ∀ s ∈ l, sep ∉ s) :
    (text sep l).splitOn sep = [] :: l := by
  rw [text_of_ne_nil hne,← List.nil_append (l.flatMap _),← intercalate_cons]
  exact List.splitOn_intercalate sep (by simpa using hl) (by simp)

theorem not_mem_of_mem_splitOn {s t : List α} (ht : t ∈ s.splitOn sep) : sep ∉ t := by
  induction s generalizing t with
  | nil =>
    rw [List.splitOn_nil,List.mem_singleton] at ht
    simp [ht]
  | cons a s ih =>
    rw [List.splitOn_cons_eq_if_modifyHead] at ht
    by_cases ha : a = sep
    · rw [if_pos (by simpa using ha)] at ht
      rcases List.mem_cons.mp ht with rfl | ht
      · simp
      · exact ih ht
    · rw [if_neg (by simpa using ha)] at ht
      cases hsplit : s.splitOn sep with
      | nil => exact absurd hsplit (List.splitOn_ne_nil sep s)
      | cons u us =>
        rw [hsplit] at ih ht
        rcases List.mem_cons.mp ht with rfl | ht
        · simp [Ne.symm ha,ih List.mem_cons_self]
        · exact ih (List.mem_cons_of_mem u ht)

end

end Segments
