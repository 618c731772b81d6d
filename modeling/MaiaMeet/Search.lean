import Mathlib.Data.List.Infix
set_option autoImplicit false

/-! Finding a text in a text: what follows the first occurrence, and where there is none. -/

namespace Search

variable {α : Type} {p l m : List α} {x : α}

def after [DecidableEq α] (p : List α) : List α → Option (List α)
  | [] => if p = [] then some [] else none
  | c :: s => if p <+: c :: s then some ((c :: s).drop p.length) else after p s

/-- An occurrence is the first if none is complete before its last character. -/
theorem after_append [DecidableEq α] (hp : p ≠ []) {a : List α} (h : ¬p <:+: a ++ p.dropLast)
    (b : List α) : after p (a ++ (p ++ b)) = some b := by
  induction a with
  | nil =>
    obtain ⟨c,q,rfl⟩ := List.exists_cons_of_ne_nil hp
    have hq : c :: q <+: c :: (q ++ b) := List.prefix_append (c :: q) b
    simp [after,hq]
  | cons c a ih =>
    have hno : ¬p <+: c :: (a ++ (p ++ b)) := by
      intro hq
      refine h (List.IsPrefix.isInfix ?_)
      have htake : c :: a ++ p.dropLast <+: c :: (a ++ (p ++ b)) := by
        rw [← List.cons_append]
        exact (List.prefix_append_right_inj _).mpr ((List.dropLast_prefix p).trans (List.prefix_append p b))
      refine List.prefix_of_prefix_length_le hq htake ?_
      have hpos := List.length_pos_iff.mpr hp
      simp only [List.cons_append,List.length_cons,List.length_append,List.length_dropLast]
      omega
    rw [List.cons_append,after,if_neg hno]
    exact ih (fun hin => h (hin.trans (List.suffix_cons c _).isInfix))

theorem prefix_append_cons (hx : x ∉ p) (h : p <+: l ++ x :: m) : p <+: l := by
  induction l generalizing p with
  | nil =>
    cases p with
    | nil => exact List.nil_prefix
    | cons y p =>
      obtain ⟨rfl,_⟩ := List.cons_prefix_cons.mp h
      exact absurd List.mem_cons_self hx
  | cons a l ih =>
    cases p with
    | nil => exact List.nil_prefix
    | cons y p =>
      obtain ⟨rfl,hrest⟩ := List.cons_prefix_cons.mp h
      exact List.cons_prefix_cons.mpr ⟨rfl,ih (fun hin => hx (List.mem_cons_of_mem y hin)) hrest⟩

theorem infix_append_cons (hx : x ∉ p) (h : p <:+: l ++ x :: m) : p <:+: l ∨ p <:+: m := by
  induction l with
  | nil =>
    rcases List.infix_cons_iff.mp h with h | h
    · exact .inl (prefix_append_cons (l := []) hx h).isInfix
    · exact .inr h
  | cons a l ih =>
    rcases List.infix_cons_iff.mp h with h | h
    · exact .inl (prefix_append_cons (l := a :: l) hx h).isInfix
    · exact (ih h).imp_left (fun hin => hin.trans (List.suffix_cons a l).isInfix)

theorem infix_around {q : List α} (hl : x ∉ l) (hm : x ∉ m)
    (h : p ++ x :: q <:+: l ++ x :: m) : p <:+ l ∧ q <+: m := by
  obtain ⟨s,t,heq⟩ := h
  have hsplit : l ++ x :: m = (s ++ p) ++ x :: (q ++ t) := by
    rw [← heq]
    simp
  obtain ⟨rfl,_,rfl⟩ := (List.append_cons_inj_of_notMem hl hm).mp hsplit
  exact ⟨List.suffix_append s p,List.prefix_append q t⟩

theorem eq_of_append_cons {l' m' : List α} (hl : x ∉ l) (hl' : x ∉ l')
    (h : l ++ x :: m = l' ++ x :: m') : l = l' := by
  induction l generalizing l' with
  | nil =>
    cases l' with
    | nil => rfl
    | cons y l' =>
      cases h
      exact absurd List.mem_cons_self hl'
  | cons a l ih =>
    cases l' with
    | nil =>
      cases h
      exact absurd List.mem_cons_self hl
    | cons y l' =>
      obtain ⟨rfl,hrest⟩ := List.cons_eq_cons.mp h
      rw [ih (fun hin => hl (List.mem_cons_of_mem a hin))
        (fun hin => hl' (List.mem_cons_of_mem a hin)) hrest]

theorem suffix_append_cases {s t u : List α} (h : u <:+ s ++ t) :
    u <:+ t ∨ ∃ g, g ≠ [] ∧ g <:+ s ∧ u = g ++ t := by
  rcases List.suffix_or_suffix_of_suffix h (List.suffix_append s t) with hu | ⟨g,rfl⟩
  · exact .inl hu
  · cases g with
    | nil => exact .inl (List.suffix_refl t)
    | cons x g =>
      obtain ⟨pre,hpre⟩ := h
      refine .inr ⟨x :: g,List.cons_ne_nil x g,⟨pre,?_⟩,rfl⟩
      rw [← List.append_assoc] at hpre
      exact List.append_cancel_right hpre

end Search
