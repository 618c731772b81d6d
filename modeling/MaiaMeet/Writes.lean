import Mathlib.Data.List.Basic
set_option autoImplicit false

/-!
A register and the writes to it that are still to take effect, oldest first. Each write has
an owner, and some owners are open: they have not yet seen all their writes through.
-/

namespace Writes

variable {κ α : Type} {P Q : α → Prop} {opened opened' : κ → Prop} {a b c : α} {k : κ}
  {w : κ × α} {ws : List (κ × α)}

/-- Behind each value that satisfies `P` a write of an open owner is still to come. -/
def Overwritten (P : α → Prop) (opened : κ → Prop) : α → List (κ × α) → Prop
  | a, [] => ¬ P a
  | a, w :: ws => (P a → ∃ u ∈ w :: ws, opened u.1) ∧ Overwritten P opened w.2 ws

def Settles (opened : κ → Prop) (b a : α) (ws : List (κ × α)) : Prop :=
  (ws = [] ∧ a = b) ∨ ∃ us k, ws = us ++ [(k,b)] ∧ opened k

theorem overwritten_write (hk : opened k) (hb : ¬ P b) : Overwritten P opened a (ws ++ [(k,b)]) := by
  induction ws generalizing a with
  | nil => exact ⟨fun _ => ⟨(k,b),List.mem_singleton_self _,hk⟩,hb⟩
  | cons w ws ih => exact ⟨fun _ => ⟨(k,b),by simp,hk⟩,ih⟩

theorem Overwritten.write (h : Overwritten P opened a ws) (hb : ¬ P b) :
    Overwritten P opened a (ws ++ [(k,b)]) := by
  induction ws generalizing a with
  | nil => exact ⟨fun ha => absurd ha h,hb⟩
  | cons w ws ih =>
    refine ⟨fun ha => ?_,ih h.2⟩
    obtain ⟨u,hu,hopen⟩ := h.1 ha
    exact ⟨u,List.mem_append_left _ hu,hopen⟩

theorem Overwritten.take (h : Overwritten P opened a (w :: ws)) : Overwritten P opened w.2 ws := h.2

theorem Overwritten.skip (h : Overwritten P opened a (w :: ws)) (hw : ¬ opened w.1) :
    Overwritten P opened a ws := by
  have hlater : P a → ∃ u ∈ ws, opened u.1 := by
    intro ha
    obtain ⟨u,hu,hopen⟩ := h.1 ha
    rcases List.mem_cons.mp hu with rfl | hu
    · exact absurd hopen hw
    · exact ⟨u,hu,hopen⟩
  cases ws with
  | nil =>
    intro ha
    obtain ⟨u,hu,_⟩ := hlater ha
    cases hu
  | cons u ws => exact ⟨hlater,h.2.2⟩

theorem Overwritten.mono (h : Overwritten P opened a ws)
    (hopen : ∀ u ∈ ws, opened u.1 → opened' u.1) : Overwritten P opened' a ws := by
  induction ws generalizing a with
  | nil => exact h
  | cons w ws ih =>
    refine ⟨fun ha => ?_,ih h.2 (fun u hu => hopen u (List.mem_cons_of_mem _ hu))⟩
    obtain ⟨u,hu,hu'⟩ := h.1 ha
    exact ⟨u,hu,hopen u hu hu'⟩

theorem Overwritten.imp (h : Overwritten P opened a ws) (hP : ∀ b, Q b → P b) :
    Overwritten Q opened a ws := by
  induction ws generalizing a with
  | nil => exact fun ha => h (hP a ha)
  | cons w ws ih => exact ⟨fun ha => h.1 (hP a ha),ih h.2⟩

/-- Once no open owner has a write left, the value there is none of `P`. -/
theorem Overwritten.done (h : Overwritten P opened a ws) (hnone : ∀ u ∈ ws, ¬ opened u.1) :
    ¬ P a := by
  cases ws with
  | nil => exact h
  | cons w ws =>
    intro ha
    obtain ⟨u,hu,hopen⟩ := h.1 ha
    exact hnone u hu hopen

theorem settles_write (hk : opened k) : Settles opened b a (ws ++ [(k,b)]) :=
  .inr ⟨ws,k,rfl,hk⟩

theorem Settles.take (h : Settles opened b a (w :: ws)) : Settles opened b w.2 ws := by
  rcases h with ⟨hnil,_⟩ | ⟨us,k,hus,hk⟩
  · cases hnil
  · cases us with
    | nil => cases hus; exact .inl ⟨rfl,rfl⟩
    | cons u us => cases hus; exact .inr ⟨us,k,rfl,hk⟩

theorem Settles.skip (h : Settles opened b a (w :: ws)) (hw : ¬ opened w.1) :
    Settles opened b a ws := by
  rcases h with ⟨hnil,_⟩ | ⟨us,k,hus,hk⟩
  · cases hnil
  · cases us with
    | nil => cases hus; exact absurd hk hw
    | cons u us => cases hus; exact .inr ⟨us,k,rfl,hk⟩

theorem Settles.mono (h : Settles opened b a ws) (hopen : ∀ u ∈ ws, opened u.1 → opened' u.1) :
    Settles opened' b a ws := by
  rcases h with h | ⟨us,k,rfl,hk⟩
  · exact .inl h
  · exact .inr ⟨us,k,rfl,hopen (k,b) (by simp) hk⟩

theorem Settles.done (h : Settles opened b a ws) (hnone : ∀ u ∈ ws, ¬ opened u.1) : a = b := by
  rcases h with ⟨_,rfl⟩ | ⟨us,k,rfl,hk⟩
  · rfl
  · exact absurd hk (hnone (k,b) (by simp))

end Writes
