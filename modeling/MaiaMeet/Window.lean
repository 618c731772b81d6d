import Mathlib.Data.List.Nodup
set_option autoImplicit false

/-!
A fixed window limiter: `limit` arrivals in a window, which the first arrival after its
end replaces by a new one. Refused arrivals are charged as well. Times are in whole
ticks, and `within a d t` is the half-open interval of length `d` from `a`.
-/

structure Window where
  tokens : Int
  start : Nat
  deriving DecidableEq, Repr

namespace Window

def take (limit interval : Nat) (w : Window) (now : Nat) : Window :=
  if w.start + interval ≤ now then ⟨limit-1,now⟩ else ⟨w.tokens-1,w.start⟩

def passed (limit interval : Nat) : Window → List Nat → List Nat
  | _, [] => []
  | w, t :: ts =>
    (if 0 ≤ (w.take limit interval t).tokens then [t] else []) ++
      passed limit interval (w.take limit interval t) ts

def within (a d t : Nat) : Bool := a ≤ t ∧ t < a+d

variable {limit interval : Nat}

theorem take_expired {w : Window} {now : Nat} (h : w.start + interval ≤ now) :
    w.take limit interval now = ⟨limit-1,now⟩ := if_pos h

theorem take_running {w : Window} {now : Nat} (h : now < w.start + interval) :
    w.take limit interval now = ⟨w.tokens-1,w.start⟩ := if_neg (by omega)

theorem mem_of_mem_passed {w : Window} {ts : List Nat} {t : Nat}
    (h : t ∈ passed limit interval w ts) : t ∈ ts := by
  induction ts generalizing w with
  | nil => cases h
  | cons u ts ih =>
    rcases List.mem_append.mp h with h | h
    · split at h
      · exact List.mem_cons.mpr (Or.inl (List.mem_singleton.mp h))
      · cases h
    · exact List.mem_cons_of_mem u (ih h)

theorem countP_passed_cons (p : Nat → Bool) (w : Window) (t : Nat) (ts : List Nat) :
    (passed limit interval w (t :: ts)).countP p =
      (if 0 ≤ (w.take limit interval t).tokens ∧ p t then 1 else 0) +
        (passed limit interval (w.take limit interval t) ts).countP p := by
  rw [passed,List.countP_append]
  congr 1
  by_cases h : 0 ≤ (w.take limit interval t).tokens <;> simp [h,List.countP_singleton]

/-- A window opened inside the interval outlasts it, so its tokens are all there is. -/
theorem countP_passed_inside (limit interval : Nat) {a : Nat} {w : Window} {ts : List Nat} (ha : a ≤ w.start)
    (hts : ts.Pairwise (· ≤ ·)) :
    (passed limit interval w ts).countP (within a interval) ≤ w.tokens.toNat := by
  induction ts generalizing w with
  | nil => exact Nat.zero_le _
  | cons t ts ih =>
    obtain ⟨ht,hts⟩ := List.pairwise_cons.mp hts
    by_cases he : w.start + interval ≤ t
    · have hzero : (passed limit interval w (t :: ts)).countP (within a interval) = 0 := by
        apply List.countP_eq_zero.mpr
        intro u hu
        have hu : t ≤ u := by
          rcases List.mem_cons.mp (mem_of_mem_passed hu) with rfl | hu
          · exact Nat.le_refl _
          · exact ht u hu
        simp only [within,decide_eq_true_eq]
        omega
      omega
    · have ih := ih (w := ⟨w.tokens-1,w.start⟩) ha hts
      rw [countP_passed_cons,take_running (by omega)]
      simp only at ih ⊢
      split <;> omega

/-- From the interval's first arrival on: the tokens left of the window it finds, and
those of one window opened inside. -/
theorem countP_passed_from (limit interval : Nat) {a : Nat} {w : Window} {ts : List Nat}
    (hts : ts.Pairwise (· ≤ ·)) (ha : ∀ t ∈ ts, a ≤ t) :
    (passed limit interval w ts).countP (within a interval) ≤ w.tokens.toNat + limit := by
  induction ts generalizing w with
  | nil => exact Nat.zero_le _
  | cons t ts ih =>
    obtain ⟨ht,hts⟩ := List.pairwise_cons.mp hts
    obtain ⟨hat,ha⟩ := List.forall_mem_cons.mp ha
    rw [countP_passed_cons]
    by_cases he : w.start + interval ≤ t
    · rw [take_expired he]
      have hinside := countP_passed_inside limit interval (w := ⟨limit-1,t⟩) hat hts
      simp only at hinside ⊢
      split <;> omega
    · rw [take_running (by omega)]
      have ih := ih (w := ⟨w.tokens-1,w.start⟩) hts ha
      simp only at ih ⊢
      split <;> omega

/-- No interval of the window's length sees more than two windows' arrivals pass. -/
theorem countP_passed_le {w : Window} {ts : List Nat} (hw : w.tokens ≤ limit)
    (hts : ts.Pairwise (· ≤ ·)) (a : Nat) :
    (passed limit interval w ts).countP (within a interval) ≤ 2*limit := by
  induction ts generalizing w with
  | nil => exact Nat.zero_le _
  | cons t ts ih =>
    by_cases hat : a ≤ t
    · have hall : ∀ u ∈ t :: ts, a ≤ u := by
        intro u hu
        rcases List.mem_cons.mp hu with rfl | hu
        · exact hat
        · exact Nat.le_trans hat ((List.pairwise_cons.mp hts).1 u hu)
      have := countP_passed_from limit interval (w := w) hts hall
      omega
    · have htake : (w.take limit interval t).tokens ≤ limit := by
        unfold take
        split <;> simp only <;> omega
      rw [countP_passed_cons,if_neg (by simp [within]; omega),Nat.zero_add]
      exact ih htake (List.pairwise_cons.mp hts).2

theorem passed_eq_self_of_seen (seen : List Nat) {w : Window} {ts : List Nat}
    (hw : w.tokens = limit - seen.length)
    (hseen : ∀ t ∈ seen, w.start ≤ t ∧ t < w.start + interval)
    (hstart : ∀ t ∈ ts, w.start ≤ t) (hts : ts.Pairwise (· ≤ ·)) (hi : 0 < interval)
    (hcount : ∀ a, (seen ++ ts).countP (within a interval) ≤ limit) :
    passed limit interval w ts = ts := by
  induction ts generalizing seen w with
  | nil => rfl
  | cons t ts ih =>
    obtain ⟨ht,hts⟩ := List.pairwise_cons.mp hts
    have hwt : w.start ≤ t := hstart t List.mem_cons_self
    by_cases he : w.start + interval ≤ t
    · have hcount' : ∀ a, ([t] ++ ts).countP (within a interval) ≤ limit := by
        intro a
        have := hcount a
        rw [List.countP_append] at this
        exact Nat.le_trans (Nat.le_add_left _ _) this
      have hone : 1 ≤ limit := by
        have := hcount' t
        rw [List.countP_append,List.countP_singleton,if_pos (by simp [within]; omega)] at this
        omega
      have htail := ih [t] (w := ⟨limit-1,t⟩) (by simp) (by simp; omega) ht hts hcount'
      rw [passed,take_expired he,htail,if_pos (by simp only; omega)]
      rfl
    · have hnow : w.start ≤ t ∧ t < w.start + interval := ⟨hwt,by omega⟩
      have hseen' : ∀ u ∈ seen ++ [t], w.start ≤ u ∧ u < w.start + interval := by
        intro u hu
        rcases List.mem_append.mp hu with hu | hu
        · exact hseen u hu
        · rw [List.mem_singleton.mp hu]; exact hnow
      have hlength : seen.length + 1 ≤ limit := by
        have hall : (seen ++ [t]).countP (within w.start interval) = (seen ++ [t]).length :=
          List.countP_eq_length.mpr (fun u hu => by simpa [within] using hseen' u hu)
        have := hcount w.start
        rw [← List.singleton_append,← List.append_assoc,List.countP_append,hall] at this
        simp only [List.length_append,List.length_singleton] at this
        omega
      have htail := ih (seen ++ [t]) (w := ⟨w.tokens-1,w.start⟩)
        (by simp only [hw,List.length_append,List.length_singleton]; push_cast; omega) hseen'
        (fun u hu => hstart u (List.mem_cons_of_mem t hu)) hts (by simpa using hcount)
      rw [passed,take_running (by omega),htail,if_pos (by simp only; omega)]
      rfl

/-- Conforming arrivals all pass a full window. -/
theorem passed_eq_self {start : Nat} {ts : List Nat} (hstart : ∀ t ∈ ts, start ≤ t)
    (hts : ts.Pairwise (· ≤ ·)) (hi : 0 < interval)
    (hcount : ∀ a, ts.countP (within a interval) ≤ limit) :
    passed limit interval ⟨limit,start⟩ ts = ts :=
  passed_eq_self_of_seen [] (by simp) (by simp) hstart hts hi hcount

end Window
