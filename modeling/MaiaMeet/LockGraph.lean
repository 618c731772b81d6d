import Mathlib.Logic.Function.Basic
import Mathlib.Logic.Relation
set_option autoImplicit false

/-!
Threads `θ` and locks `L` that are not recursive: each thread holds some locks and may wait
for one, and each lock knows its owner.
-/

namespace LockGraph

variable {θ L : Type}

def WaitsFor (wants : θ → Option L) (owner : L → Option θ) (i j : θ) : Prop :=
  ∃ l, wants i = some l ∧ owner l = some j

/-- Threads in a circle wait for each other, or one for itself. -/
def Deadlock (wants : θ → Option L) (owner : L → Option θ) : Prop :=
  ∃ i, Relation.TransGen (WaitsFor wants owner) i i

section
variable {wants : θ → Option L} {owner : L → Option θ}

/-- Threads that wait only for threads of a lower rank are in no circle. -/
theorem not_deadlock_of_rank (rank : θ → Nat)
    (h : ∀ i j, WaitsFor wants owner i j → rank j < rank i) : ¬ Deadlock wants owner := by
  rintro ⟨i,hi⟩
  have hlt : ∀ j, Relation.TransGen (WaitsFor wants owner) i j → rank j < rank i := by
    intro j hj
    induction hj with
    | single hij => exact h _ _ hij
    | tail _ hjk ih => exact Nat.lt_trans (h _ _ hjk) ih
  exact Nat.lt_irrefl _ (hlt i hi)

theorem deadlock_of_self {i : θ} (h : WaitsFor wants owner i i) : Deadlock wants owner :=
  ⟨i,.single h⟩

theorem deadlock_of_pair {i j : θ} (h : WaitsFor wants owner i j) (h' : WaitsFor wants owner j i) :
    Deadlock wants owner := ⟨i,.tail (.single h) h'⟩

end

def Owned (holds : θ → L → Prop) (owner : L → Option θ) : Prop :=
  ∀ l i, owner l = some i ↔ holds i l

section
variable {holds holds' : θ → L → Prop} {owner : L → Option θ} {i : θ} {l : L}

theorem owned_congr (h : Owned holds owner) (hsame : ∀ j m, holds' j m ↔ holds j m) :
    Owned holds' owner := fun m j => (h m j).trans (hsame j m).symm

variable [DecidableEq L]

theorem owned_acquire (h : Owned holds owner) (hfree : owner l = none)
    (hi : ∀ m, holds' i m ↔ holds i m ∨ m = l) (hother : ∀ j, j ≠ i → ∀ m, holds' j m ↔ holds j m) :
    Owned holds' (Function.update owner l (some i)) := by
  intro m j
  have hl : ¬ holds j l := fun hj => by rw [(h l j).mpr hj] at hfree; cases hfree
  by_cases hj : j = i
  · subst hj
    rw [hi]
    by_cases hm : m = l
    · simp [hm]
    · simp [hm,h m j]
  · rw [hother j hj]
    by_cases hm : m = l
    · subst hm
      simp [hl,Ne.symm hj]
    · simp [hm,h m j]

theorem owned_release (h : Owned holds owner) (hheld : holds i l)
    (hi : ∀ m, holds' i m ↔ holds i m ∧ m ≠ l) (hother : ∀ j, j ≠ i → ∀ m, holds' j m ↔ holds j m) :
    Owned holds' (Function.update owner l none) := by
  intro m j
  by_cases hj : j = i
  · subst hj
    rw [hi]
    by_cases hm : m = l
    · simp [hm]
    · simp [hm,h m j]
  · rw [hother j hj]
    by_cases hm : m = l
    · subst hm
      have hne : ¬ holds j m := by
        intro hjm
        have := (h m j).mpr hjm
        rw [(h m i).mpr hheld] at this
        exact hj (Option.some.inj this).symm
      simp [hne]
    · simp [hm,h m j]

end

end LockGraph
