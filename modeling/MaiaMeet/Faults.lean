import MaiaMeet.Script
set_option autoImplicit false

/-!
Scripts that change a state by operations which may raise: what comes of each is read from a
tape, so that a statement about every tape is one about every way the operations can fail.
-/

namespace Faults

open Script

variable {ε σ : Type}

/-- How an operation comes out: an exception after so much of its effect, or none and a status. -/
structure Answer (ε : Type) where
  raised : Option (ε × Nat)
  status : Nat
  deriving DecidableEq, Repr

structure World (ε σ : Type) where
  now : σ
  tape : List (Answer ε)

abbrev Faulty (ε σ : Type) := EStateM ε (World ε σ)

def World.Calm (w : World ε σ) : Prop := ∀ a ∈ w.tape, a.raised = none

def look : Faulty ε σ σ := do
  let w ← get
  pure w.now

def change (f : σ → σ) : Faulty ε σ PUnit := modify (fun w => { w with now := f w.now })

/-- Past its end the tape goes on without faults. -/
def answer : Faulty ε σ (Answer ε) := do
  let w ← get
  match w.tape with
  | [] => pure ⟨none,0⟩
  | a :: tape =>
    modify (fun w => { w with tape := tape })
    pure a

/-- An operation that does what `done` says, or raises after `torn`. -/
def perform (torn : Nat → σ → σ) (done : σ → σ) : Faulty ε σ Unit := do
  let a ← answer
  match a.raised with
  | some (e,k) =>
    change (torn k)
    throw e
  | none => change done

/-- A program that is started, if it can be, and has to exit with 0. -/
def run (asked : Nat → σ → σ) (failure : ε) : Faulty ε σ Unit := do
  let a ← answer
  match a.raised with
  | some (e,_) => throw e
  | none =>
    change (asked a.status)
    if a.status ≠ 0 then throw failure else pure ()

section
variable {α : Type} {I : σ → Prop} {torn : Nat → σ → σ} {done : σ → σ} {asked : Nat → σ → σ}
  {failure : ε} {w : World ε σ}

theorem keeps_look : Keeps (fun w => I w.now) (look : Faulty ε σ σ) := fun _ h => h

theorem keeps_answer : Keeps (fun w => I w.now) (answer : Faulty ε σ (Answer ε)) := by
  unfold answer
  refine keeps_get.bind (fun s => ?_)
  split
  · exact keeps_pure
  · refine Keeps.bind (keeps_modify ?_) (fun _ => keeps_pure)
    exact fun _ h => h

theorem keeps_change {f : σ → σ} (h : ∀ s, I s → I (f s)) :
    Keeps (fun w => I w.now) (change f : Faulty ε σ PUnit) := keeps_modify (fun w hw => h w.now hw)

theorem keeps_perform (htorn : ∀ k s, I s → I (torn k s)) (hdone : ∀ s, I s → I (done s)) :
    Keeps (fun w => I w.now) (perform torn done : Faulty ε σ Unit) := by
  refine keeps_answer.bind (fun a => ?_)
  split
  · exact (keeps_change (htorn _)).bind (fun _ => keeps_throw)
  · exact keeps_change hdone

theorem keeps_run (hasked : ∀ k s, I s → I (asked k s)) :
    Keeps (fun w => I w.now) (run asked failure) := by
  refine keeps_answer.bind (fun a => ?_)
  split
  · exact keeps_throw
  · refine (keeps_change (hasked _)).bind (fun _ => ?_)
    split
    · exact keeps_throw
    · exact keeps_pure

theorem wp_answer {E : ε → World ε σ → Prop} :
    wp answer (fun a t => t.now = w.now ∧ (w.Calm → a.raised = none ∧ t.Calm)) E w := by
  unfold answer
  rw [wp_bind,wp_get]
  cases htape : w.tape with
  | nil => exact ⟨rfl,fun h => ⟨rfl,h⟩⟩
  | cons a tape =>
    refine ⟨rfl,fun h => ?_⟩
    rw [World.Calm,htape] at h
    obtain ⟨ha,hrest⟩ := List.forall_mem_cons.mp h
    exact ⟨ha,hrest⟩

theorem wp_look {Q : σ → World ε σ → Prop} {E : ε → World ε σ → Prop} :
    wp look Q E w ↔ Q w.now w := Iff.rfl

/-- What an operation has done, if it did not raise; in calm it does not. -/
theorem wp_perform : wp (perform torn done)
    (fun _ t => t.now = done w.now ∧ (w.Calm → t.Calm))
    (fun _ t => ¬w.Calm ∧ ∃ k, t.now = torn k w.now) w := by
  refine wp_seq wp_answer ?_
  rintro a t ⟨hnow,hcalm⟩
  cases hraised : a.raised with
  | none => exact ⟨by rw [← hnow],fun h => (hcalm h).2⟩
  | some r =>
    refine ⟨fun h => ?_,r.2,by rw [← hnow]⟩
    rw [hraised] at hcalm
    cases (hcalm h).1

theorem wp_run : wp (run asked failure)
    (fun _ t => t.now = asked 0 w.now ∧ (w.Calm → t.Calm))
    (fun e t => w.Calm → e = failure ∧ (∃ k, k ≠ 0 ∧ t.now = asked k w.now) ∧ t.Calm) w := by
  refine wp_seq wp_answer ?_
  rintro a t ⟨hnow,hcalm⟩
  cases hraised : a.raised with
  | none =>
    change wp (change (asked a.status) >>= _) _ _ t
    rw [wp_bind]
    change wp (if a.status ≠ 0 then throw failure else pure ()) _ _ _
    by_cases hstatus : a.status = 0
    · rw [if_neg (fun h => h hstatus)]
      exact ⟨by rw [← hnow,← hstatus],fun h => (hcalm h).2⟩
    · rw [if_pos hstatus]
      exact fun h => ⟨rfl,⟨a.status,hstatus,by rw [← hnow]⟩,(hcalm h).2⟩
  | some r =>
    intro h
    rw [hraised] at hcalm
    cases (hcalm h).1

theorem wp_perform_calm {E : ε → World ε σ → Prop} (hw : w.Calm) :
    wp (perform torn done) (fun _ t => t.now = done w.now ∧ t.Calm) E w :=
  wp_mono wp_perform (fun _ _ h => ⟨h.1,h.2 hw⟩) (fun _ _ h => absurd hw h.1)

theorem wp_run_calm (hw : w.Calm) :
    wp (run asked failure) (fun _ t => t.now = asked 0 w.now ∧ t.Calm)
      (fun e t => e = failure ∧ (∃ k, k ≠ 0 ∧ t.now = asked k w.now) ∧ t.Calm) w :=
  wp_mono wp_run (fun _ _ h => ⟨h.1,h.2 hw⟩) (fun _ _ h => h hw)

theorem wp_performed {Q : Unit → World ε σ → Prop}
    (h : ∀ t : World ε σ, t.now = done w.now → Q () t) :
    wp (perform torn done) Q (fun _ _ => True) w :=
  wp_mono wp_perform (fun _ t ht => h t ht.1) (fun _ _ _ => trivial)

end

end Faults
