import Mathlib.Data.List.Induction
import Mathlib.Logic.Function.Basic
set_option autoImplicit false

/-!
Runs of a machine whose step may be impossible: `step s e = none` says that event
`e` cannot happen in state `s`. All nondeterminism is in the choice of events.
-/

namespace Runs

variable {σ ε : Type}

/-- The state after the events, if each was possible when it came. -/
def exec (step : σ → ε → Option σ) : σ → List ε → Option σ
  | s, [] => some s
  | s, e :: es => (step s e).bind (fun t => exec step t es)

@[simp] theorem exec_nil (step : σ → ε → Option σ) (s : σ) : exec step s [] = some s := rfl

theorem exec_cons (step : σ → ε → Option σ) (s : σ) (e : ε) (es : List ε) :
    exec step s (e :: es) = (step s e).bind (fun t => exec step t es) := rfl

theorem exec_append (step : σ → ε → Option σ) (s : σ) (es fs : List ε) :
    exec step s (es ++ fs) = (exec step s es).bind (fun t => exec step t fs) := by
  induction es generalizing s with
  | nil => rfl
  | cons e es ih =>
    simp only [List.cons_append,exec_cons]
    cases step s e with
    | none => rfl
    | some t => exact ih t

theorem exec_cons_some {step : σ → ε → Option σ} {s u : σ} {e : ε} {es : List ε} :
    exec step s (e :: es) = some u ↔ ∃ t, step s e = some t ∧ exec step t es = some u := by
  simp [exec_cons,Option.bind_eq_some_iff]

theorem exec_append_some {step : σ → ε → Option σ} {s u : σ} {es fs : List ε} :
    exec step s (es ++ fs) = some u ↔
      ∃ t, exec step s es = some t ∧ exec step t fs = some u := by
  simp [exec_append,Option.bind_eq_some_iff]

theorem exec_snoc_some {step : σ → ε → Option σ} {s u : σ} {e : ε} {es : List ε} :
    exec step s (es ++ [e]) = some u ↔ ∃ t, exec step s es = some t ∧ step t e = some u := by
  simp [exec_append_some,exec_cons_some]

/-- What every step preserves, every run preserves. -/
theorem exec_invariant {step : σ → ε → Option σ} {I : σ → Prop}
    (hstep : ∀ s e t, I s → step s e = some t → I t) {s t : σ} {es : List ε}
    (hs : I s) (h : exec step s es = some t) : I t := by
  induction es generalizing s with
  | nil => cases h; exact hs
  | cons e es ih =>
    obtain ⟨u,hu,ht⟩ := exec_cons_some.mp h
    exact ih (hstep s e u hs hu) ht

/-- A run that comes to `P` does so at one of its steps. -/
theorem exec_reaches {step : σ → ε → Option σ} {P : σ → Prop} {s t : σ} {es : List ε}
    (hs : ¬P s) (ht : P t) (h : exec step s es = some t) : ∃ fs e gs u v, es = fs ++ e :: gs ∧
      exec step s fs = some u ∧ step u e = some v ∧ exec step v gs = some t ∧ ¬P u ∧ P v := by
  induction es generalizing s with
  | nil => cases h; exact absurd ht hs
  | cons e es ih =>
    obtain ⟨v,hv,h⟩ := exec_cons_some.mp h
    by_cases hp : P v
    · exact ⟨[],e,es,s,v,rfl,rfl,hv,h,hs,hp⟩
    · obtain ⟨fs,d,gs,u,v',rfl,hu,hstep,hrest,hnot,hyes⟩ := ih hp h
      exact ⟨e :: fs,d,gs,u,v',rfl,exec_cons_some.mpr ⟨v,hv,hu⟩,hstep,hrest,hnot,hyes⟩

/-- `P` holds at each step of the run: of the state before it and its event. -/
def Along (step : σ → ε → Option σ) (P : σ → ε → Prop) : σ → List ε → Prop
  | _, [] => True
  | s, e :: es => P s e ∧ ∀ t ∈ step s e, Along step P t es

instance Along.decidable (step : σ → ε → Option σ) (P : σ → ε → Prop)
    [hP : ∀ s e, Decidable (P s e)] : ∀ s es, Decidable (Along step P s es)
  | _, [] => isTrue trivial
  | s, e :: es =>
    match h : step s e with
    | none => decidable_of_iff (P s e) (by simp [Along,h])
    | some t =>
      have : Decidable (Along step P t es) := Along.decidable step P t es
      decidable_of_iff (P s e ∧ Along step P t es) (by simp [Along,h])

theorem along_append {step : σ → ε → Option σ} {P : σ → ε → Prop} {s t : σ} {es fs : List ε}
    (h : exec step s es = some t) :
    Along step P s (es ++ fs) ↔ Along step P s es ∧ Along step P t fs := by
  induction es generalizing s with
  | nil => cases h; simp [Along]
  | cons e es ih =>
    obtain ⟨u,hu,ht⟩ := exec_cons_some.mp h
    simp [Along,hu,ih ht,and_assoc]

theorem along_iff_forall {step : σ → ε → Option σ} {P : σ → ε → Prop} {s : σ} {es : List ε} :
    Along step P s es ↔
      ∀ fs e gs, es = fs ++ e :: gs → ∀ t, exec step s fs = some t → P t e := by
  constructor
  · rintro h fs e gs rfl t ht
    exact ((along_append ht).mp h).2.1
  · intro h
    induction es generalizing s with
    | nil => trivial
    | cons e es ih =>
      refine ⟨h [] e es rfl s rfl,fun u hu => ih (fun fs d gs hes t ht => ?_)⟩
      exact h (e :: fs) d gs (by rw [hes]; rfl) t (exec_cons_some.mpr ⟨u,hu,ht⟩)

theorem Along.mono {step : σ → ε → Option σ} {P Q : σ → ε → Prop} (h : ∀ s e, P s e → Q s e)
    {s : σ} {es : List ε} (hP : Along step P s es) : Along step Q s es := by
  induction es generalizing s with
  | nil => trivial
  | cons e es ih => exact ⟨h s e hP.1,fun t ht => ih (hP.2 t ht)⟩

theorem along_congr {step : σ → ε → Option σ} {P Q : σ → ε → Prop} (h : ∀ s e, P s e ↔ Q s e)
    {s : σ} {es : List ε} : Along step P s es ↔ Along step Q s es :=
  ⟨Along.mono (fun s e => (h s e).mp),Along.mono (fun s e => (h s e).mpr)⟩

theorem along_of_forall {step : σ → ε → Option σ} {P : ε → Prop} {s : σ} {es : List ε}
    (h : ∀ e ∈ es, P e) : Along step (fun _ e => P e) s es := by
  induction es generalizing s with
  | nil => trivial
  | cons e es ih =>
    exact ⟨h e List.mem_cons_self,fun t _ => ih (fun e he => h e (List.mem_cons_of_mem _ he))⟩

theorem Along.and {step : σ → ε → Option σ} {P Q : σ → ε → Prop} {s : σ} {es : List ε}
    (hP : Along step P s es) (hQ : Along step Q s es) :
    Along step (fun s e => P s e ∧ Q s e) s es := by
  induction es generalizing s with
  | nil => trivial
  | cons e es ih => exact ⟨⟨hP.1,hQ.1⟩,fun t ht => ih (hP.2 t ht) (hQ.2 t ht)⟩

/-- The invariant rule for runs whose steps all meet a condition. -/
theorem exec_invariant_along {step : σ → ε → Option σ} {P : σ → ε → Prop} {I : σ → Prop}
    (hstep : ∀ s e t, I s → P s e → step s e = some t → I t) {s t : σ} {es : List ε}
    (hs : I s) (hP : Along step P s es) (h : exec step s es = some t) : I t := by
  induction es generalizing s with
  | nil => cases h; exact hs
  | cons e es ih =>
    obtain ⟨u,hu,ht⟩ := exec_cons_some.mp h
    exact ih (hstep s e u hs hP.1 hu) (hP.2 u hu) ht

/-- What holds of the next step wherever an invariant does, holds along every run. -/
theorem along_of_invariant {step : σ → ε → Option σ} {P : σ → ε → Prop} {I : σ → Prop}
    (hstep : ∀ s e t, I s → step s e = some t → I t) (hP : ∀ s e, I s → P s e) {s : σ}
    {es : List ε} (hs : I s) : Along step P s es := by
  induction es generalizing s with
  | nil => trivial
  | cons e es ih => exact ⟨hP s e hs,fun t ht => ih (hstep s e t hs ht)⟩

theorem Along.of_invariant {step : σ → ε → Option σ} {P Q : σ → ε → Prop} {I : σ → Prop}
    (hstep : ∀ s e t, I s → P s e → step s e = some t → I t)
    (hQ : ∀ s e, I s → P s e → Q s e) {s : σ} {es : List ε} (hs : I s) (hP : Along step P s es) :
    Along step Q s es := by
  induction es generalizing s with
  | nil => trivial
  | cons e es ih => exact ⟨hQ s e hs hP.1,fun t ht => ih (hstep s e t hs hP.1 ht) (hP.2 t ht)⟩

theorem along_congr_of_invariant {step : σ → ε → Option σ} {P Q : σ → ε → Prop} {I : σ → Prop}
    (hstep : ∀ s e t, I s → step s e = some t → I t) (h : ∀ s e, I s → (P s e ↔ Q s e)) {s : σ}
    {es : List ε} (hs : I s) : Along step P s es ↔ Along step Q s es := by
  induction es generalizing s with
  | nil => exact Iff.rfl
  | cons e es ih =>
    exact and_congr (h s e hs) (forall₂_congr (fun t ht => ih (hstep s e t hs ht)))

def Leads (step : σ → ε → Option σ) (P : σ → ε → Prop) (s t : σ) : Prop :=
  ∃ es, exec step s es = some t ∧ Along step P s es

theorem Leads.refl {step : σ → ε → Option σ} {P : σ → ε → Prop} (s : σ) : Leads step P s s :=
  ⟨[],rfl,trivial⟩

theorem Leads.single {step : σ → ε → Option σ} {P : σ → ε → Prop} {s t : σ} {e : ε} (hP : P s e)
    (h : step s e = some t) : Leads step P s t :=
  ⟨[e],exec_cons_some.mpr ⟨t,h,rfl⟩,hP,fun _ _ => trivial⟩

theorem Leads.trans {step : σ → ε → Option σ} {P : σ → ε → Prop} {s t u : σ}
    (h : Leads step P s t) (hu : Leads step P t u) : Leads step P s u := by
  obtain ⟨es,hes,hP⟩ := h
  obtain ⟨fs,hfs,hQ⟩ := hu
  exact ⟨es ++ fs,exec_append_some.mpr ⟨t,hes,hfs⟩,(along_append hes).mpr ⟨hP,hQ⟩⟩

theorem Leads.mono {step : σ → ε → Option σ} {P Q : σ → ε → Prop} (h : ∀ s e, P s e → Q s e)
    {s t : σ} (hl : Leads step P s t) : Leads step Q s t := by
  obtain ⟨es,hes,hP⟩ := hl
  exact ⟨es,hes,hP.mono h⟩

theorem Leads.invariant {step : σ → ε → Option σ} {P : σ → ε → Prop} {I : σ → Prop}
    (hstep : ∀ s e t, I s → P s e → step s e = some t → I t) {s t : σ} (hs : I s)
    (h : Leads step P s t) : I t := by
  obtain ⟨es,hes,hP⟩ := h
  exact exec_invariant_along hstep hs hP hes

def trace {α : Type} (step : σ → ε → Option σ) (f : σ → ε → List α) : σ → List ε → List α
  | _, [] => []
  | s, e :: es => f s e ++ (step s e).elim [] (fun t => trace step f t es)

theorem trace_append {α : Type} {step : σ → ε → Option σ} {f : σ → ε → List α} {s t : σ}
    {es fs : List ε} (h : exec step s es = some t) :
    trace step f s (es ++ fs) = trace step f s es ++ trace step f t fs := by
  induction es generalizing s with
  | nil => cases h; rfl
  | cons e es ih =>
    obtain ⟨u,hu,ht⟩ := exec_cons_some.mp h
    simp [trace,hu,ih ht]

theorem trace_snoc {α : Type} {step : σ → ε → Option σ} {f : σ → ε → List α} {s t u : σ}
    {e : ε} {es : List ε} (h : exec step s es = some t) (he : step t e = some u) :
    trace step f s (es ++ [e]) = trace step f s es ++ f t e := by
  rw [trace_append h,trace,he]
  simp [trace]

/-- Induction along a run, for statements about the events so far. -/
theorem exec_induction {step : σ → ε → Option σ} {s : σ} {I : List ε → σ → Prop} (hs : I [] s)
    (hstep : ∀ es t e u, exec step s es = some t → I es t → step t e = some u → I (es ++ [e]) u)
    {es : List ε} {t : σ} (h : exec step s es = some t) : I es t := by
  induction es using List.reverseRecOn generalizing t with
  | nil => cases h; exact hs
  | append_singleton es e ih =>
    obtain ⟨u,hu,ht⟩ := exec_snoc_some.mp h
    exact hstep es u e t hu (ih hu) ht

theorem exec_induction_along {step : σ → ε → Option σ} {P : σ → ε → Prop} {s : σ}
    {I : List ε → σ → Prop} (hs : I [] s)
    (hstep : ∀ es t e u, exec step s es = some t → I es t → P t e → step t e = some u →
      I (es ++ [e]) u)
    {es : List ε} {t : σ} (hP : Along step P s es) (h : exec step s es = some t) : I es t := by
  induction es using List.reverseRecOn generalizing t with
  | nil => cases h; exact hs
  | append_singleton es e ih =>
    obtain ⟨u,hu,ht⟩ := exec_snoc_some.mp h
    obtain ⟨hes,he⟩ := (along_append hu).mp hP
    exact hstep es u e t hu (ih hes hu) he.1 ht

end Runs
