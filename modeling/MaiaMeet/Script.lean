set_option autoImplicit false

/-!
Statements that read and write a state and may raise, as `EStateM` has them: what a statement
did before it raised stays done. What holds after a statement, one condition for either end.
-/

namespace Script

variable {ε σ α β : Type}

/-- `Q` holds if the statement ends normally, `E` if it raises. -/
def wp (x : EStateM ε σ α) (Q : α → σ → Prop) (E : ε → σ → Prop) (s : σ) : Prop :=
  match x s with
  | .ok a t => Q a t
  | .error e t => E e t

instance wp.decidable (x : EStateM ε σ α) (Q : α → σ → Prop) (E : ε → σ → Prop)
    [hQ : ∀ a t, Decidable (Q a t)] [hE : ∀ e t, Decidable (E e t)] (s : σ) :
    Decidable (wp x Q E s) :=
  match h : x s with
  | .ok a t => decidable_of_iff (Q a t) (by simp [wp,h])
  | .error e t => decidable_of_iff (E e t) (by simp [wp,h])

def doIf (c : Bool) (x : EStateM ε σ Unit) : EStateM ε σ Unit := if c then x else pure ()

def forEach (f : α → EStateM ε σ Unit) : List α → EStateM ε σ Unit
  | [] => pure ()
  | a :: as => do
    f a
    forEach f as

variable {x : EStateM ε σ α} {f : α → EStateM ε σ β} {Q Q' : α → σ → Prop} {R : β → σ → Prop}
  {E E' : ε → σ → Prop} {s t : σ} {a : α} {e : ε}

@[simp] theorem wp_pure : wp (pure a) Q E s ↔ Q a s := Iff.rfl

@[simp] theorem wp_get {Q : σ → σ → Prop} : wp (get : EStateM ε σ σ) Q E s ↔ Q s s := Iff.rfl

@[simp] theorem wp_modify {Q : PUnit → σ → Prop} {g : σ → σ} :
    wp (modify g : EStateM ε σ PUnit) Q E s ↔ Q ⟨⟩ (g s) := Iff.rfl

@[simp] theorem wp_throw : wp (throw e : EStateM ε σ α) Q E s ↔ E e s := Iff.rfl

theorem wp_ok (hx : x s = .ok a t) : wp x Q E s ↔ Q a t := by rw [wp,hx]

theorem wp_error (hx : x s = .error e t) : wp x Q E s ↔ E e t := by rw [wp,hx]

theorem bind_of_ok (hx : x s = .ok a t) : (x >>= f) s = f a t := by
  change EStateM.bind x f s = f a t
  delta EStateM.bind
  rw [hx]

theorem bind_of_error (hx : x s = .error e t) : (x >>= f) s = .error e t := by
  change EStateM.bind x f s = .error e t
  delta EStateM.bind
  rw [hx]

theorem tryCatch_of_ok {handler : ε → EStateM ε σ α} (hx : x s = .ok a t) :
    tryCatch x handler s = .ok a t := by
  change EStateM.tryCatch x handler s = .ok a t
  delta EStateM.tryCatch
  rw [hx]

theorem tryCatch_of_error {handler : ε → EStateM ε σ α} (hx : x s = .error e t) :
    tryCatch x handler s = handler e t := by
  change EStateM.tryCatch x handler s = handler e t
  delta EStateM.tryCatch
  rw [hx]
  rfl

theorem wp_bind : wp (x >>= f) R E s ↔ wp x (fun a t => wp (f a) R E t) E s := by
  cases hx : x s with
  | ok a t => rw [wp_ok hx,wp,bind_of_ok hx,wp]
  | error e t => rw [wp_error hx,wp_error (bind_of_error hx)]

theorem wp_tryCatch {handler : ε → EStateM ε σ α} :
    wp (tryCatch x handler) Q E s ↔ wp x Q (fun e t => wp (handler e) Q E t) s := by
  cases hx : x s with
  | ok a t => rw [wp_ok hx,wp_ok (tryCatch_of_ok hx)]
  | error e t => rw [wp_error hx,wp,tryCatch_of_error hx,wp]

theorem wp_doIf {x : EStateM ε σ Unit} {Q : Unit → σ → Prop} {c : Bool} :
    wp (doIf c x) Q E s ↔ if c then wp x Q E s else Q () s := by
  cases c <;> rfl

theorem wp_mono (h : wp x Q E s) (hQ : ∀ a t, Q a t → Q' a t) (hE : ∀ e t, E e t → E' e t) :
    wp x Q' E' s := by
  cases hx : x s with
  | ok a t => exact (wp_ok hx).mpr (hQ a t ((wp_ok hx).mp h))
  | error e t => exact (wp_error hx).mpr (hE e t ((wp_error hx).mp h))

theorem wp_and (h : wp x Q E s) (h' : wp x Q' E' s) :
    wp x (fun a t => Q a t ∧ Q' a t) (fun e t => E e t ∧ E' e t) s := by
  cases hx : x s with
  | ok a t => exact (wp_ok hx).mpr ⟨(wp_ok hx).mp h,(wp_ok hx).mp h'⟩
  | error e t => exact (wp_error hx).mpr ⟨(wp_error hx).mp h,(wp_error hx).mp h'⟩

theorem wp_true : wp x (fun _ _ => True) (fun _ _ => True) s := by
  cases hx : x s with
  | ok a t => exact (wp_ok hx).mpr trivial
  | error e t => exact (wp_error hx).mpr trivial

theorem wp_seq (hx : wp x Q E s) (hf : ∀ a t, Q a t → wp (f a) R E t) : wp (x >>= f) R E s :=
  wp_bind.mpr (wp_mono hx hf (fun _ _ h => h))

theorem ok_of_wp (h : wp x Q (fun _ _ => False) s) : ∃ a t, x s = .ok a t ∧ Q a t := by
  cases hx : x s with
  | ok a t => exact ⟨a,t,rfl,(wp_ok hx).mp h⟩
  | error e t => exact ((wp_error hx).mp h).elim

theorem error_of_wp (h : wp x (fun _ _ => False) E s) : ∃ e t, x s = .error e t ∧ E e t := by
  cases hx : x s with
  | ok a t => exact ((wp_ok hx).mp h).elim
  | error e t => exact ⟨e,t,rfl,(wp_error hx).mp h⟩

def Keeps (I : σ → Prop) (x : EStateM ε σ α) : Prop :=
  ∀ s, I s → wp x (fun _ => I) (fun _ => I) s

variable {I : σ → Prop}

theorem Keeps.wp (hx : Keeps I x) (hs : I s) :
    wp x (fun _ => I) (fun _ _ => True) s := wp_mono (hx s hs) (fun _ _ h => h) (fun _ _ _ => trivial)

theorem keeps_pure : Keeps I (pure a : EStateM ε σ α) := fun _ hs => hs

theorem keeps_throw : Keeps I (throw e : EStateM ε σ α) := fun _ hs => hs

theorem keeps_get : Keeps I (get : EStateM ε σ σ) := fun _ hs => hs

theorem keeps_modify {g : σ → σ} (h : ∀ s, I s → I (g s)) :
    Keeps I (modify g : EStateM ε σ PUnit) := h

theorem Keeps.bind (hx : Keeps I x) (hf : ∀ a, Keeps I (f a)) : Keeps I (x >>= f) :=
  fun s hs => wp_seq (hx s hs) (fun a t ht => hf a t ht)

theorem Keeps.tryCatch {handler : ε → EStateM ε σ α} (hx : Keeps I x)
    (hh : ∀ e, Keeps I (handler e)) : Keeps I (tryCatch x handler) :=
  fun s hs => wp_tryCatch.mpr (wp_mono (hx s hs) (fun _ _ ht => ht) (fun e t ht => hh e t ht))

theorem Keeps.doIf {x : EStateM ε σ Unit} (hx : Keeps I x) (c : Bool) : Keeps I (doIf c x) := by
  cases c with
  | true => exact hx
  | false => exact keeps_pure

theorem Keeps.forEach {f : α → EStateM ε σ Unit} {as : List α} (h : ∀ a ∈ as, Keeps I (f a)) :
    Keeps I (forEach f as) := by
  induction as with
  | nil => exact keeps_pure
  | cons a as ih =>
    exact (h a List.mem_cons_self).bind (fun _ => ih (fun b hb => h b (List.mem_cons_of_mem a hb)))

end Script
