import MaiaMeet.LockGraph
import MaiaMeet.Router
import MaiaMeet.Runs
set_option autoImplicit false

/-!
The mutexes on the way of a packet. A thread in onRtp holds its transport's mutex through
the publisher callback, which is the Router's route; route holds the Router's through its
loop, and each sendRtp takes the subscriber's. What onRtp does before the callback is
outside: a packet either reaches it, under the SSRC it is routed by, or is dropped.
-/

namespace MaiaMeet

inductive Mutex (T : Type) where
  | router
  | transport (t : T)
  deriving DecidableEq

/-- Where a thread is. `onRtp`, `route`, `loop` with a packet left and `sendRtp` are at a
lock_guard; `inner` is in the sendRtp of a loop, and `leaving` at the end of onRtp or sendRtp. -/
inductive Position (T : Type) where
  | idle
  | onRtp (t : T) (packet : Option (UInt32 × List UInt8))
  | route (t : T) (ssrc : UInt32) (data : List UInt8)
  | loop (t : T) (sent : List (Delivery T))
  | inner (t : T) (sub : T) (sent : List (Delivery T))
  | sendRtp (t : T)
  | leaving (t : T)

inductive ThreadEvent (T : Type) where
  | onRtp (i : Nat) (t : T) (packet : Option (UInt32 × List UInt8))
  | sendRtp (i : Nat) (t : T)
  | go (i : Nat)

structure Threads (T : Type) where
  position : Nat → Position T
  owner : Mutex T → Option Nat
  router : Router T

namespace Position

variable {T : Type}

def wants : Position T → Option (Mutex T)
  | .onRtp t _ => some (.transport t)
  | .route _ _ _ => some .router
  | .loop _ (d :: _) => some (.transport d.1)
  | .sendRtp t => some (.transport t)
  | _ => none

def Holds : Position T → Mutex T → Prop
  | .route t _ _, m => m = .transport t
  | .loop t _, m => m = .transport t ∨ m = .router
  | .inner t sub _, m => (m = .transport t ∨ m = .router) ∨ m = .transport sub
  | .leaving t, m => m = .transport t
  | _, _ => False

def locked (r : Router T) : Position T → Position T × Router T
  | .onRtp t none => (.leaving t,r)
  | .onRtp t (some (ssrc,data)) => (.route t ssrc data,r)
  | .route t ssrc data => (.loop t (r.route ssrc data).2.2,(r.route ssrc data).1)
  | .loop t (d :: sent) => (.inner t d.1 sent,r)
  | .sendRtp t => (.leaving t,r)
  | p => (p,r)

def unlocked : Position T → Option (Mutex T × Position T)
  | .loop t [] => some (.router,.leaving t)
  | .inner t sub sent => some (.transport sub,.loop t sent)
  | .leaving t => some (.transport t,.idle)
  | _ => none

end Position

namespace Threads

variable {T : Type}

def start (r : Router T) : Threads T := ⟨fun _ => .idle,fun _ => none,r⟩

def wants (s : Threads T) (i : Nat) : Option (Mutex T) := (s.position i).wants

def enter (s : Threads T) (i : Nat) (p : Position T) : Option (Threads T) :=
  match s.position i with
  | .idle => some { s with position := Function.update s.position i p }
  | _ => none

variable [DecidableEq T]

def go (s : Threads T) (i : Nat) : Option (Threads T) :=
  match s.wants i with
  | some m =>
    if s.owner m = none then
      some ⟨Function.update s.position i ((s.position i).locked s.router).1,
        Function.update s.owner m (some i),((s.position i).locked s.router).2⟩
    else none
  | none => (s.position i).unlocked.map (fun (m,p) =>
      ⟨Function.update s.position i p,Function.update s.owner m none,s.router⟩)

def step (s : Threads T) : ThreadEvent T → Option (Threads T)
  | .onRtp i t packet => s.enter i (.onRtp t packet)
  | .sendRtp i t => s.enter i (.sendRtp t)
  | .go i => s.go i

end Threads

def Router.targets {T : Type} (r : Router T) (ssrc : UInt32) : List T :=
  (r.entries ssrc).map (fun e => e.transport)

/-- What `traffic` allows to arrive: the packets of a transport that reach its callback come
under an SSRC it publishes. -/
def ThreadEvent.Allowed {T : Type} (traffic : T → UInt32 → Prop) : ThreadEvent T → Prop
  | .onRtp _ t (some (ssrc,_)) => traffic t ssrc
  | _ => True

section
variable {T : Type} {traffic : T → UInt32 → Prop} {r : Router T}

theorem targets_route (r : Router T) (ssrc : UInt32) (data : List UInt8) (s : UInt32) :
    (r.route ssrc data).1.targets s = r.targets s := by
  rw [Router.targets,(r.route_spec ssrc data).2.2 s]
  by_cases hs : s = ssrc
  · simp [hs,Router.targets,SubscriberEntry.pass]
  · simp [hs,Router.targets]

theorem targets_sent (r : Router T) (ssrc : UInt32) (data : List UInt8) :
    (r.route ssrc data).2.2.map Prod.fst = r.targets ssrc := by
  rw [(r.route_spec ssrc data).2.1]
  simp [Router.targets,SubscriberEntry.delivery]

def Position.Carries (traffic : T → UInt32 → Prop) (r : Router T) : Position T → Prop
  | .onRtp t (some (ssrc,_)) => traffic t ssrc
  | .route t ssrc _ => traffic t ssrc
  | .loop t sent => ∃ ssrc, traffic t ssrc ∧ ∀ d ∈ sent, d.1 ∈ r.targets ssrc
  | .inner t sub sent => t ≠ sub ∧ ∃ ssrc, traffic t ssrc ∧ ∀ d ∈ sent, d.1 ∈ r.targets ssrc
  | _ => True

structure Threads.Inv (traffic : T → UInt32 → Prop) (r : Router T) (s : Threads T) : Prop where
  owned : LockGraph.Owned (fun i => (s.position i).Holds) s.owner
  carries : ∀ i, (s.position i).Carries traffic r
  targets : ∀ ssrc, s.router.targets ssrc = r.targets ssrc

end

namespace Threads

variable {T : Type} {traffic : T → UInt32 → Prop} {r : Router T} {s u : Threads T}

theorem inv_start : (start r).Inv traffic r where
  owned := fun _ _ => ⟨fun h => (by cases h),fun h => h.elim⟩
  carries := fun _ => trivial
  targets := fun _ => rfl

theorem update_forall {P : Position T → Prop} {i : Nat} {p : Position T} (hp : P p)
    (h : ∀ j, P (s.position j)) (j : Nat) : P (Function.update s.position i p j) := by
  by_cases hj : j = i
  · rw [hj,Function.update_self]; exact hp
  · rw [Function.update_of_ne hj]; exact h j

theorem enter_eq_some {i : Nat} {p : Position T} :
    s.enter i p = some u ↔
      s.position i = .idle ∧ u = { s with position := Function.update s.position i p } := by
  unfold enter
  cases hp : s.position i <;> simp [eq_comm]

theorem inv_enter (h : s.Inv traffic r) {i : Nat} {p : Position T} (hp : p.Carries traffic r)
    (hholds : ∀ m, ¬ p.Holds m) (hu : s.enter i p = some u) : u.Inv traffic r := by
  obtain ⟨hidle,rfl⟩ := enter_eq_some.mp hu
  refine ⟨LockGraph.owned_congr h.owned (fun j m => ?_),update_forall hp h.carries,h.targets⟩
  by_cases hj : j = i
  · subst hj
    change (Function.update s.position j p j).Holds m ↔ (s.position j).Holds m
    rw [Function.update_self,hidle]
    exact iff_of_false (hholds m) id
  · simp [hj]

variable [DecidableEq T]

theorem inv_lock (h : s.Inv traffic r) {i : Nat} {m : Mutex T} (hm : s.wants i = some m)
    (hfree : s.owner m = none) :
    Inv traffic r ⟨Function.update s.position i ((s.position i).locked s.router).1,
      Function.update s.owner m (some i),((s.position i).locked s.router).2⟩ := by
  have hcarries := h.carries i
  have hholds : ∀ m', ((s.position i).locked s.router).1.Holds m' ↔
      (s.position i).Holds m' ∨ m' = m := by
    intro m'
    unfold wants at hm
    cases hp : s.position i with
    | onRtp t packet =>
      rw [hp] at hm
      cases hm
      rcases packet with _ | ⟨ssrc,data⟩ <;> simp [Position.locked,Position.Holds]
    | route | sendRtp =>
      rw [hp] at hm
      cases hm
      simp [Position.locked,Position.Holds]
    | loop t sent =>
      rw [hp] at hm
      cases sent with
      | nil => cases hm
      | cons d sent =>
        cases hm
        simp [Position.locked,Position.Holds]
    | _ => rw [hp] at hm; cases hm
  refine ⟨?_,update_forall ?_ h.carries,?_⟩
  · apply LockGraph.owned_acquire h.owned hfree
    · intro m'
      simpa using hholds m'
    · intro j hj m'
      simp [hj]
  · unfold wants at hm
    cases hp : s.position i with
    | onRtp t packet =>
      rw [hp] at hcarries
      rcases packet with _ | ⟨ssrc,data⟩
      · trivial
      · exact hcarries
    | route t ssrc data =>
      rw [hp] at hcarries
      refine ⟨ssrc,hcarries,fun d hd => ?_⟩
      rw [← h.targets,← targets_sent s.router ssrc data]
      exact List.mem_map_of_mem hd
    | loop t sent =>
      rw [hp] at hcarries hm
      cases sent with
      | nil => cases hm
      | cons d sent =>
        obtain ⟨ssrc,htraffic,hsent⟩ := hcarries
        refine ⟨?_,ssrc,htraffic,fun d' hd' => hsent d' (List.mem_cons_of_mem d hd')⟩
        rintro rfl
        -- its own mutex is not free
        have hself : (s.position i).Holds (.transport d.1) := by rw [hp]; exact Or.inl rfl
        have hown := (h.owned (.transport d.1) i).mpr hself
        cases hm
        rw [hown] at hfree
        cases hfree
    | sendRtp => trivial
    | idle | inner | leaving => rw [hp] at hm; cases hm
  · intro ssrc
    cases hp : s.position i with
    | onRtp t packet => rcases packet with _ | ⟨ssrc',data⟩ <;> exact h.targets ssrc
    | loop t sent => cases sent <;> exact h.targets ssrc
    | route t ssrc' data => exact (targets_route s.router ssrc' data ssrc).trans (h.targets ssrc)
    | _ => exact h.targets ssrc

theorem inv_unlock (h : s.Inv traffic r) {i : Nat} {m : Mutex T} {p : Position T}
    (hp : (s.position i).unlocked = some (m,p)) :
    Inv traffic r ⟨Function.update s.position i p,Function.update s.owner m none,s.router⟩ := by
  have hcarries := h.carries i
  have hholds : (s.position i).Holds m ∧ (∀ m', p.Holds m' ↔ (s.position i).Holds m' ∧ m' ≠ m) ∧
      p.Carries traffic r := by
    cases hq : s.position i with
    | loop t sent =>
      rw [hq] at hp
      cases sent with
      | nil =>
        cases hp
        refine ⟨Or.inr rfl,fun m' => ?_,trivial⟩
        cases m' <;> simp [Position.Holds]
      | cons => cases hp
    | inner t sub sent =>
      rw [hq] at hp hcarries
      cases hp
      refine ⟨Or.inr rfl,fun m' => ?_,hcarries.2⟩
      have hne := hcarries.1
      cases m' with
      | router => simp [Position.Holds]
      | transport t' =>
        simp only [Position.Holds,Mutex.transport.injEq,reduceCtorEq,or_false]
        constructor
        · rintro rfl
          exact ⟨Or.inl rfl,fun hsub => hne (Mutex.transport.inj hsub)⟩
        · rintro ⟨h | h,hsub⟩
          · exact h
          · exact absurd (congrArg Mutex.transport h) hsub
    | leaving t =>
      rw [hq] at hp
      cases hp
      refine ⟨rfl,fun m' => ?_,trivial⟩
      simp [Position.Holds]
    | _ => rw [hq] at hp; cases hp
  obtain ⟨hheld,hleft,hcarries⟩ := hholds
  refine ⟨?_,update_forall hcarries h.carries,h.targets⟩
  apply LockGraph.owned_release h.owned hheld
  · intro m'
    simpa using hleft m'
  · intro j hj m'
    simp [hj]

theorem inv_step (h : s.Inv traffic r) {e : ThreadEvent T} (he : e.Allowed traffic)
    (hu : s.step e = some u) : u.Inv traffic r := by
  cases e with
  | onRtp i t packet =>
    refine inv_enter (p := .onRtp t packet) h ?_ (fun _ hm => hm) hu
    rcases packet with _ | ⟨ssrc,data⟩
    · trivial
    · exact he
  | sendRtp i t => exact inv_enter (p := .sendRtp t) h trivial (fun _ hm => hm) hu
  | go i =>
    simp only [step,go] at hu
    cases hm : s.wants i with
    | some m =>
      simp only [hm,Option.ite_none_right_eq_some,Option.some.injEq] at hu
      obtain ⟨hfree,rfl⟩ := hu
      exact inv_lock h hm hfree
    | none =>
      simp only [hm,Option.map_eq_some_iff] at hu
      obtain ⟨⟨m,p⟩,hp,rfl⟩ := hu
      exact inv_unlock h hp

def rank (s : Threads T) (i : Nat) : Nat := match s.position i with
  | .onRtp _ _ | .sendRtp _ => 3
  | .route _ _ _ => 2
  | .loop _ (_ :: _) => 1
  | _ => 0

/-- No transport that sends to subscribers has a subscriber that sends to subscribers. -/
def OneWay (traffic : T → UInt32 → Prop) (r : Router T) : Prop :=
  ∀ t ssrc sub ssrc', traffic t ssrc → sub ∈ r.targets ssrc → ¬ traffic sub ssrc'

omit [DecidableEq T] in
theorem rank_lt (h : s.Inv traffic r) (hone : OneWay traffic r) {i j : Nat}
    (hij : LockGraph.WaitsFor s.wants s.owner i j) : s.rank j < s.rank i := by
  obtain ⟨m,hm,hj⟩ := hij
  have hheld : (s.position j).Holds m := (h.owned m j).mp hj
  have hcarriesj := h.carries j
  have hcarriesi := h.carries i
  unfold wants at hm
  unfold rank
  cases hp : s.position i with
  | onRtp | sendRtp =>
    -- who holds something is past the first lock_guard
    cases hq : s.position j with
    | loop t sent => cases sent <;> simp
    | idle | onRtp | sendRtp => rw [hq] at hheld; exact hheld.elim
    | _ => simp
  | route t ssrc data =>
    rw [hp] at hm
    cases hm
    cases hq : s.position j with
    | loop t sent => cases sent <;> simp
    | inner => simp
    | _ => rw [hq] at hheld; simp [Position.Holds] at hheld
  | loop t sent =>
    rw [hp] at hm hcarriesi
    cases sent with
    | nil => cases hm
    | cons d sent =>
      cases hm
      obtain ⟨ssrc,htraffic,hsent⟩ := hcarriesi
      have hsub := hone t ssrc d.1
      have hown (hrouter : (s.position j).Holds .router) : j = i := by
        have hi := (h.owned .router i).mpr (show (s.position i).Holds .router by
          rw [hp]; exact Or.inr rfl)
        rw [(h.owned .router j).mpr hrouter] at hi
        exact Option.some.inj hi
      cases hq : s.position j with
      | leaving => simp
      | inner => simp
      | route t' ssrc' data =>
        rw [hq] at hheld hcarriesj
        cases hheld
        exact absurd hcarriesj (hsub ssrc' htraffic (hsent d List.mem_cons_self))
      | loop t' sent' =>
        have hji := hown (by rw [hq]; exact Or.inr rfl)
        subst hji
        rw [hp] at hq hheld
        rcases hheld with hheld | hheld
        · cases hheld
          exact absurd htraffic (hsub ssrc htraffic (hsent d List.mem_cons_self))
        · cases hheld
      | _ => rw [hq] at hheld; exact hheld.elim
  | _ => rw [hp] at hm; cases hm

/-- A thread in the loop takes and leaves the mutexes that are free. -/
theorem run_loop {t : T} (done sent : List (Delivery T)) {s : Threads T}
    (hp : s.position 0 = .loop t (done ++ sent))
    (hfree : ∀ d ∈ done, s.owner (.transport d.1) = none) :
    Runs.exec step s (List.replicate (2*done.length) (.go 0)) =
      some { s with position := Function.update s.position 0 (.loop t sent) } := by
  induction done generalizing s with
  | nil =>
    have hself : Function.update s.position 0 (.loop t sent) = s.position := by
      rw [← List.nil_append sent,← hp,Function.update_eq_self]
    rw [hself]
    rfl
  | cons d done ih =>
    obtain ⟨hd,hdone⟩ := List.forall_mem_cons.mp hfree
    rw [List.cons_append] at hp
    let u : Threads T := { s with
      position := Function.update s.position 0 (.loop t (done ++ sent)) }
    have hstep : Runs.exec step s [.go 0,.go 0] = some u := by
      simp [Runs.exec,step,go,wants,hp,hd,Position.wants,Position.locked,Position.unlocked,u]
    have hrest := ih (s := u) (by simp [u]) hdone
    have hsplit : List.replicate (2*(d :: done).length) (ThreadEvent.go (T := T) 0) =
        [.go 0,.go 0] ++ List.replicate (2*done.length) (.go 0) := by
      rw [List.length_cons,Nat.mul_add,Nat.mul_one,Nat.add_comm,List.replicate_add]
      rfl
    rw [hsplit,Runs.exec_append,hstep]
    simpa [u] using hrest

theorem run_route (r : Router T) (t : T) (ssrc : UInt32) (data : List UInt8) :
    ∃ s, Runs.exec step (start r) [.onRtp 0 t (some (ssrc,data)),.go 0,.go 0] = some s ∧
      s.position 0 = .loop t (r.route ssrc data).2.2 ∧ s.position 1 = .idle ∧
      ∀ m, s.owner m = if m = .transport t ∨ m = .router then some 0 else none := by
  refine ⟨⟨Function.update (fun _ => .idle) 0 (.loop t (r.route ssrc data).2.2),
    Function.update (Function.update (fun _ => none) (.transport t) (some 0)) .router (some 0),
    (r.route ssrc data).1⟩,?_,rfl,rfl,fun m => ?_⟩
  · simp [Runs.exec,step,enter,go,start,wants,Position.wants,Position.locked]
  · cases m with
    | router => simp
    | transport t' => by_cases ht : t' = t <;> simp [ht]

omit [DecidableEq T] in
theorem allowed_go (n i : Nat) : ∀ e ∈ List.replicate n (ThreadEvent.go (T := T) i),
    e.Allowed traffic := by
  intro e he
  rw [List.eq_of_mem_replicate he]
  trivial

/-- The first subscriber of the loop that has packets of its own: if it is the sender, the
thread waits for itself, else for a thread that waits for the Router. -/
theorem deadlock_reached {t : T} {ssrc : UInt32} (ht : traffic t ssrc)
    (hsub : ∃ sub ∈ r.targets ssrc, ∃ ssrc', traffic sub ssrc') :
    ∃ es s, (∀ e ∈ es, ThreadEvent.Allowed traffic e) ∧
      Runs.exec step (start r) es = some s ∧ LockGraph.Deadlock s.wants s.owner := by
  classical
  let data : List UInt8 := List.replicate 12 128
  obtain ⟨s,hs,hloop,hidle,howner⟩ := run_route r t ssrc data
  obtain ⟨d,hd,ssrc',hd'⟩ : ∃ d ∈ (r.route ssrc data).2.2, ∃ ssrc', traffic d.1 ssrc' := by
    obtain ⟨sub,hmem,hsub⟩ := hsub
    rw [← targets_sent r ssrc data] at hmem
    obtain ⟨d,hd,rfl⟩ := List.mem_map.mp hmem
    exact ⟨d,hd,hsub⟩
  obtain ⟨first,hfirst⟩ := Option.isSome_iff_exists.mp
    (List.find?_isSome (p := fun d => decide (∃ ssrc', traffic d.1 ssrc')).mpr
      ⟨d,hd,decide_eq_true ⟨ssrc',hd'⟩⟩)
  obtain ⟨hsome,done,rest,hsplit,hdone⟩ := List.find?_eq_some_iff_append.mp hfirst
  obtain ⟨ssrc₁,hfirst⟩ := of_decide_eq_true hsome
  -- those before it are quiet, so their mutexes are free
  have hfree : ∀ d ∈ done, s.owner (.transport d.1) = none := by
    intro d hd
    have hquiet : ¬ ∃ ssrc', traffic d.1 ssrc' := by simpa using hdone d hd
    have hne : d.1 ≠ t := fun h => hquiet ⟨ssrc,by rw [h]; exact ht⟩
    simp [howner,hne]
  rw [hsplit] at hloop
  have hrun := run_loop done (first :: rest) hloop hfree
  let u : Threads T := { s with position := Function.update s.position 0 (.loop t (first :: rest)) }
  have hu : Runs.exec step (start r) ([.onRtp 0 t (some (ssrc,data)),.go 0,.go 0] ++
      List.replicate (2*done.length) (.go 0)) = some u := Runs.exec_append_some.mpr ⟨s,hs,hrun⟩
  have hwants : u.wants 0 = some (.transport first.1) := by simp [u,wants,Position.wants]
  have hallowed : ∀ e ∈ [.onRtp 0 t (some (ssrc,data)),.go 0,.go 0] ++
      List.replicate (2*done.length) (.go 0), ThreadEvent.Allowed traffic e := by
    intro e he
    rcases List.mem_append.mp he with he | he
    · simp only [List.mem_cons,List.not_mem_nil,or_false] at he
      rcases he with rfl | rfl | rfl
      · exact ht
      · trivial
      · trivial
    · exact allowed_go _ _ e he
  by_cases hself : first.1 = t
  · refine ⟨_,u,hallowed,hu,LockGraph.deadlock_of_self (i := 0) ⟨_,hwants,?_⟩⟩
    simp [u,howner,hself]
  · -- a packet of the subscriber's own comes in on another thread
    let v : Threads T := ⟨Function.update u.position 1 (.route first.1 ssrc₁ data),
      Function.update u.owner (.transport first.1) (some 1),u.router⟩
    have hv : Runs.exec step u [.onRtp 1 first.1 (some (ssrc₁,data)),.go 1] = some v := by
      simp [Runs.exec,step,enter,go,wants,u,hidle,howner,hself,Position.wants,Position.locked,v]
    refine ⟨_,v,?_,Runs.exec_append_some.mpr ⟨u,hu,hv⟩,
      LockGraph.deadlock_of_pair (i := 0) (j := 1) ⟨.transport first.1,?_,?_⟩ ⟨.router,?_,?_⟩⟩
    · intro e he
      rcases List.mem_append.mp he with he | he
      · exact hallowed e he
      · simp only [List.mem_cons,List.not_mem_nil,or_false] at he
        rcases he with rfl | rfl
        · exact hfirst
        · trivial
    · simpa [v,wants] using hwants
    · simp [v]
    · simp [v,wants,Position.wants]
    · simp [v,u,howner]

end Threads

/-- Forwarding is free of deadlocks, whatever the order of the threads, exactly when no
transport with a subscriber has one that itself sends packets through the Router. -/
theorem forwarding_deadlock_free {T : Type} [DecidableEq T] (r : Router T)
    (traffic : T → UInt32 → Prop) :
    (∀ es s, (∀ e ∈ es, ThreadEvent.Allowed traffic e) →
      Runs.exec Threads.step (Threads.start r) es = some s →
        ¬ LockGraph.Deadlock s.wants s.owner) ↔ Threads.OneWay traffic r := by
  constructor
  · intro hfree t ssrc sub ssrc' ht hsub hsub'
    obtain ⟨es,s,hes,hs,hdead⟩ := Threads.deadlock_reached ht ⟨sub,hsub,ssrc',hsub'⟩
    exact hfree es s hes hs hdead
  · intro hone es s hes hs
    have hinv : s.Inv traffic r := by
      refine Runs.exec_invariant_along (P := fun _ e => e.Allowed traffic) ?_
        Threads.inv_start (Runs.along_of_forall hes) hs
      exact fun s e t h he hu => Threads.inv_step h he hu
    exact LockGraph.not_deadlock_of_rank s.rank (fun i j hij => Threads.rank_lt hinv hone hij)

/-- One speaker with two listeners. -/
theorem forwarding_deadlock_free_lecture :
    ∀ es s, (∀ e ∈ es, ThreadEvent.Allowed (fun t ssrc => t = 0 ∧ ssrc = 1) e) →
      Runs.exec Threads.step (Threads.start (Router.new.run
        [.addSubscription 1 1 "front",.addSubscription 1 2 "back"])) es = some s →
          ¬ LockGraph.Deadlock s.wants s.owner := by
  refine (forwarding_deadlock_free _ _).mpr ?_
  rintro t ssrc sub ssrc' ⟨rfl,rfl⟩ hsub ⟨rfl,-⟩
  revert hsub
  decide

/-- Two transports subscribed to each other: each forwards a packet, and each waits for the
mutex the other holds. -/
theorem forwarding_deadlock_free_call :
    ∃ s, Runs.exec Threads.step (Threads.start (Router.new.run
        [.addSubscription 1 2 "sub",.addSubscription 2 1 "sub"]))
        [.onRtp 0 1 (some (1,List.replicate 12 128)),.go 0,.go 0,
          .onRtp 1 2 (some (2,List.replicate 12 128)),.go 1] = some s ∧
      LockGraph.WaitsFor s.wants s.owner 0 1 ∧ LockGraph.WaitsFor s.wants s.owner 1 0 ∧
      LockGraph.Deadlock s.wants s.owner := by
  refine ⟨_,rfl,⟨.transport 2,rfl,rfl⟩,⟨.router,rfl,rfl⟩,?_⟩
  exact LockGraph.deadlock_of_pair (i := 0) (j := 1) ⟨.transport 2,rfl,rfl⟩ ⟨.router,rfl,rfl⟩

end MaiaMeet
