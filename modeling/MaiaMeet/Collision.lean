import MaiaMeet.History
import MaiaMeet.Runs
set_option autoImplicit false

/-! Publishers of one SSRC. The Router keeps no publisher with an entry, so a subscription's
transport is labelled here with the publisher it was added for. -/

namespace MaiaMeet

/-- A call of the Router, and the publisher it is made for. -/
structure PublisherCall (T : Type) where
  owner : String
  op : RouterOp T
  deriving DecidableEq

def RouterOp.publishes {T : Type} : RouterOp T → Bool
  | .addPublisher _ _ | .removePublisher _ | .route _ _ => true
  | _ => false

def RouterOp.target {T : Type} : RouterOp T → Option UInt32
  | .removePublisher ssrc | .route ssrc _ => some ssrc
  | _ => none

variable {T : Type}

namespace PublisherCall

def labelled (c : PublisherCall T) : RouterOp (T × String) := c.op.map (fun t => (t,c.owner))

def step (r : Router (T × String)) (c : PublisherCall T) : Option (Router (T × String)) :=
  some (r.step c.labelled).1

def madeFor (b : String) (c : PublisherCall T) : Bool := c.owner = b && c.op.publishes

end PublisherCall

namespace Router

def heard (a : String) (r : Router (T × String)) (ops : List (RouterOp (T × String))) :
    List (Delivery (T × String)) := (r.deliveries ops).filter (fun d => d.1.2 = a)

def subscribers (a : String) (r : Router (T × String)) :
    UInt32 → List (SubscriberEntry (T × String)) := r.chosen (fun t => t.2 = a)

theorem heard_cons (a : String) (r : Router (T × String)) (op : RouterOp (T × String))
    (ops : List (RouterOp (T × String))) :
    r.heard a (op :: ops) = r.heard a [op] ++ (r.step op).1.heard a ops := by
  simp [heard,deliveries]

theorem heard_one (a : String) (r : Router (T × String)) (op : RouterOp (T × String)) :
    r.heard a [op] = match op with
      | .route ssrc data => (r.subscribers a ssrc).map (SubscriberEntry.delivery data)
      | _ => [] := by
  simp only [heard,deliveries,List.append_nil]
  refine (chosen_deliveries (fun t => decide (t.2 = a)) r op).trans ?_
  cases op <;> rfl

theorem subscribers_step (a : String) (r : Router (T × String)) (op : RouterOp (T × String))
    (s : UInt32) : (r.step op).1.subscribers a s = match op with
      | .addSubscription ssrc t id => r.subscribers a s ++
          if s = ssrc ∧ decide (t.2 = a) then [⟨id,t,RtpRewriter.new⟩] else []
      | op => change s (r.subscribers a s) op := by
  refine (chosen_step (fun t => decide (t.2 = a)) r op s).trans ?_
  cases op <;> rfl

/-- What `a`'s subscriptions receive depends on them alone. -/
theorem heard_congr {a : String} {r q : Router (T × String)}
    (h : ∀ s, r.subscribers a s = q.subscribers a s) (ops : List (RouterOp (T × String))) :
    r.heard a ops = q.heard a ops := by
  induction ops generalizing r q with
  | nil => rfl
  | cons op ops ih =>
    have hnext : ∀ s, (r.step op).1.subscribers a s = (q.step op).1.subscribers a s := by
      intro s
      rw [subscribers_step,subscribers_step,h]
    have hone : r.heard a [op] = q.heard a [op] := by
      rw [heard_one,heard_one]
      cases op <;> simp [h]
    rw [heard_cons a r,heard_cons a q,hone,ih hnext]

end Router

open Runs

/-- The call of `b` sends nothing to `a`'s subscriptions and changes nothing they receive,
whatever comes after it. -/
def Isolated (a b : String) (r : Router (T × String)) (c : PublisherCall T) : Prop :=
  c.madeFor b → r.heard a [c.labelled] = [] ∧
    ∀ ops, (r.step c.labelled).1.heard a ops = r.heard a ops

def Separate (a b : String) (r : Router (T × String)) (c : PublisherCall T) : Prop :=
  c.owner = b → ∀ s ∈ c.op.target, ∀ e ∈ r.entries s, e.transport.2 ≠ a

theorem separate_iff {a b : String} {r : Router (T × String)} {c : PublisherCall T} :
    Separate a b r c ↔ (c.owner = b → ∀ s ∈ c.op.target, r.subscribers a s = []) := by
  simp [Separate,Router.subscribers,Router.chosen,List.filter_eq_nil_iff]

theorem isolated_of_separate {a b : String} {r : Router (T × String)} {c : PublisherCall T}
    (h : Separate a b r c) : Isolated a b r c := by
  intro hby
  obtain ⟨howner,hpub⟩ := Bool.and_eq_true_iff.mp hby
  have hempty := separate_iff.mp h (of_decide_eq_true howner)
  obtain ⟨owner,op⟩ := c
  refine ⟨?_,Router.heard_congr (fun s => ?_)⟩
  · rw [Router.heard_one]
    cases op with
    | route ssrc data => simp [PublisherCall.labelled,RouterOp.map,hempty ssrc rfl]
    | _ => rfl
  · rw [Router.subscribers_step]
    cases op with
    | addPublisher => rfl
    | removePublisher ssrc | route ssrc data =>
      by_cases hs : s = ssrc
      · simp [PublisherCall.labelled,RouterOp.map,Router.change,hs,hempty ssrc rfl]
      · simp [PublisherCall.labelled,RouterOp.map,Router.change,hs]
    | addSubscription | removeSubscription => cases hpub

theorem separate_of_isolated {a b : String} {r : Router (T × String)} {c : PublisherCall T}
    (h : Isolated a b r c) : Separate a b r c := by
  rw [separate_iff]
  intro howner s hs
  obtain ⟨owner,op⟩ := c
  cases op with
  | route ssrc data =>
    cases hs
    obtain ⟨hnone,-⟩ := h (by simpa [PublisherCall.madeFor,RouterOp.publishes] using howner)
    rw [Router.heard_one] at hnone
    exact List.map_eq_nil_iff.mp hnone
  | removePublisher ssrc =>
    -- a packet routed next would tell the difference
    cases hs
    obtain ⟨-,hsame⟩ := h (by simpa [PublisherCall.madeFor,RouterOp.publishes] using howner)
    have hroute := hsame [.route s []]
    rw [Router.heard_one,Router.heard_one] at hroute
    simp only [Router.subscribers_step,PublisherCall.labelled,RouterOp.map,Router.change,if_true,
      List.map_nil] at hroute
    exact List.map_eq_nil_iff.mp hroute.symm
  | _ => cases hs

theorem heard_without {a b : String} {r : Router (T × String)} {calls : List (PublisherCall T)}
    (h : Along PublisherCall.step (Isolated a b) r calls) :
    r.heard a ((calls.filter (fun c => !c.madeFor b)).map PublisherCall.labelled) =
      r.heard a (calls.map PublisherCall.labelled) := by
  induction calls generalizing r with
  | nil => rfl
  | cons c calls ih =>
    obtain ⟨hc,hcalls⟩ := h
    have ih := ih (hcalls _ rfl)
    rw [List.map_cons,Router.heard_cons,← ih]
    cases hby : c.madeFor b with
    | true =>
      obtain ⟨hnone,hsame⟩ := hc hby
      rw [List.filter_cons_of_neg (by simp [hby]),hnone,hsame,List.nil_append]
    | false =>
      rw [List.filter_cons_of_pos (by simp [hby]),List.map_cons,Router.heard_cons]

/-- SSRCs that do not collide are separate. -/
theorem separate_of_distinct {a b : String} {ours : UInt32 → Prop}
    {calls : List (PublisherCall T)}
    (ha : ∀ c ∈ calls, ∀ s t id, c.owner = a → c.op = .addSubscription s t id → ours s)
    (hb : ∀ c ∈ calls, ∀ s ∈ c.op.target, c.owner = b → ¬ ours s) {r : Router (T × String)}
    (hr : ∀ s, ¬ ours s → r.subscribers a s = []) :
    Along PublisherCall.step (Separate a b) r calls := by
  induction calls generalizing r with
  | nil => trivial
  | cons c calls ih =>
    obtain ⟨hac,ha⟩ := List.forall_mem_cons.mp ha
    obtain ⟨hbc,hb⟩ := List.forall_mem_cons.mp hb
    refine ⟨separate_iff.mpr (fun howner s hs => hr s (hbc s hs howner)),?_⟩
    rintro _ ⟨⟩
    refine ih ha hb (fun s hs => ?_)
    obtain ⟨owner,op⟩ := c
    rw [Router.subscribers_step]
    cases op with
    | addSubscription ssrc t id =>
      have hne : ¬ (s = ssrc ∧ owner = a) := by
        rintro ⟨rfl,rfl⟩
        exact hs (hac s t id rfl rfl)
      simp [PublisherCall.labelled,RouterOp.map,hr s hs,hne]
    | _ => simp [PublisherCall.labelled,RouterOp.map,Router.change,hr s hs]

/-- A publisher leaves another one's subscriptions alone in exactly the runs where it sends
nothing, and is never removed, under an SSRC the other is subscribed to. -/
theorem publisher_isolation (a b : String) (calls : List (PublisherCall T)) :
    (Along PublisherCall.step (Isolated a b) Router.new calls ↔
      Along PublisherCall.step (Separate a b) Router.new calls) ∧
    (Along PublisherCall.step (Separate a b) Router.new calls →
      Router.new.heard a ((calls.filter (fun c => !c.madeFor b)).map PublisherCall.labelled) =
        Router.new.heard a (calls.map PublisherCall.labelled)) := by
  have hiff : Along PublisherCall.step (Isolated a b) Router.new calls ↔
      Along PublisherCall.step (Separate a b) Router.new calls :=
    along_congr (fun _ _ => ⟨separate_of_isolated,isolated_of_separate⟩)
  exact ⟨hiff,fun h => heard_without (hiff.mpr h)⟩

def collidingCalls : List (PublisherCall String) :=
  [⟨"t1",.addPublisher 1 "t1"⟩,⟨"t2",.addPublisher 1 "t2"⟩,
    ⟨"t1",.addSubscription 1 "phone" "sub"⟩,⟨"t2",.route 1 (List.replicate 12 128)⟩]

/-- The second's packet reaches the first's subscriber. -/
theorem publisher_isolation_collision :
    (Router.new.heard "t1" (collidingCalls.map PublisherCall.labelled)).length = 1 ∧
      Router.new.heard "t1" ((collidingCalls.filter (fun c => !c.madeFor "t2")).map
        PublisherCall.labelled) = [] ∧
      ¬ Along PublisherCall.step (Isolated "t1" "t2") Router.new collidingCalls := by
  have hone : (Router.new.heard "t1" (collidingCalls.map PublisherCall.labelled)).length = 1 := by
    decide +kernel
  have hnone : Router.new.heard "t1" ((collidingCalls.filter (fun c => !c.madeFor "t2")).map
      PublisherCall.labelled) = [] := by decide +kernel
  refine ⟨hone,hnone,fun h => ?_⟩
  rw [← heard_without h,hnone] at hone
  cases hone

end MaiaMeet
