import MaiaMeet.OrderedMap
import MaiaMeet.Rtp
set_option autoImplicit false

/-! The SFU's Router. It never looks into a transport, so `T` is any type of them. -/

namespace MaiaMeet

structure SubscriberEntry (T : Type) where
  subId : String
  transport : T
  rewriter : RtpRewriter
  deriving DecidableEq, Repr

structure Router (T : Type) where
  publishers : OrderedMap UInt32 String
  routes : OrderedMap UInt32 (List (SubscriberEntry T))

/-- A call of sendRtp: the transport and the buffer it is given. -/
abbrev Delivery (T : Type) := T × List UInt8

inductive RouterOp (T : Type) where
  | addPublisher (ssrc : UInt32) (publisherTransportId : String)
  | removePublisher (ssrc : UInt32)
  | addSubscription (ssrc : UInt32) (subscriberTransport : T) (subId : String)
  | removeSubscription (subId : String)
  | route (ssrc : UInt32) (data : List UInt8)
  deriving DecidableEq, Repr

namespace Router

variable {T : Type}

def new : Router T := ⟨OrderedMap.empty,OrderedMap.empty⟩

def addPublisher (r : Router T) (ssrc : UInt32) (publisherTransportId : String) : Router T :=
  { r with publishers := r.publishers.set ssrc publisherTransportId }

def removePublisher (r : Router T) (ssrc : UInt32) : Router T :=
  ⟨r.publishers.delete ssrc,r.routes.delete ssrc⟩

/-- `routes_[ssrc].push_back`: a missing vector is made first. -/
def addSubscription (r : Router T) (ssrc : UInt32) (subscriberTransport : T) (subId : String) :
    Router T :=
  let subs := (r.routes.get ssrc).getD []
  { r with routes := r.routes.set ssrc (subs ++ [⟨subId,subscriberTransport,RtpRewriter.new⟩]) }

def removeSubscription (r : Router T) (subId : String) : Router T :=
  { r with routes := r.routes.mapValues (fun subs => subs.filter (fun e => e.subId ≠ subId)) }

/-- The loop of `route`. `data` is the caller's buffer: the rewriter works on a copy. -/
def forward (data : List UInt8) : List (SubscriberEntry T) →
    List UInt8 × List (SubscriberEntry T) × List (Delivery T)
  | [] => (data,[],[])
  | sub :: subs =>
    let (rewriter,buf) := sub.rewriter.rewrite data
    let (data,subs,sent) := forward data subs
    (data,{ sub with rewriter := rewriter } :: subs,(sub.transport,buf) :: sent)

def route (r : Router T) (ssrc : UInt32) (data : List UInt8) :
    Router T × List UInt8 × List (Delivery T) :=
  match r.routes.get ssrc with
  | none => (r,data,[])
  | some subs =>
    let (data,subs,sent) := forward data subs
    ({ r with routes := r.routes.set ssrc subs },data,sent)

def step (r : Router T) : RouterOp T → Router T × List (Delivery T)
  | .addPublisher ssrc id => (r.addPublisher ssrc id,[])
  | .removePublisher ssrc => (r.removePublisher ssrc,[])
  | .addSubscription ssrc t id => (r.addSubscription ssrc t id,[])
  | .removeSubscription id => (r.removeSubscription id,[])
  | .route ssrc data => ((r.route ssrc data).1,(r.route ssrc data).2.2)

def run (r : Router T) (ops : List (RouterOp T)) : Router T :=
  ops.foldl (fun r op => (r.step op).1) r

def deliveries : Router T → List (RouterOp T) → List (Delivery T)
  | _, [] => []
  | r, op :: ops => (r.step op).2 ++ deliveries (r.step op).1 ops

@[simp] theorem run_nil (r : Router T) : r.run [] = r := rfl
@[simp] theorem run_cons (r : Router T) (op : RouterOp T) (ops : List (RouterOp T)) :
    r.run (op :: ops) = (r.step op).1.run ops := rfl

theorem deliveries_append (r : Router T) (ops ops' : List (RouterOp T)) :
    r.deliveries (ops ++ ops') = r.deliveries ops ++ (r.run ops).deliveries ops' := by
  induction ops generalizing r with
  | nil => rfl
  | cons op ops ih => simp [deliveries,ih]

def entries (r : Router T) (ssrc : UInt32) : List (SubscriberEntry T) :=
  (r.routes.get ssrc).getD []

end Router

def SubscriberEntry.pass {T : Type} (data : List UInt8) (e : SubscriberEntry T) :
    SubscriberEntry T := { e with rewriter := (e.rewriter.rewrite data).1 }

def SubscriberEntry.delivery {T : Type} (data : List UInt8) (e : SubscriberEntry T) :
    Delivery T := (e.transport,(e.rewriter.rewrite data).2)

namespace Router

variable {T : Type}

theorem forward_eq (data : List UInt8) (subs : List (SubscriberEntry T)) :
    forward data subs =
      (data,subs.map (SubscriberEntry.pass data),subs.map (SubscriberEntry.delivery data)) := by
  induction subs with
  | nil => rfl
  | cons e subs ih =>
    simp only [forward,ih]
    rfl

/-- A packet reaches every entry of its source once, and the caller's buffer is left alone. -/
theorem route_spec (r : Router T) (ssrc : UInt32) (data : List UInt8) :
    (r.route ssrc data).2.1 = data ∧
      (r.route ssrc data).2.2 = (r.entries ssrc).map (SubscriberEntry.delivery data) ∧
      ∀ s, (r.route ssrc data).1.entries s =
        if s = ssrc then (r.entries ssrc).map (SubscriberEntry.pass data) else r.entries s := by
  unfold route entries
  cases hr : r.routes.get ssrc with
  | none =>
    refine ⟨rfl,rfl,fun s => ?_⟩
    by_cases hs : s = ssrc <;> simp [hs,hr]
  | some subs =>
    simp only [forward_eq,Option.getD_some,true_and]
    intro s
    by_cases hs : s = ssrc <;> simp [OrderedMap.get_set,hs]

theorem entries_step (r : Router T) (op : RouterOp T) (s : UInt32) :
    (r.step op).1.entries s = match op with
      | .addPublisher _ _ => r.entries s
      | .removePublisher ssrc => if s = ssrc then [] else r.entries s
      | .addSubscription ssrc t id =>
        if s = ssrc then r.entries s ++ [⟨id,t,RtpRewriter.new⟩] else r.entries s
      | .removeSubscription id => (r.entries s).filter (fun e => e.subId ≠ id)
      | .route ssrc data =>
        if s = ssrc then (r.entries s).map (SubscriberEntry.pass data) else r.entries s := by
  cases op with
  | addPublisher => rfl
  | removePublisher ssrc =>
    simp only [step,removePublisher,entries,OrderedMap.get_delete]
    split <;> rfl
  | addSubscription ssrc t id =>
    by_cases hs : s = ssrc <;> simp [step,addSubscription,entries,OrderedMap.get_set,hs]
  | removeSubscription id =>
    simp only [step,removeSubscription,entries,OrderedMap.get_mapValues]
    cases r.routes.get s <;> rfl
  | route ssrc data =>
    have hroute := (r.route_spec ssrc data).2.2 s
    by_cases hs : s = ssrc
    · subst hs
      simpa [step] using hroute
    · simpa [step,hs] using hroute

theorem deliveries_step (r : Router T) (op : RouterOp T) :
    (r.step op).2 = match op with
      | .route ssrc data => (r.entries ssrc).map (SubscriberEntry.delivery data)
      | _ => [] := by
  cases op with
  | route ssrc data => exact (r.route_spec ssrc data).2.1
  | _ => rfl

def chosen (p : T → Bool) (r : Router T) (s : UInt32) : List (SubscriberEntry T) :=
  (r.entries s).filter (fun e => p e.transport)

def change (s : UInt32) (l : List (SubscriberEntry T)) : RouterOp T → List (SubscriberEntry T)
  | .removePublisher ssrc => if s = ssrc then [] else l
  | .removeSubscription id => l.filter (fun e => e.subId ≠ id)
  | .route ssrc data => if s = ssrc then l.map (SubscriberEntry.pass data) else l
  | _ => l

@[simp] theorem change_nil (s : UInt32) (op : RouterOp T) : change s [] op = [] := by
  cases op <;> simp [change]

theorem chosen_step (p : T → Bool) (r : Router T) (op : RouterOp T) (s : UInt32) :
    (r.step op).1.chosen p s = match op with
      | .addSubscription ssrc t id =>
        r.chosen p s ++ if s = ssrc ∧ p t then [⟨id,t,RtpRewriter.new⟩] else []
      | op => change s (r.chosen p s) op := by
  unfold chosen change
  rw [entries_step]
  cases op with
  | addPublisher => rfl
  | removePublisher ssrc => by_cases hs : s = ssrc <;> simp [hs]
  | addSubscription ssrc t id =>
    by_cases hs : s = ssrc <;> cases ht : p t <;> simp [hs,ht]
  | removeSubscription id =>
    simp only [List.filter_filter]
    apply List.filter_congr
    intro e _
    exact Bool.and_comm _ _
  | route ssrc data =>
    by_cases hs : s = ssrc
    · subst hs
      simp only [if_true,List.filter_map]
      rfl
    · simp [hs]

theorem chosen_deliveries (p : T → Bool) (r : Router T) (op : RouterOp T) :
    (r.step op).2.filter (fun d => p d.1) = match op with
      | .route ssrc data => (r.chosen p ssrc).map (SubscriberEntry.delivery data)
      | _ => [] := by
  rw [deliveries_step]
  cases op with
  | route ssrc data =>
    simp only [chosen,List.filter_map]
    rfl
  | _ => rfl

end Router

end MaiaMeet
