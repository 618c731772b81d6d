import MaiaMeet.Router
set_option autoImplicit false

/-! The Router against the history of its calls. To follow one entry, each subscription of a
run gets a transport of its own, the given one with the number of the call. -/

namespace MaiaMeet

namespace RouterOp

variable {T U : Type}

def map (f : T → U) : RouterOp T → RouterOp U
  | .addPublisher ssrc id => .addPublisher ssrc id
  | .removePublisher ssrc => .removePublisher ssrc
  | .addSubscription ssrc t id => .addSubscription ssrc (f t) id
  | .removeSubscription id => .removeSubscription id
  | .route ssrc data => .route ssrc data

def ends (s : UInt32) (id : String) : RouterOp T → Bool
  | .removePublisher ssrc => ssrc = s
  | .removeSubscription subId => subId = id
  | _ => false

def routed (s : UInt32) : RouterOp T → Option (List UInt8)
  | .route ssrc data => if ssrc = s then some data else none
  | _ => none

@[simp] theorem ends_map (s : UInt32) (id : String) (f : T → U) (op : RouterOp T) :
    (op.map f).ends s id = op.ends s id := by cases op <;> rfl

@[simp] theorem routed_map (s : UInt32) (f : T → U) (op : RouterOp T) :
    (op.map f).routed s = op.routed s := by cases op <;> rfl

def number : RouterOp (T × Nat) → Option Nat
  | .addSubscription _ t _ => some t.2
  | _ => none

end RouterOp

variable {T U : Type}

def numbered : Nat → List (RouterOp T) → List (RouterOp (T × Nat))
  | _, [] => []
  | n, op :: ops => op.map (fun t => (t,n)) :: numbered (n+1) ops

/-- The packets a subscription to the source is due, of the calls after it. -/
def due (s : UInt32) (id : String) (ops : List (RouterOp T)) : List (List UInt8) :=
  (ops.takeWhile (fun op => !op.ends s id)).filterMap (RouterOp.routed s)

theorem due_cons {s : UInt32} {id : String} {op : RouterOp T} {ops : List (RouterOp T)}
    (h : op.ends s id = false) :
    due s id (op :: ops) = (op.routed s).toList ++ due s id ops := by
  cases hr : op.routed s <;> simp [due,h,hr]

theorem numbered_append (n : Nat) (ops ops' : List (RouterOp T)) :
    numbered n (ops ++ ops') = numbered n ops ++ numbered (n + ops.length) ops' := by
  induction ops generalizing n with
  | nil => rfl
  | cons op ops ih =>
    simp only [List.cons_append,numbered,ih,List.length_cons]
    rw [Nat.add_assoc,Nat.add_comm 1]

theorem due_numbered (s : UInt32) (id : String) (n : Nat) (ops : List (RouterOp T)) :
    due s id (numbered n ops) = due s id ops := by
  unfold due
  induction ops generalizing n with
  | nil => rfl
  | cons op ops ih =>
    simp only [numbered,List.takeWhile_cons,RouterOp.ends_map]
    cases op.ends s id
    · simpa [List.filterMap_cons] using by rw [ih (n+1)]
    · rfl

theorem number_mem {n k : Nat} {ops : List (RouterOp T)} {op : RouterOp (T × Nat)}
    (hop : op ∈ numbered n ops) (hk : op.number = some k) : n ≤ k ∧ k < n + ops.length := by
  induction ops generalizing n with
  | nil => cases hop
  | cons o ops ih =>
    rw [List.length_cons]
    rcases List.mem_cons.mp hop with rfl | hop
    · cases o <;> simp only [RouterOp.map,RouterOp.number,Option.some.injEq,reduceCtorEq] at hk
      omega
    · have := ih hop
      omega

namespace Router

def own (k : Nat) (r : Router (T × Nat)) : UInt32 → List (SubscriberEntry (T × Nat)) :=
  r.chosen (fun t => t.2 = k)

theorem own_step (k : Nat) (r : Router (T × Nat)) {op : RouterOp (T × Nat)}
    (hk : op.number ≠ some k) (s : UInt32) :
    (r.step op).1.own k s = change s (r.own k s) op := by
  unfold own
  rw [chosen_step]
  cases op with
  | addSubscription ssrc t id =>
    have ht : t.2 ≠ k := fun h => hk (by rw [← h]; rfl)
    simp [ht,change]
  | _ => rfl

theorem own_deliveries (k : Nat) (r : Router (T × Nat)) (op : RouterOp (T × Nat)) :
    (r.step op).2.filter (fun d => d.1.2 = k) = match op with
      | .route ssrc data => (r.own k ssrc).map (SubscriberEntry.delivery data)
      | _ => [] := by
  refine (chosen_deliveries (fun t => decide (t.2 = k)) r op).trans ?_
  cases op <;> rfl

theorem handed_ended {k : Nat} {r : Router (T × Nat)} {ops : List (RouterOp (T × Nat))}
    (hk : ∀ op ∈ ops, op.number ≠ some k) (hr : ∀ s, r.own k s = []) :
    (r.deliveries ops).filter (fun d => d.1.2 = k) = [] := by
  induction ops generalizing r with
  | nil => rfl
  | cons op ops ih =>
    obtain ⟨hop,hops⟩ := List.forall_mem_cons.mp hk
    rw [deliveries,List.filter_append,own_deliveries]
    have hnext : ∀ s, (r.step op).1.own k s = [] := by
      intro s
      rw [own_step k r hop s,hr,change_nil]
    rw [ih hops hnext,List.append_nil]
    cases op <;> simp [hr]

/-- A live entry is handed what is due to it, in a stream of its own. -/
theorem handed_live {k : Nat} {r : Router (T × Nat)} {ops : List (RouterOp (T × Nat))}
    {s : UInt32} {id : String} {t : T} {rewriter : RtpRewriter}
    (hk : ∀ op ∈ ops, op.number ≠ some k)
    (hr : ∀ s', r.own k s' = if s' = s then [⟨id,(t,k),rewriter⟩] else []) :
    (r.deliveries ops).filter (fun d => d.1.2 = k) =
      (rewriter.stream (due s id ops)).map (fun p => ((t,k),p)) := by
  induction ops generalizing r rewriter with
  | nil => rfl
  | cons op ops ih =>
    obtain ⟨hop,hops⟩ := List.forall_mem_cons.mp hk
    rw [deliveries,List.filter_append,own_deliveries]
    have hstep := own_step k r hop
    cases hends : op.ends s id with
    | true =>
      have hdue : due s id (op :: ops) = [] := by simp [due,hends]
      have hnext : ∀ s', (r.step op).1.own k s' = [] := by
        intro s'
        rw [hstep s',hr]
        cases op with
        | removePublisher ssrc =>
          have hs : ssrc = s := by simpa [RouterOp.ends] using hends
          by_cases hs' : s' = s <;> simp [change,hs,hs']
        | removeSubscription subId =>
          have hid : subId = id := by simpa [RouterOp.ends] using hends
          by_cases hs' : s' = s <;> simp [change,hid,hs']
        | _ => cases hends
      rw [hdue,handed_ended hops hnext,List.append_nil]
      cases op <;> first | rfl | cases hends
    | false =>
      -- the operation leaves the entry where it is, and may pass it a packet
      have hnext : ∀ s', (r.step op).1.own k s' = if s' = s then
          [⟨id,(t,k),(op.routed s).elim rewriter (fun data => (rewriter.rewrite data).1)⟩]
          else [] := by
        intro s'
        rw [hstep s',hr]
        cases op with
        | route ssrc data =>
          by_cases hs' : s' = s
          · by_cases hs : ssrc = s
            · simp [change,RouterOp.routed,hs,hs',SubscriberEntry.pass]
            · simp [change,RouterOp.routed,hs,hs',Ne.symm hs]
          · simp [change,hs']
        | removePublisher ssrc =>
          have hs : ssrc ≠ s := by simpa [RouterOp.ends] using hends
          by_cases hs' : s' = s
          · simp [change,RouterOp.routed,hs',Ne.symm hs]
          · simp [change,hs']
        | removeSubscription subId =>
          have hid : subId ≠ id := by simpa [RouterOp.ends] using hends
          by_cases hs' : s' = s
          · simp [change,RouterOp.routed,hs',Ne.symm hid]
          · simp [change,hs']
        | addPublisher | addSubscription => rfl
      rw [due_cons hends,ih hops hnext]
      cases op with
      | route ssrc data =>
        by_cases hs : ssrc = s
        · simp [hr,hs,RouterOp.routed,RtpRewriter.stream,SubscriberEntry.delivery]
        · simp [hr,hs,RouterOp.routed]
      | _ => rfl

theorem own_run {n k : Nat} (hk : n ≤ k) (ops : List (RouterOp (T × Nat)))
    (hops : ∀ op ∈ ops, ∀ i, op.number = some i → i < n) {r : Router (T × Nat)}
    (hr : ∀ s, r.own k s = []) : ∀ s, (r.run ops).own k s = [] := by
  induction ops generalizing r with
  | nil => exact hr
  | cons op ops ih =>
    obtain ⟨hop,hops⟩ := List.forall_mem_cons.mp hops
    refine ih hops (fun s => ?_)
    have hne : op.number ≠ some k := fun h => by
      have := hop k h
      omega
    rw [own_step k r hne s,hr,change_nil]

end Router

def Mirrors (f : T → U) (r : Router T) (q : Router U) : Prop :=
  ∀ s, q.entries s = (r.entries s).map (fun e => ⟨e.subId,f e.transport,e.rewriter⟩)

theorem mirrors_step {f : T → U} {r : Router T} {q : Router U} (h : Mirrors f r q)
    (op : RouterOp T) : Mirrors f (r.step op).1 (q.step (op.map f)).1 ∧
      (q.step (op.map f)).2 = (r.step op).2.map (fun d => (f d.1,d.2)) := by
  refine ⟨fun s => ?_,?_⟩
  · rw [Router.entries_step,Router.entries_step]
    cases op with
    | addPublisher => exact h s
    | removePublisher ssrc => by_cases hs : s = ssrc <;> simp [RouterOp.map,hs,h s]
    | addSubscription ssrc t id => by_cases hs : s = ssrc <;> simp [RouterOp.map,hs,h s,h ssrc]
    | removeSubscription id => simp [RouterOp.map,h s,List.filter_map,Function.comp_def]
    | route ssrc data =>
      by_cases hs : s = ssrc
      · simp [RouterOp.map,hs,h ssrc,SubscriberEntry.pass]
      · simp [RouterOp.map,hs,h s]
  · rw [Router.deliveries_step,Router.deliveries_step]
    cases op with
    | route ssrc data => simp [RouterOp.map,h ssrc,SubscriberEntry.delivery]
    | _ => rfl

theorem mirrors_deliveries {f : T → U} {r : Router T} {q : Router U} (h : Mirrors f r q)
    (ops : List (RouterOp T)) : q.deliveries (ops.map (RouterOp.map f)) =
      (r.deliveries ops).map (fun d => (f d.1,d.2)) := by
  induction ops generalizing r q with
  | nil => rfl
  | cons op ops ih =>
    obtain ⟨hnext,hsent⟩ := mirrors_step h op
    simp [Router.deliveries,hsent,ih hnext]

theorem map_numbered (n : Nat) (ops : List (RouterOp T)) :
    (numbered n ops).map (RouterOp.map Prod.fst) = ops := by
  induction ops generalizing n with
  | nil => rfl
  | cons op ops ih =>
    rw [numbered,List.map_cons,ih]
    cases op <;> rfl

def Sized (ops : List (RouterOp T)) : Prop :=
  ∀ ssrc data, RouterOp.route ssrc data ∈ ops → 12 ≤ data.length ∧ data.length ≤ 1400

/-- What a run hands to the entry of `addSubscription s t id`, called after `pre`. -/
def handed (s : UInt32) (t : T) (id : String) (pre post : List (RouterOp T)) :
    List (Delivery T) :=
  ((Router.new.deliveries (numbered 0 (pre ++ .addSubscription s t id :: post))).filter
    (fun d => d.1.2 = pre.length)).map (fun d => (d.1.1,d.2))

theorem due_sized (s : UInt32) (id : String) {ops : List (RouterOp T)} (h : Sized ops) :
    ∀ p ∈ due s id ops, 12 ≤ p.length := by
  intro p hp
  obtain ⟨op,hop,hrouted⟩ := List.mem_filterMap.mp hp
  have hmem := (List.takeWhile_prefix _).subset hop
  cases op with
  | route ssrc data =>
    simp only [RouterOp.routed,Option.ite_none_right_eq_some,Option.some.injEq] at hrouted
    rw [← hrouted.2]
    exact (h ssrc data hmem).1
  | _ => cases hrouted

theorem handed_eq (s : UInt32) (t : T) (id : String) (pre post : List (RouterOp T)) :
    handed s t id pre post =
      (RtpRewriter.new.stream (due s id post)).map (fun p => (t,p)) := by
  -- before the call no entry has its number, and after it only its own has
  have hpre : ∀ op ∈ numbered 0 pre, ∀ i, op.number = some i → i < pre.length := by
    intro op hop i hi
    have := number_mem hop hi
    omega
  have hpost : ∀ op ∈ numbered (pre.length+1) post, op.number ≠ some pre.length := by
    intro op hop hi
    have := number_mem hop hi
    omega
  have hempty : ∀ s', (Router.new : Router (T × Nat)).own pre.length s' = [] := fun _ => rfl
  have hbefore := Router.own_run (Nat.le_refl _) (numbered 0 pre) hpre hempty
  have hnone : (Router.new.deliveries (numbered 0 pre)).filter
      (fun d => d.1.2 = pre.length) = [] := by
    apply Router.handed_ended _ hempty
    intro op hop hi
    have := hpre op hop _ hi
    omega
  have hadded : ∀ s', ((Router.new.run (numbered 0 pre)).step
      (.addSubscription s (t,pre.length) id)).1.own pre.length s' =
        if s' = s then [⟨id,(t,pre.length),RtpRewriter.new⟩] else [] := by
    intro s'
    have hs' := hbefore s'
    unfold Router.own at hs' ⊢
    rw [Router.chosen_step,hs']
    by_cases hs : s' = s <;> simp [hs]
  have hlive := Router.handed_live hpost hadded
  rw [due_numbered] at hlive
  rw [handed,numbered_append,Router.deliveries_append,Nat.zero_add,numbered,
    Router.deliveries,List.filter_append,List.filter_append,hnone,List.nil_append]
  rw [show (RouterOp.addSubscription s t id).map (fun t => (t,pre.length)) =
    .addSubscription s (t,pre.length) id from rfl,hlive]
  simp [Router.deliveries_step,Function.comp_def]

def RouterOp.concerns (s : UInt32) (id : String) (op : RouterOp T) : Bool :=
  op.ends s id || (op.routed s).isSome

theorem due_concerns (s : UInt32) (id : String) (ops : List (RouterOp T)) :
    due s id (ops.filter (RouterOp.concerns s id)) = due s id ops := by
  induction ops with
  | nil => rfl
  | cons op ops ih =>
    cases hends : op.ends s id with
    | true => simp [due,RouterOp.concerns,hends]
    | false =>
      rw [due_cons hends,← ih]
      cases hr : op.routed s with
      | none => simp [RouterOp.concerns,hends,hr]
      | some p =>
        have hc : op.concerns s id = true := by simp [RouterOp.concerns,hr]
        rw [List.filter_cons_of_pos hc,due_cons hends,hr]

/-- Every entry gets what was routed to its source while it was there, in one stream that
starts at number 1 and time 90000, whatever else the router is asked to do. -/
theorem router_history (s : UInt32) (t : T) (id : String) (pre post : List (RouterOp T))
    (hsized : Sized (pre ++ post)) :
    (∃ out seqShift tsShift, handed s t id pre post = out.map (fun p => (t,p)) ∧
      List.Forall₂ (Shifted seqShift tsShift) (due s id post) out ∧
      ∀ p ∈ out.head?, RtpPacket.sequenceNumber p = 1 ∧ RtpPacket.timestamp p = 90000) ∧
    (∀ pre' post', post'.filter (RouterOp.concerns s id) =
      post.filter (RouterOp.concerns s id) →
        handed s t id pre' post' = handed s t id pre post) ∧
    (∀ ops : List (RouterOp T), (Router.new.deliveries (numbered 0 ops)).map
      (fun d => (d.1.1,d.2)) = Router.new.deliveries ops) ∧
    ∀ (r : Router T) (ssrc : UInt32) (data : List UInt8), (r.route ssrc data).2.1 = data := by
  refine ⟨?_,?_,?_,fun r ssrc data => (r.route_spec ssrc data).1⟩
  · have hlen := due_sized s id
      (fun ssrc data h => hsized ssrc data (List.mem_append_right pre h))
    refine ⟨RtpRewriter.new.stream (due s id post),?_⟩
    cases hdue : due s id post with
    | nil =>
      refine ⟨0,0,?_,.nil,?_⟩
      · rw [handed_eq,hdue]
      · intro p hp
        cases hp
    | cons p ps =>
      rw [hdue] at hlen
      have hstream := RtpRewriter.stream_new hlen
      refine ⟨_,_,by rw [handed_eq,hdue],hstream,?_⟩
      obtain ⟨hhead,-⟩ := List.forall₂_cons.mp hstream
      intro q hq
      cases hq
      constructor
      · rw [hhead.seq,UInt16.add_comm,UInt16.sub_add_cancel]
      · rw [hhead.ts,UInt32.add_comm,UInt32.sub_add_cancel]
  · intro pre' post' h
    rw [handed_eq,handed_eq,← due_concerns s id post',h,due_concerns]
  · intro ops
    have hmirror : Mirrors Prod.fst (Router.new : Router (T × Nat)) (Router.new : Router T) :=
      fun _ => rfl
    rw [← mirrors_deliveries hmirror,map_numbered]

/-- A subscription after another one, through a packet of a foreign source and the end of
the other. -/
theorem router_history_two :
    (∃ out seqShift tsShift,
      handed 7 () "b" [.addSubscription 7 () "a"] [.route 7 (List.replicate 12 128),
        .route 8 (List.replicate 12 129),.removeSubscription "a",.route 7 (List.replicate 13 130),
        .removeSubscription "b",.route 7 (List.replicate 12 131)] = out.map (fun p => ((),p)) ∧
      List.Forall₂ (Shifted seqShift tsShift)
        [List.replicate 12 128,List.replicate 13 130] out ∧
      ∀ p ∈ out.head?, RtpPacket.sequenceNumber p = 1 ∧ RtpPacket.timestamp p = 90000) := by
  refine (router_history 7 () "b" _ _ ?_).1
  intro ssrc data h
  simp only [List.cons_append,List.nil_append,List.mem_cons,reduceCtorEq,RouterOp.route.injEq,
    List.not_mem_nil,or_false,false_or] at h
  rcases h with ⟨-,rfl⟩ | ⟨-,rfl⟩ | ⟨-,rfl⟩ | ⟨-,rfl⟩ <;> simp

end MaiaMeet
