import MaiaMeet.Presence
set_option autoImplicit false

/-! Who offers to whom: the newcomer to everybody in its room.joined, once, and nobody else
to anybody. -/

namespace MaiaMeet

def Await.isOffer : Await → Bool
  | .createOffer | .setLocalOffer => true
  | _ => false

def offering (running : Option Await) : Nat := if running.any Await.isOffer then 1 else 0

def Queue.offers (q : Queue) : Nat := q.waiting.count .offer + offering q.running

def ClientMessage.isOfferTo (id : JsString) : ClientMessage → Bool
  | .signal targetId (.offer _) => targetId = id
  | _ => false

def offersTo (id : JsString) (l : List ClientMessage) : Nat := l.countP (·.isOfferTo id)

def Net.Offering (w : Net) : NetEvent → Prop
  | .session c (.reject id) => ∀ s ∈ (w.clients c).session, ∀ a ∈ (s.queue id).running,
      a.isOffer = false
  | _ => True

instance (w : Net) (e : NetEvent) : Decidable (w.Offering e) := by
  unfold Net.Offering
  split <;> infer_instance

def Manned (s : Session) : Prop := ∀ id, (s.queue id).running.isSome → s.peers.has id

structure Queue.Leading (q : Queue) : Prop where
  sorted : q.waiting.Pairwise (fun x y => y = .offer → x = .offer)
  first : ∀ a ∈ q.running, a.isOffer = false → .offer ∉ q.waiting

section
variable {s t : Session} {id : JsString}

theorem offers_enqueue (s : Session) (id j : JsString) (signal : Signal) :
    ((s.enqueue id (.handle signal)).queue j).offers = (s.queue j).offers := by
  rw [Session.queue_enqueue]
  split
  · rename_i hj
    subst hj
    simp [Queue.offers,List.count_append]
  · rfl

variable {peer : Peer} {stream : Stream}

theorem offering_assign (index : Nat) : offering (peer.assign stream index).awaits = 0 := by
  unfold Peer.assign
  split <;> rfl

theorem offering_flush (offer : Bool) (rest : List Candidate) :
    offering (peer.flush stream offer rest).awaits = 0 := by
  cases rest with
  | cons => rfl
  | nil =>
    cases offer with
    | true => exact offering_assign 0
    | false => rfl

theorem offering_perform (operation : Operation) :
    offering (peer.perform stream operation).awaits = [operation].count .offer := by
  cases operation with
  | offer => rfl
  | handle signal =>
    cases signal with
    | offer | answer => rfl
    | iceCandidate c => simp only [Peer.perform]; split <;> rfl

theorem offering_resume (id sdp : JsString) (kinds : List Kind) (await : Await) (j : JsString) :
    offersTo j ((peer.resume stream id sdp kinds await).out.flatMap Output.messages) =
        (if j = id ∧ await = .setLocalOffer then 1 else 0) ∧
      offering (peer.resume stream id sdp kinds await).awaits =
        if await = .createOffer then 1 else 0 := by
  rw [Peer.resume_out]
  cases await with
  | setRemoteDescription offer remote => exact ⟨by simp [offersTo],offering_flush offer _⟩
  | flush offer c rest => exact ⟨by simp [offersTo],offering_flush offer rest⟩
  | replaceTrack index => exact ⟨by simp [offersTo],offering_assign (index + 1)⟩
  | createOffer | addIceCandidate | createAnswer => exact ⟨by simp [offersTo],rfl⟩
  | setLocalOffer =>
    refine ⟨?_,rfl⟩
    by_cases hj : j = id
    · simp [offersTo,Output.messages,ClientMessage.isOfferTo,hj]
    · simp [offersTo,Output.messages,ClientMessage.isOfferTo,hj,Ne.symm hj]
  | setLocalAnswer =>
    refine ⟨?_,rfl⟩
    simp [offersTo,Output.messages,ClientMessage.isOfferTo]

theorem silent_answered (s : Session) (n : Nat) (id : JsString) (ok : Bool) :
    (s.answered n id ok).2.flatMap Output.messages = [] := by
  rw [List.flatMap_eq_nil_iff]
  intro o ho
  rw [Session.mem_answered ho]
  rfl

theorem offers_after (s : Session) (id j : JsString) (waiting : List Operation) (turn : Turn) :
    ((s.after id waiting turn).1.queue j).offers =
      if j = id then waiting.count .offer + offering turn.awaits else (s.queue j).offers := by
  rw [Session.queue_after]
  split <;> rfl

/-- By itself a session sends an offer exactly when one stops being pending; only a failed
call or a departure loses one. -/
theorem offers_step {e : SessionEvent} {out : List Output} (he : e.isInternal)
    (hstep : s.step e = some (t,out)) (j : JsString) :
    offersTo j (out.flatMap Output.messages) + (t.queue j).offers ≤ (s.queue j).offers ∧
      (s.accepts j → (e = .reject j → ∀ a ∈ (s.queue j).running, a.isOffer = false) →
        offersTo j (out.flatMap Output.messages) + (t.queue j).offers = (s.queue j).offers) := by
  have hall : ∀ {x y : Nat}, x = y → x ≤ y ∧ (s.accepts j → (e = .reject j →
      ∀ a ∈ (s.queue j).running, a.isOffer = false) → x = y) :=
    fun h => ⟨Nat.le_of_eq h,fun _ _ => h⟩
  cases session_effect hstep with
  | queued | unheard | removed | ended => cases he
  | begun id operation waiting peer hq ha hp =>
    refine hall ?_
    rw [offers_after,offering_perform,Peer.perform_out]
    split
    · rename_i hj
      subst hj
      simp [hq,Queue.offers,offersTo,List.count_cons,offering]
    · simp [offersTo]
  | skipped id operation waiting hq ha =>
    have hqueue := Session.queue_set j
      (rfl : ({ s with queues := s.queues.set id ⟨none,waiting⟩ } : Session).queues = _)
    rw [hqueue]
    by_cases hj : j = id
    · subst hj
      refine ⟨?_,fun ha' => absurd ha' (by simp [ha])⟩
      simp [hq,Queue.offers,offersTo,List.count_cons,offering]
    · refine hall ?_
      simp only [hj,if_false]
      simp [offersTo,Session.queue]
  | resumed id sdp kinds peer await hp hr hne =>
    refine hall ?_
    obtain ⟨hout,hawait⟩ : _ ∧ offering (peer.resume s.localStream id sdp kinds await).awaits = _ :=
      offering_resume id sdp kinds await j
    rw [offers_after,hout,hawait]
    by_cases hj : j = id
    · subst hj
      rw [Queue.offers,hr]
      cases await <;> simp [offering,Await.isOffer]
      omega
    · simp [hj]
  | rejected id peer await hp hr =>
    by_cases hj : j = id
    · subst hj
      have hqueue := Session.queue_failed s j j
      rw [if_pos rfl] at hqueue
      rw [hqueue]
      refine ⟨by simp [offersTo,Output.messages,Queue.offers,offering],fun _ hno => ?_⟩
      have hfalse := hno rfl await hr
      simp [offersTo,Output.messages,Queue.offers,offering,hr,hfalse]
    · refine hall ?_
      rw [Session.queue_failed,if_neg hj]
      simp [offersTo,Output.messages]
  | assigned id index peer u track calls hp hu hc hr =>
    refine hall ?_
    rw [offers_after,offering_assign,Peer.assign_out]
    split
    · rename_i hj
      subst hj
      simp [offersTo,Queue.offers,hr,offering,Await.isOffer]
    · simp [offersTo]
  | unassigned id index peer u track calls hp hu hc hr =>
    refine hall ?_
    rw [offers_after]
    split
    · rename_i hj
      subst hj
      simp [offersTo,Queue.offers,hr,offering,Await.isOffer,Output.messages]
    · simp [offersTo,Output.messages]
  | called id index ok peer u n track calls hp hu hc =>
    rw [Session.queue_answered,silent_answered]
    exact hall (by simp [offersTo]; rfl)
  | orphaned n id ok hp =>
    rw [Session.queue_answered,silent_answered]
    exact hall (by simp [offersTo])
  | gathered | disconnected =>
    exact hall (by simp [offersTo,Output.messages,ClientMessage.isOfferTo])
  | tracked id hp => exact hall (by simp [offersTo,Output.messages])
  | replacing oldTrack newTrack => exact hall (by simp [offersTo]; rfl)
  | published r hr hw => exact hall (by simp [offersTo,Output.messages]; rfl)

theorem step_departed {e : SessionEvent} {out : List Output} (he : e.isInternal)
    (hstep : s.step e = some (t,out)) : t.departed = s.departed ∧ t.closed = s.closed := by
  cases session_effect hstep with
  | queued | unheard | removed | ended => cases he
  | called id index ok peer u n track calls hp hu hc =>
    rw [Session.answered_departed,Session.answered_closed]
    exact ⟨rfl,rfl⟩
  | orphaned n id ok hp =>
    rw [Session.answered_departed,Session.answered_closed]
    exact ⟨rfl,rfl⟩
  | begun | skipped | resumed | rejected | assigned | unassigned | gathered | tracked
  | disconnected | replacing | published => exact ⟨rfl,rfl⟩

theorem Manned.after (h : Manned s) (id : JsString) (waiting : List Operation) (turn : Turn) :
    Manned (s.after id waiting turn).1 := by
  intro j hj
  rw [Session.queue_after] at hj
  rw [OrderedMap.has,Session.peers_after]
  split at hj
  · rename_i hji; simp [hji]
  · rename_i hji
    rw [if_neg hji]
    exact h j hj

theorem Manned.congr (h : Manned s) (hp : ∀ id, s.peers.has id → t.peers.has id)
    (hq : ∀ id, (t.queue id).running.isSome → (s.queue id).running.isSome) : Manned t :=
  fun id hid => hp id (h id (hq id hid))

theorem manned_step {e : SessionEvent} {out : List Output} (h : Manned s)
    (hstep : s.step e = some (t,out)) : Manned t := by
  cases session_effect hstep with
  | unheard | gathered | tracked | disconnected => exact h
  | queued id signal hc =>
    refine h.congr (fun _ hp => hp) (fun j hj => ?_)
    rw [Session.queue_enqueue] at hj
    split at hj
    · rename_i hji; exact hji ▸ hj
    · exact hj
  | begun | resumed | assigned | unassigned => exact h.after _ _ _
  | skipped id operation waiting hq ha =>
    refine h.congr (fun _ hp => hp) (fun j hj => ?_)
    rw [Session.queue_set j rfl] at hj
    split at hj
    · cases hj
    · exact hj
  | rejected id peer await hp hr =>
    refine h.congr (fun _ hp => hp) (fun j hj => ?_)
    rw [Session.queue_failed] at hj
    split at hj
    · cases hj
    · exact hj
  | called id index ok peer u n track calls hp hu hc =>
    refine h.congr (fun j hj => ?_) (fun j hj => ?_)
    · rw [Session.answered_peers,OrderedMap.has,OrderedMap.get_set]
      split
      · rfl
      · exact hj
    · rwa [Session.queue_answered] at hj
  | orphaned n id ok hp =>
    refine h.congr (fun j hj => ?_) (fun j hj => ?_)
    · rwa [Session.answered_peers]
    · rwa [Session.queue_answered] at hj
  | replacing oldTrack newTrack =>
    refine h.congr (fun j hj => ?_) (fun _ hj => hj)
    rw [OrderedMap.has,Session.peers_replaceTrack,Option.isSome_map]
    exact hj
  | published r hr hw => exact h.congr (fun _ hj => hj) (fun _ hj => hj)
  | removed id =>
    intro j hj
    rw [Session.queue_removePeer] at hj
    rw [OrderedMap.has,Session.peers_removePeer]
    split at hj
    · cases hj
    · rename_i hji
      rw [if_neg hji]
      exact h j hj
  | ended => exact fun j hj => by cases hj

theorem leading_pop {operation : Operation} {waiting : List Operation}
    (h : Queue.Leading ⟨none,operation :: waiting⟩) {running : Option Await}
    (hr : offering running = [operation].count .offer) : Queue.Leading ⟨running,waiting⟩ where
  sorted := (List.pairwise_cons.mp h.sorted).2
  first := by
    rintro a rfl ha hmem
    have hop := (List.pairwise_cons.mp h.sorted).1 _ hmem rfl
    rw [hop] at hr
    simp [offering,ha] at hr

theorem leading_idle {q : Queue} {waiting : List Operation} (h : q.Leading)
    (hw : waiting.Sublist q.waiting) : Queue.Leading ⟨none,waiting⟩ where
  sorted := h.sorted.sublist hw
  first := fun _ ha => by cases ha

theorem leading_run {q : Queue} (h : q.Leading) {await : Await} (hr : q.running = some await)
    (ha : await.isOffer = false) (running : Option Await) :
    Queue.Leading ⟨running,q.waiting⟩ where
  sorted := h.sorted
  first := fun _ _ _ => h.first await hr ha

theorem leading_step {e : SessionEvent} {out : List Output} (h : ∀ id, (s.queue id).Leading)
    (hstep : s.step e = some (t,out)) (j : JsString) : (t.queue j).Leading := by
  cases session_effect hstep with
  | unheard | gathered | tracked | disconnected | replacing | published => exact h j
  | queued id signal hc =>
    rw [Session.queue_enqueue]
    split
    · refine ⟨?_,fun a ha hf hmem => ?_⟩
      · refine List.pairwise_append.mpr ⟨(h id).sorted,List.pairwise_singleton _ _,?_⟩
        intro x _ y hy hoffer
        rw [List.mem_singleton.mp hy] at hoffer
        cases hoffer
      · rcases List.mem_append.mp hmem with hmem | hmem
        · exact (h id).first a ha hf hmem
        · cases List.mem_singleton.mp hmem
    · exact h j
  | begun id operation waiting peer hq ha hp =>
    rw [Session.queue_after]
    split
    · have hid := h id
      rw [hq] at hid
      exact leading_pop hid (offering_perform operation)
    · exact h j
  | skipped id operation waiting hq ha =>
    rw [Session.queue_set j rfl]
    split
    · have hid := h id
      rw [hq] at hid
      exact leading_idle hid (List.sublist_cons_self operation waiting)
    · exact h j
  | resumed id sdp kinds peer await hp hr hne =>
    rw [Session.queue_after]
    split
    · cases ha : await.isOffer with
      | false => exact leading_run (h id) hr ha _
      | true =>
        refine ⟨(h id).sorted,fun a hmem hf => ?_⟩
        cases await with
        | createOffer => cases hmem; cases hf
        | setLocalOffer => cases hmem
        | addIceCandidate | setRemoteDescription | flush | replaceTrack | createAnswer
        | setLocalAnswer => cases ha
    · exact h j
  | rejected id peer await hp hr =>
    rw [Session.queue_failed]
    split
    · exact leading_idle (h id) (List.Sublist.refl _)
    · exact h j
  | assigned id index peer u track calls hp hu hc hr =>
    rw [Session.queue_after]
    split
    · exact leading_run (h id) hr rfl _
    · exact h j
  | unassigned id index peer u track calls hp hu hc hr =>
    rw [Session.queue_after]
    split
    · exact leading_run (h id) hr rfl _
    · exact h j
  | called id index ok peer u n track calls hp hu hc =>
    rw [Session.queue_answered]
    exact h j
  | orphaned n id ok hp =>
    rw [Session.queue_answered]
    exact h j
  | removed id =>
    rw [Session.queue_removePeer]
    split
    · exact ⟨List.Pairwise.nil,fun _ _ _ => List.not_mem_nil⟩
    · exact h j
  | ended => exact ⟨List.Pairwise.nil,fun _ _ _ => List.not_mem_nil⟩

/-- A pending offer is never stuck: its queue starts it or waits for the browser. -/
theorem offers_progress (h : Manned s) (hl : (s.queue id).Leading)
    (hn : (s.queue id).offers ≠ 0) :
    (s.step (.next id)).isSome ∨ ∀ sdp kinds, (s.step (.settle id sdp kinds)).isSome := by
  cases hq : s.queue id with
  | mk running waiting =>
    rw [hq] at hl hn
    cases running with
    | none =>
      refine .inl ?_
      cases waiting with
      | nil => simp [Queue.offers,offering] at hn
      | cons operation waiting =>
        simp only [Session.step,hq]
        split <;> rfl
    | some await =>
      refine .inr (fun sdp kinds => ?_)
      obtain ⟨peer,hp⟩ := Option.isSome_iff_exists.mp (h id (by simp [hq]))
      have ha : await.isOffer = true := by
        by_contra hno
        have hfalse : await.isOffer = false := by simpa using hno
        have hcount := List.count_eq_zero.mpr (hl.first await rfl hfalse)
        exact hn (by simp [Queue.offers,offering,hfalse,hcount])
      simp only [Session.step,hp,hq]
      cases await with
      | createOffer | setLocalOffer => rfl
      | addIceCandidate | setRemoteDescription | flush | replaceTrack | createAnswer
      | setLocalAnswer => cases ha

end

theorem leading_start (stream : Stream) (participants : List JsString) (id : JsString) :
    ((Session.start stream participants).queue id).Leading := by
  rw [Session.queue_start]
  refine ⟨?_,fun _ ha => by cases ha⟩
  exact List.pairwise_iff_forall_sublist.mpr (fun hab _ =>
    (List.mem_replicate.mp (hab.subset List.mem_cons_self)).2)

/-- Whom the newcomer that hears this message offers to. -/
def Body.plan : Body → Option (List JsString)
  | .roomJoined own _ participants _ =>
    some ((participants.filter (fun p => p.id ≠ own)).map PublicParticipant.id)
  | _ => none

def plan (l : List Entry) : List JsString :=
  (l.findSome? (fun e => e.message.body.plan)).getD []

def Client.offers (c : Client) (id : JsString) : Nat :=
  c.session.elim 0 (fun s => (s.queue id).offers)

/-- What a client has offered and will offer is what its room.joined asks of it. -/
structure Planned (l : List Entry) (sent : List ClientMessage) (c : Client) : Prop where
  bound : ∀ id, offersTo id sent + c.offers id ≤ (plan l).count id
  exact : ∀ s, c.session = some s → s.closed = false ∧ Manned s ∧
    (∀ id, (s.queue id).Leading) ∧ ∀ id ∉ s.departed,
      offersTo id sent + (s.queue id).offers = (plan l).count id

theorem plan_of_view {b : Body} (h : b.view none = none) : b.plan = none := by
  cases b with
  | roomJoined => cases h
  | participantJoined | participantLeft | signal | error | pong | roomCreated | chatMessage =>
    rfl

theorem plan_append_of_view {l : List Entry} (e : Entry) (hv : view l = none) :
    plan l = [] ∧ plan (l ++ [e]) = e.message.body.plan.getD [] := by
  have hnone : l.findSome? (fun e => e.message.body.plan) = none := by
    induction l using List.reverseRecOn with
    | nil => rfl
    | append_singleton l e ih =>
      rw [view_append] at hv
      cases hl : view l with
      | some v => rw [hl] at hv; cases hv
      | none =>
        rw [hl] at hv
        have hplan := plan_of_view hv
        simp [List.findSome?_append,ih hl,hplan]
  refine ⟨by simp [plan,hnone],?_⟩
  rw [plan,List.findSome?_append,hnone]
  cases hb : e.message.body.plan <;> simp [hb]

theorem plan_append_of_plan {l : List Entry} {e : Entry} (h : e.message.body.plan = none) :
    plan (l ++ [e]) = plan l := by
  simp [plan,List.findSome?_append,h]

theorem Planned.silent {l m : List Entry} {sent : List ClientMessage} {c d : Client}
    (h : Planned l sent c) (hp : ∀ id, (plan l).count id ≤ (plan m).count id)
    (hd : d.session = none) : Planned m sent d where
  bound := by
    intro id
    have hb := h.bound id
    have hm := hp id
    rw [Client.offers,hd]
    simp only [Option.elim_none]
    omega
  exact := fun s hs => by rw [hd] at hs; cases hs

/-- What a session hears of its room bears on its offers only by departures. -/
theorem hear_offers (s : Session) (b : Body) (hclosed : s.closed = false) :
    (s.hear b).closed = false ∧ (Manned s → Manned (s.hear b)) ∧
      ((∀ id, (s.queue id).Leading) → ∀ id, ((s.hear b).queue id).Leading) ∧
      ∀ id, ((s.hear b).queue id).offers ≤ (s.queue id).offers ∧
        (id ∉ (s.hear b).departed →
          id ∉ s.departed ∧ ((s.hear b).queue id).offers = (s.queue id).offers) := by
  cases b with
  | participantLeft j =>
    have hstep : s.step (.removePeer j) = some (s.removePeer j,[]) := rfl
    refine ⟨hclosed,fun h => manned_step h hstep,fun h => leading_step h hstep,fun id => ?_⟩
    simp only [Session.hear]
    rw [Session.queue_removePeer]
    by_cases hj : id = j
    · rw [if_pos hj]
      refine ⟨Nat.zero_le _,fun hn => absurd ?_ hn⟩
      exact hj ▸ List.mem_cons_self
    · rw [if_neg hj]
      exact ⟨Nat.le_refl _,fun hn => ⟨fun hm => hn (List.mem_cons_of_mem j hm),rfl⟩⟩
  | signal signal j =>
    have hstep : s.step (.signal j signal) = some (s.enqueue j (.handle signal),[]) := by
      simp [Session.step,hclosed]
    simp only [Session.hear,hclosed,Bool.false_eq_true,if_false]
    refine ⟨hclosed,fun h => manned_step h hstep,fun h => leading_step h hstep,fun id => ?_⟩
    rw [offers_enqueue]
    exact ⟨Nat.le_refl _,fun hn => ⟨hn,rfl⟩⟩
  | participantJoined | roomJoined | error | pong | roomCreated | chatMessage =>
    exact ⟨hclosed,fun h => h,fun h => h,fun id => ⟨Nat.le_refl _,fun hn => ⟨hn,rfl⟩⟩⟩

theorem planned_emit {l m : List Entry} {sent : List ClientMessage} {c : Client}
    (h : Planned l sent c) (hp : plan m = plan l) (b : Body) : Planned m sent (c.emit b) := by
  cases hs : c.session with
  | none => exact h.silent (fun id => by rw [hp]) (by rw [emit_session,hs]; rfl)
  | some s =>
    have hemit : (c.emit b).session = some (s.hear b) := by rw [emit_session,hs]; rfl
    obtain ⟨hclosed,hmanned,hlead,hexact⟩ := h.exact s hs
    obtain ⟨hclosed',hmanned',hlead',hoffers⟩ := hear_offers s b hclosed
    refine ⟨fun id => ?_,fun t ht => ?_⟩
    · have hb := h.bound id
      have ho := (hoffers id).1
      rw [Client.offers,hs,Option.elim_some] at hb
      rw [Client.offers,hemit,hp,Option.elim_some]
      omega
    · rw [hemit,Option.some.injEq] at ht
      subst t
      refine ⟨hclosed',hmanned' hmanned,hlead' hlead,fun id hid => ?_⟩
      obtain ⟨hid',ho⟩ := (hoffers id).2 hid
      rw [ho,hp]
      exact hexact id hid'

theorem planned_handle {l : List Entry} {sent : List ClientMessage} {c : Client}
    (h : Planned l sent c) (hf : Follows (view l) c) (hl : c.listening = true) {e : Entry}
    (he : Hears (view l) e) (stream : Stream) :
    Planned (l ++ [e]) sent (c.handleMessage stream e.message) := by
  cases hv : view l with
  | some v =>
    obtain ⟨own,members⟩ := v
    rw [hv] at he
    have hnone : e.message.body.plan = none := by
      cases hb : e.message.body with
      | roomJoined => exact absurd hb (he.2.2.2.1 _ _ _ _)
      | participantJoined | participantLeft | signal | error | pong | roomCreated
      | chatMessage => rfl
    have hp := plan_append_of_plan (l := l) hnone
    unfold Client.handleMessage
    split
    · cases hb : e.message.body with
      | roomJoined => exact absurd hb (he.2.2.2.1 _ _ _ _)
      | participantJoined | participantLeft | signal | error | pong | roomCreated
      | chatMessage => exact h.silent (fun id => by rw [hp]) rfl
    · exact planned_emit h hp _
  | none =>
    obtain ⟨hsession,_,_⟩ := hf.outside hv hl
    obtain ⟨hnil,hp⟩ := plan_append_of_view e hv
    have hle : ∀ id, (plan l).count id ≤ (plan (l ++ [e])).count id := fun id => by simp [hnil]
    unfold Client.handleMessage
    split
    · cases hb : e.message.body with
      | roomJoined own roomId participants rtcConfig =>
        rw [hb] at hp
        have hsent : ∀ id, offersTo id sent = 0 := by
          intro id
          have hb := h.bound id
          rw [hnil] at hb
          simp only [List.count_nil] at hb
          omega
        have hqueue := fun id => congrArg Queue.offers (Session.queue_start stream
          ((participants.filter (fun p => p.id ≠ own)).map PublicParticipant.id) id)
        have hcount : ∀ id, ((Session.start stream ((participants.filter (fun p => p.id ≠ own)).map
            PublicParticipant.id)).queue id).offers = (plan (l ++ [e])).count id := by
          intro id
          rw [hqueue,hp]
          simp [Queue.offers,offering,Body.plan]
        obtain ⟨queues,hstart⟩ := Session.start_eq stream
          ((participants.filter (fun p => p.id ≠ own)).map PublicParticipant.id)
        refine ⟨fun id => ?_,fun s hs => ?_⟩
        · rw [Client.offers,hsent id]
          exact Nat.le_of_eq ((Nat.zero_add _).trans (hcount id))
        · cases hs
          refine ⟨by rw [hstart],fun id hid => ?_,leading_start _ _,fun id _ => ?_⟩
          · rw [Session.queue_start] at hid
            cases hid
          · rw [hsent id,Nat.zero_add]
            exact hcount id
      | participantJoined | participantLeft | signal | error | pong | roomCreated
      | chatMessage => exact h.silent hle rfl
    · exact h.silent hle (by rw [emit_session,hsession]; rfl)

theorem output_session (out : List Output) (c : Client) :
    (out.foldl Client.output c).session = c.session := by
  induction out generalizing c with
  | nil => rfl
  | cons o out ih =>
    have ho : (c.output o).session = c.session := by
      cases o with
      | remoteTrack id => simp only [Client.output,Client.onRemoteTrack]; split <;> rfl
      | send | error | replaced | replaceFailed => rfl
    rw [List.foldl_cons,ih,ho]

def Plans (w : Net) : Prop :=
  ∀ c, Planned ((w.log c).take (w.handled c)) (w.sent c) (w.clients c)

section
variable {cfg : Config} {w u : Net}

theorem plans_step (h : Plans w) (hw : Presence cfg w) {e : NetEvent} (ho : w.Offering e)
    (hstep : w.step cfg e = some u) : Plans u := by
  have hone : ∀ c d (client : Client) (messages : List ClientMessage),
      Planned ((w.log c).take (w.handled c)) (w.sent c ++ messages) client →
      Planned ((w.log d).take (w.handled d)) (((w.setClient c client).send c messages).sent d)
        (((w.setClient c client).send c messages).clients d) := by
    intro c d client messages hc
    by_cases hdc : d = c
    · subst hdc
      simpa [Net.send,Net.setClient] using hc
    · simpa [Net.send,Net.setClient,hdc] using h d
  cases net_effect hstep with
  | served e t out ht =>
    intro c
    simp only [Net.serve]
    rw [List.take_append_of_le_length (hw.within c)]
    exact h c
  | requested c roomId displayName requestId hl hp hs =>
    intro d
    refine hone c d _ _ ?_
    refine ⟨fun id => ?_,fun s hs' => by rw [hs] at hs'; cases hs'⟩
    have hb := (h c).bound id
    simpa [offersTo,ClientMessage.isOfferTo,Client.offers,hs] using hb
  | delivered c stream entry he hl =>
    intro d
    by_cases hdc : d = c
    · subst hdc
      simp only [Net.setClient,Function.update_self]
      have htake : (w.log d).take (w.handled d + 1) = (w.log d).take (w.handled d) ++ [entry] := by
        rw [List.take_add_one,he]; rfl
      rw [htake]
      exact planned_handle (h d) (hw.follows d) hl (hw.heard d _ entry he) stream
    · simp only [Net.setClient,Function.update_of_ne hdc]
      exact h d
  | acted c e s t out hs hi ht =>
    intro d
    refine hone c d _ _ ?_
    have hc := h c
    obtain ⟨hclosed,hmanned,hlead,hexact⟩ := hc.exact s hs
    obtain ⟨hdeparted,hclosed'⟩ := step_departed hi ht
    have hoff : ∀ j, e = .reject j → ∀ a ∈ (s.queue j).running, a.isOffer = false := by
      rintro j rfl
      exact ho s hs
    have hsum : ∀ id, offersTo id (w.sent c ++ out.flatMap Output.messages) =
        offersTo id (w.sent c) + offersTo id (out.flatMap Output.messages) :=
      fun id => List.countP_append
    refine ⟨fun id => ?_,fun t' ht' => ?_⟩
    · have hb := hc.bound id
      have hle := (offers_step hi ht id).1
      rw [Client.offers,hs,Option.elim_some] at hb
      rw [hsum,Client.offers,output_session,Option.elim_some]
      omega
    · rw [output_session,Option.some.injEq] at ht'
      subst t'
      refine ⟨hclosed'.trans hclosed,manned_step hmanned ht,leading_step hlead ht,fun id hid => ?_⟩
      rw [hdeparted] at hid
      have haccepts : s.accepts id := by simp [Session.accepts,hclosed,hid]
      have heq := (offers_step hi ht id).2 haccepts (hoff id)
      have hx := hexact id hid
      rw [hsum]
      omega
  | left c =>
    intro d
    have hleft := hone c d (w.clients c).leaveRoom []
      (by simpa using (h c).silent (fun _ => Nat.le_refl _) rfl)
    simpa [Net.send,Net.setClient] using hleft

end

end MaiaMeet
