import MaiaMeet.Admission
set_option autoImplicit false

/-! The mesh: once nothing is in flight between two members, each is connected to the other. -/

namespace MaiaMeet

def Body.signalFrom (id : JsString) : Body → Option Signal
  | .signal sg participantId => if participantId = id then some sg else none
  | _ => none

def signalsFrom (id : JsString) (l : List Entry) : List Signal :=
  l.filterMap (fun e => e.message.body.signalFrom id)

theorem signalsFrom_append (id : JsString) (l m : List Entry) :
    signalsFrom id (l ++ m) = signalsFrom id l ++ signalsFrom id m := List.filterMap_append

theorem signalsTo_append (id : JsString) (l m : List ClientMessage) :
    signalsTo id (l ++ m) = signalsTo id l ++ signalsTo id m := List.filterMap_append

def Relaying (w : Net) : Prop := ∀ c d p q, w.server.participantOf c = some p →
  w.server.participantOf d = some q → p.roomId = q.roomId → c ≠ d →
    signalsFrom p.id (w.log d) = signalsTo q.id ((w.sent c).take (w.received c))

def Acquainted (w : Net) : Prop := ∀ c d p q, w.server.participantOf c = some p →
  w.server.participantOf d = some q → p.roomId = q.roomId → c ≠ d →
    q.id ∈ plan (w.log c) ∨ p.id ∈ plan (w.log d)

def Exchanging (w : Net) : Prop := ∀ c s, (w.clients c).session = some s →
  s.closed = false ∧ s.departed = [] ∧ ∀ id, Exchange (s.peer id) (s.queue id)
    (signalsFrom id ((w.log c).take (w.handled c))) (signalsTo id (w.sent c))

section
variable {cfg : Config} {w u : Net}

theorem Building.within (h : Building cfg w) (c : ConnId) :
    w.received c ≤ (w.sent c).length := by
  cases h.stage c with
  | outside _ hr => exact Nat.le_of_eq hr
  | asked _ _ _ _ _ hr => rw [hr]; exact Nat.zero_le _
  | joined _ _ _ _ _ _ hsent hr => rw [hsent,hr]; exact Nat.le_refl _
  | inside _ _ _ _ _ _ hle => exact hle

theorem Building.ids_ne (h : Building cfg w) {c d : ConnId} {p q : Participant}
    (hp : w.server.participantOf c = some p) (hq : w.server.participantOf d = some q)
    (hr : p.roomId = q.roomId) (hne : c ≠ d) : p.id ≠ q.id := by
  intro hid
  obtain ⟨_,room,_,_,_,hpw,hroom,hi⟩ := h.member hp
  obtain ⟨_,room',_,_,_,hqw,hroom',hi'⟩ := h.member hq
  rw [← hr,hroom,Option.some.injEq] at hroom'
  subst room'
  rw [← hid,hi,Option.some.injEq] at hi'
  exact hne (by rw [← hpw,← hqw,hi'])

theorem Building.issued (h : Building cfg w) {c : ConnId} {p : Participant}
    (hp : w.server.participantOf c = some p) : p.id ∈ w.server.uuids := by
  obtain ⟨conn,hc,hpc⟩ := Option.bind_eq_some_iff.mp hp
  exact h.presence.store.issued c conn p hc hpc

theorem Building.unissued (h : Building cfg w) {id : JsString} (hid : id ∉ w.server.uuids)
    (c : ConnId) : signalsFrom id (w.log c) = [] ∧ signalsTo id (w.sent c) = [] := by
  constructor
  · refine List.filterMap_eq_nil_iff.mpr (fun e he => ?_)
    obtain ⟨k,hk⟩ := List.mem_iff_getElem?.mp he
    have hears := h.presence.heard c k e hk
    cases hb : e.message.body with
    | signal sg i =>
      have hne : i ≠ id := by
        rintro rfl
        cases hv : view ((w.log c).take k) with
        | none =>
          rw [hv] at hears
          obtain hreply | ⟨_,_,_,hb',_⟩ := hears
          · rw [hb] at hreply; cases hreply
          · rw [hb] at hb'; cases hb'
        | some v =>
          rw [hv] at hears
          obtain ⟨_,d,q,_,hq,rfl,_⟩ := h.listed c e he i (hears.2.2.2.2 sg i hb).1
          exact hid (h.issued hq)
      simp [Body.signalFrom,hne]
    | participantJoined | participantLeft | roomJoined | error | pong | roomCreated
    | chatMessage => rfl
  · refine List.filterMap_eq_nil_iff.mpr (fun m hm => ?_)
    cases m with
    | join => rfl
    | signal i sg =>
      have hne : i ≠ id := by
        rintro rfl
        obtain ⟨_,_,d,q,_,hq,rfl,_⟩ := h.addressed c i sg hm
        exact hid (h.issued hq)
      simp [ClientMessage.signalTo,hne]

theorem signalsTo_take_nil {id : JsString} {l : List ClientMessage} {n : Nat}
    (h : signalsTo id l = []) : signalsTo id (l.take n) = [] :=
  List.filterMap_eq_nil_iff.mpr (fun m hm =>
    List.filterMap_eq_nil_iff.mp h m (List.mem_of_mem_take hm))

theorem Building.asked_log (h : Building cfg w) {c : ConnId} {roomId displayName i : JsString}
    (hm : w.server.participantOf c = none) (hsent : w.sent c = [.join roomId displayName i])
    (hr : w.received c = 0) : w.log c = [] := by
  cases h.stage c with
  | outside _ hr' => rw [hr,hsent] at hr'; cases hr'
  | asked _ _ _ _ _ _ hlog => exact hlog
  | joined _ _ _ _ _ hsome => rw [hm] at hsome; cases hsome
  | inside _ _ hsome => rw [hm] at hsome; cases hsome

theorem signalsFrom_serve (w : Net) (e : ServerEvent) (t : Server) (out : List Sent)
    (id : JsString) (c : ConnId) : signalsFrom id ((w.serve e t out).log c) =
      signalsFrom id (w.log c) ++
        (out.filter (fun m => m.ws = c)).filterMap (fun m => m.body.signalFrom id) := by
  rw [serve_log,signalsFrom_append]
  simp [signalsFrom,List.filterMap_map]

theorem relaying_served (h : Relaying w) (hw : Building cfg w) {e : ServerEvent} {t : Server}
    {out : List Sent} (hs : Served cfg w e t out) : Relaying (w.serve e t out) := by
  intro c d p q hc hd hr hne
  replace hc : t.participantOf c = some p := hc
  replace hd : t.participantOf d = some q := hd
  rw [signalsFrom_serve,show (w.serve e t out).sent c = w.sent c from rfl]
  cases hs with
  | quiet _ _ hp hmsg =>
    rw [hp] at hc hd
    rw [serve_received_quiet w t [] hmsg,← h c d p q hc hd hr hne]
    simp
  | refused c₀ now uuid data _ _ _ _ body requestId hm _ _ hp =>
    rw [hp] at hc hd
    have hc₀ : c ≠ c₀ := by rintro rfl; rw [hm] at hc; cases hc
    have hd₀ : d ≠ c₀ := by rintro rfl; rw [hm] at hd; cases hd
    rw [serve_received_message,if_neg hc₀,filter_send,if_neg (Ne.symm hd₀),
      ← h c d p q hc hd hr hne]
    simp
  | joined c₀ now uuid data _ _ _ _ _ p₀ hm hsent hrec hp₀ hp hu hown hout =>
    have hsilent : d ≠ c₀ →
        (out.filter (fun m => m.ws = d)).filterMap (fun m => m.body.signalFrom p.id) = [] := by
      intro hd₀
      refine List.filterMap_eq_nil_iff.mpr (fun m hm => ?_)
      obtain ⟨hm,hmd⟩ := List.mem_filter.mp hm
      obtain ⟨⟨q',hb⟩,_⟩ := hout m hm (by simpa using (of_decide_eq_true hmd).trans_ne hd₀)
      rw [hb]
      rfl
    rw [serve_received_message]
    by_cases hc₀ : c = c₀
    · subst hc₀
      rw [hp₀,Option.some.injEq] at hc
      subst hc
      rw [if_pos rfl,hrec,hsent,(hw.unissued hu d).1,hsilent (Ne.symm hne)]
      rfl
    · rw [hp c hc₀] at hc
      rw [if_neg hc₀]
      by_cases hd₀ : d = c₀
      · subst hd₀
        rw [hp₀,Option.some.injEq] at hd
        subst hd
        rw [hw.asked_log hm hsent hrec,hown,signalsTo_take_nil (hw.unissued hu c).2]
        rfl
      · rw [hp d hd₀] at hd
        rw [hsilent hd₀,List.append_nil]
        exact h c d p q hc hd hr hne
  | relayed c₀ now uuid data _ sg p₀ q₀ d₀ hp hsent hc₀ hd₀ hroom hne₀ =>
    rw [hp] at hc hd
    rw [serve_received_message]
    by_cases hcc : c = c₀
    · subst hcc
      rw [hc₀,Option.some.injEq] at hc
      subst hc
      rw [if_pos rfl,List.take_add_one,hsent,signalsTo_append,h c d p₀ q hc₀ hd hr hne]
      refine congrArg _ ?_
      by_cases hdd : d = d₀
      · subst hdd
        rw [hd₀,Option.some.injEq] at hd
        subst hd
        simp [Body.signalFrom,signalsTo,ClientMessage.signalTo]
      · have hq := hw.ids_ne hd₀ hd (hroom.trans hr) (Ne.symm hdd)
        simp [signalsTo,ClientMessage.signalTo,hq,Ne.symm hdd]
    · rw [if_neg hcc,h c d p q hc hd hr hne]
      by_cases hdd : d = d₀
      · subst hdd
        rw [hd₀,Option.some.injEq] at hd
        subst hd
        have hp' := hw.ids_ne hc₀ hc (hroom.symm.trans hr.symm) (Ne.symm hcc)
        simp [Body.signalFrom,hp']
      · simp [Ne.symm hdd]

theorem relaying_step (h : Relaying w) (hw : Building cfg w) {e : NetEvent}
    (hconf : w.Conforming e) (hadmitted : w.Admitted cfg e) (hstep : w.step cfg e = some u) :
    Relaying u := by
  have hsaid : ∀ c' (client : Client) messages,
      Relaying ((w.setClient c' client).send c' messages) := by
    intro c' client messages c d p q hc hd hr hne
    by_cases hcc : c = c'
    · subst hcc
      simp only [Net.send,Net.setClient,Function.update_self]
      rw [List.take_append_of_le_length (hw.within c)]
      exact h c d p q hc hd hr hne
    · simp only [Net.send,Net.setClient,Function.update_of_ne hcc]
      exact h c d p q hc hd hr hne
  cases net_effect hstep with
  | served e t out ht => exact relaying_served h hw (served_step hw hconf hadmitted ht)
  | requested => exact hsaid _ _ _
  | acted => exact hsaid _ _ _
  | delivered | left => exact h

theorem plan_append_silent {l more : List Entry}
    (h : ∀ e ∈ more, e.message.body.plan = none) : plan (l ++ more) = plan l := by
  induction more generalizing l with
  | nil => rw [List.append_nil]
  | cons e more ih =>
    rw [List.append_cons,ih (fun e' he => h e' (List.mem_cons_of_mem e he)),
      plan_append_of_plan (h e List.mem_cons_self)]

theorem plan_serve (hw : Building cfg w) {e : ServerEvent} {t : Server} {out : List Sent}
    (ht : w.server.step cfg e = some (t,out)) {c : ConnId} {p : Participant}
    (hc : w.server.participantOf c = some p) : plan ((w.serve e t out).log c) = plan (w.log c) := by
  rw [serve_log]
  refine plan_append_silent (fun entry hentry => ?_)
  obtain ⟨m,hm,rfl⟩ := List.mem_map.mp hentry
  obtain ⟨hm,hmc⟩ := List.mem_filter.mp hm
  cases hb : m.body.plan with
  | none => rfl
  | some l =>
    have hnone := (plan_step hw.presence.store ht hm hb).1
    rw [of_decide_eq_true hmc,hc] at hnone
    cases hnone

theorem plan_joined (hw : Building cfg w) (hu : Building cfg u) {e : ServerEvent} {t : Server}
    {out : List Sent} (hs : Served cfg w e t out) (he : u = w.serve e t out) {c d : ConnId}
    {p q : Participant} (hnone : w.server.participantOf c = none)
    (hc : t.participantOf c = some p) (hd : t.participantOf d = some q)
    (hr : p.roomId = q.roomId) (hne : c ≠ d) : q.id ∈ plan (u.log c) := by
  subst he
  cases hs with
  | quiet _ _ hp => rw [hp,hnone] at hc; cases hc
  | refused _ _ _ _ _ _ _ _ _ _ _ _ _ hp => rw [hp,hnone] at hc; cases hc
  | relayed _ _ _ _ _ _ _ _ _ hp => rw [hp,hnone] at hc; cases hc
  | joined c₀ now uuid data _ _ _ _ i p₀ hm hsent hrec hp₀ hp _ hown _ =>
    by_cases hc₀ : c = c₀
    · subst hc₀
      rw [hp₀,Option.some.injEq] at hc
      subst hc
      obtain ⟨_,room,_,_,_,_,hroom,hi⟩ := hu.member (c := d) (p := q) hd
      have hroom : t.rooms.get p₀.roomId = some room := hr ▸ hroom
      have hid := hu.ids_ne (c := c) (d := d) (p := p₀) (q := q) hp₀ hd hr hne
      have hmem : q.id ∈ (ids (t.membersOf c)).filter (· ≠ p₀.id) := by
        rw [membersOf_eq hp₀ hroom,ids_public]
        refine List.mem_filter.mpr ⟨List.mem_map_of_mem
          ((room.mem_values_iff q).mpr ⟨q.id,hi⟩),by simpa using Ne.symm hid⟩
      rw [serve_log,hw.asked_log hm hsent hrec,hown]
      simpa [plan,Body.plan,ids,List.filter_map,Function.comp_def] using hmem
    · rw [hp c hc₀,hnone] at hc
      cases hc

theorem acquainted_step (h : Acquainted w) (hw : Building cfg w) {e : NetEvent}
    (hconf : w.Conforming e) (hadmitted : w.Admitted cfg e) (hstep : w.step cfg e = some u) :
    Acquainted u := by
  have hu := building_step hw hconf hadmitted hstep
  cases net_effect hstep with
  | requested | delivered | acted | left => exact h
  | served e t out ht =>
    intro c d p q hc hd hr hne
    have hs := served_step hw hconf hadmitted ht
    cases hcw : w.server.participantOf c with
    | none => exact .inl (plan_joined hw hu hs rfl hcw hc hd hr hne)
    | some p' =>
      cases hdw : w.server.participantOf d with
      | none => exact .inr (plan_joined hw hu hs rfl hdw hd hc hr.symm (Ne.symm hne))
      | some q' =>
        have hc' := participantOf_step ht hcw
        have hd' := participantOf_step ht hdw
        rw [show t.participantOf c = some p from hc,Option.some.injEq] at hc'
        rw [show t.participantOf d = some q from hd,Option.some.injEq] at hd'
        subst hc' hd'
        rw [plan_serve hw ht hcw,plan_serve hw ht hdw]
        exact h c d p q hcw hdw hr hne

theorem exchange_hear {s : Session} {heard said : JsString → List Signal} (hc : s.closed = false)
    (hd : s.departed = [])
    (h : ∀ id, Exchange (s.peer id) (s.queue id) (heard id) (said id)) {b : Body}
    (hb : ∀ id, b ≠ .participantLeft id) :
    (s.hear b).closed = false ∧ (s.hear b).departed = [] ∧ ∀ id, Exchange ((s.hear b).peer id)
      ((s.hear b).queue id) (heard id ++ (b.signalFrom id).toList) (said id) := by
  cases b with
  | participantLeft id => exact absurd rfl (hb id)
  | signal sg j =>
    simp only [Session.hear,hc,Bool.false_eq_true,if_false]
    refine ⟨hc,hd,fun id => ?_⟩
    rw [Session.queue_enqueue,show (s.enqueue j (.handle sg)).peer id = s.peer id from rfl]
    by_cases hid : id = j
    · subst hid
      simpa [Body.signalFrom] using (h id).hear sg
    · simpa [Body.signalFrom,hid,Ne.symm hid] using h id
  | participantJoined | roomJoined | error | pong | roomCreated | chatMessage =>
    exact ⟨hc,hd,fun id => (List.append_nil (heard id)).symm ▸ h id⟩

theorem exchanging_handled (h : Exchanging w) (hw : Building cfg w) {c : ConnId}
    (stream : Stream) {entry : Entry} (he : (w.log c)[w.handled c]? = some entry) {t : Session}
    (ht : ((w.clients c).handleMessage stream entry.message).session = some t) :
    t.closed = false ∧ t.departed = [] ∧ ∀ id, Exchange (t.peer id) (t.queue id)
      (signalsFrom id ((w.log c).take (w.handled c + 1))) (signalsTo id (w.sent c)) := by
  have htake : ∀ id, signalsFrom id ((w.log c).take (w.handled c + 1)) =
      signalsFrom id ((w.log c).take (w.handled c)) ++ (entry.message.body.signalFrom id).toList := by
    intro id
    rw [List.take_add_one,he,signalsFrom_append]
    cases hb : entry.message.body.signalFrom id <;> simp [signalsFrom,hb]
  cases hw.stage c with
  | asked _ _ _ _ _ _ hlog => rw [hlog] at he; cases he
  | outside _ _ hs hl =>
    rcases reply_handled stream (hl entry (List.mem_of_getElem? he)) with hc | hc
    · rw [hc,hs] at ht; cases ht
    · rw [hc.2] at ht; cases ht
  | joined roomId displayName i e rest _ hsent _ hlog hreq hb hh hp =>
    obtain rfl : e = entry := by
      rw [hlog,hh] at he
      simpa using he
    have hpending : (w.clients c).pending.isSome ∧
        e.message.requestId = (w.clients c).pending := by
      rw [hp,hreq]
      exact ⟨rfl,rfl⟩
    unfold Client.handleMessage at ht
    rw [if_pos hpending] at ht
    cases hbody : e.message.body with
    | roomJoined own r participants rtcConfig =>
      rw [hbody] at ht
      cases ht
      obtain ⟨queues,hstart⟩ := Session.start_eq stream
        ((participants.filter (fun p => p.id ≠ own)).map PublicParticipant.id)
      refine ⟨by rw [hstart],by rw [hstart],fun id => ?_⟩
      have hpeer : (Session.start stream ((participants.filter (fun p => p.id ≠ own)).map
          PublicParticipant.id)).peer id = Peer.new := by rw [hstart]; rfl
      rw [hpeer,Session.queue_start,htake,hbody,hh,hsent]
      exact exchange_new _
    | participantJoined | participantLeft | signal | error | pong | roomCreated
    | chatMessage => rw [hbody] at hb; cases hb
  | inside _ _ _ _ _ _ _ hp hs =>
    have hemit : (w.clients c).handleMessage stream entry.message =
        (w.clients c).emit entry.message.body := by
      unfold Client.handleMessage
      rw [if_neg (by simp [hp])]
    rw [hemit,emit_session] at ht
    obtain ⟨s,hs,rfl⟩ := Option.map_eq_some_iff.mp ht
    obtain ⟨hclosed,hdeparted,hex⟩ := h c s hs
    obtain ⟨hclosed',hdeparted',hex'⟩ := exchange_hear hclosed hdeparted hex
      (hw.lasting c entry (List.mem_of_getElem? he))
    exact ⟨hclosed',hdeparted',fun id => htake id ▸ hex' id⟩

theorem exchanging_step (h : Exchanging w) (hw : Building cfg w) {e : NetEvent}
    (hconf : w.Conforming e) (hstep : w.step cfg e = some u) : Exchanging u := by
  intro d s' hs'
  cases net_effect hstep with
  | served e t out ht =>
    simp only [Net.serve]
    rw [List.take_append_of_le_length (hw.presence.within d)]
    exact h d s' hs'
  | requested c roomId displayName i hl hp hs =>
    by_cases hdc : d = c
    · subst hdc
      simp only [Net.send,Net.setClient,Function.update_self,hs] at hs'
      cases hs'
    · simp only [Net.send,Net.setClient,Function.update_of_ne hdc] at hs' ⊢
      exact h d s' hs'
  | delivered c stream entry he hl =>
    by_cases hdc : d = c
    · subst hdc
      simp only [Net.setClient,Function.update_self] at hs' ⊢
      exact exchanging_handled h hw stream he hs'
    · simp only [Net.setClient,Function.update_of_ne hdc] at hs' ⊢
      exact h d s' hs'
  | acted c e s t out hs hi ht =>
    by_cases hdc : d = c
    · subst hdc
      simp only [Net.output,Net.send,Net.setClient,Function.update_self] at hs' ⊢
      rw [output_session,Option.some.injEq] at hs'
      subst hs'
      obtain ⟨hclosed,hdeparted,hex⟩ := h d s hs
      obtain ⟨hdeparted',hclosed'⟩ := step_departed hi ht
      refine ⟨hclosed'.trans hclosed,hdeparted'.trans hdeparted,fun id => ?_⟩
      rw [signalsTo_append]
      exact exchange_step hex hi hconf.1
        (fun j => by simp [Session.accepts,hclosed,hdeparted]) ht id
    · simp only [Net.output,Net.send,Net.setClient,Function.update_of_ne hdc] at hs' ⊢
      exact h d s' hs'
  | left c =>
    by_cases hdc : d = c
    · subst hdc
      simp only [Net.setClient,Function.update_self] at hs'
      cases hs'
    · simp only [Net.setClient,Function.update_of_ne hdc] at hs' ⊢
      exact h d s' hs'

end

def SessionEvent.gathers (id : JsString) : SessionEvent → Option Candidate
  | .candidate j c => if j = id then some c else none
  | _ => none

def NetEvent.gathers (c : ConnId) (id : JsString) : NetEvent → Option Candidate
  | .session d e => if d = c then e.gathers id else none
  | _ => none

def gathered (c : ConnId) (id : JsString) (es : List NetEvent) : List Candidate :=
  es.filterMap (NetEvent.gathers c id)

/-- Nothing is in flight to or from a client, and its session has nothing to do. -/
def Net.Settled (w : Net) (c : ConnId) : Prop :=
  w.received c = (w.sent c).length ∧ w.handled c = (w.log c).length ∧
    ∀ s ∈ (w.clients c).session, ∀ q ∈ s.queues.values, q = ⟨none,[]⟩

/-- A client's peer for a participant has both descriptions, and exactly these candidates. -/
def Net.Connected (w : Net) (c : ConnId) (id : JsString) (candidates : List Candidate) : Prop :=
  ∃ s ∈ (w.clients c).session, ∃ peer ∈ s.peers.get id,
    peer.localDescription.isSome ∧ peer.remoteDescription.isSome ∧ peer.ice = candidates

instance (w : Net) (c : ConnId) : Decidable (w.Settled c) := by
  unfold Net.Settled; infer_instance

section
variable {cfg : Config} {w u : Net}

theorem candidates_step {s t : Session} {e : SessionEvent} {out : List Output}
    (h : s.step e = some (t,out)) (id : JsString) :
    (signalsTo id (out.flatMap Output.messages)).flatMap Signal.candidates =
      (e.gathers id).toList := by
  cases session_effect h with
  | queued | unheard | skipped | replacing | removed | ended => rfl
  | rejected | unassigned | tracked | disconnected | published => rfl
  | begun => rw [Peer.perform_out]; rfl
  | assigned => rw [Peer.assign_out]; rfl
  | called | orphaned => rw [silent_answered]; rfl
  | resumed j sdp kinds peer await =>
    rw [Peer.resume_out]
    by_cases hj : j = id
    · cases await <;>
        simp [signalsTo,Output.messages,ClientMessage.signalTo,hj,Signal.candidates,
          SessionEvent.gathers]
    · cases await <;>
        simp [signalsTo,Output.messages,ClientMessage.signalTo,hj,SessionEvent.gathers]
  | gathered j candidate =>
    by_cases hj : j = id
    · simp [signalsTo,Output.messages,ClientMessage.signalTo,hj,Signal.candidates,
        SessionEvent.gathers]
    · simp [signalsTo,Output.messages,ClientMessage.signalTo,hj,SessionEvent.gathers]

theorem sent_gathered {es : List NetEvent} (h : Runs.exec (Net.step cfg) w es = some u)
    (c : ConnId) (id : JsString) : (signalsTo id (u.sent c)).flatMap Signal.candidates =
      (signalsTo id (w.sent c)).flatMap Signal.candidates ++ gathered c id es := by
  induction es generalizing w with
  | nil => cases h; simp [gathered]
  | cons e es ih =>
    obtain ⟨v,hv,hu⟩ := Runs.exec_cons_some.mp h
    have hstep : (signalsTo id (v.sent c)).flatMap Signal.candidates =
        (signalsTo id (w.sent c)).flatMap Signal.candidates ++ (e.gathers c id).toList := by
      cases net_effect hv with
      | served | delivered | left => simp [NetEvent.gathers,Net.serve,Net.setClient]
      | requested d roomId displayName i =>
        by_cases hcd : c = d
        · subst hcd
          simp [Net.send,Net.setClient,signalsTo,ClientMessage.signalTo,NetEvent.gathers]
        · simp [Net.send,Net.setClient,hcd,NetEvent.gathers]
      | acted d e s t out hs hi ht =>
        by_cases hcd : c = d
        · subst hcd
          simp only [Net.output,Net.send,Net.setClient,Function.update_self]
          rw [signalsTo_append,List.flatMap_append,candidates_step ht id]
          simp [NetEvent.gathers]
        · simp [Net.output,Net.send,Net.setClient,hcd,NetEvent.gathers,Ne.symm hcd]
    rw [ih hu,hstep,List.append_assoc]
    refine congrArg _ ?_
    cases hg : e.gathers c id <;> simp [gathered,hg]

theorem offer_of_offersTo {id : JsString} {l : List ClientMessage} (h : offersTo id l ≠ 0) :
    (signalsTo id l).any Signal.isOffer := by
  obtain ⟨m,hm,ho⟩ := List.countP_pos_iff.mp (Nat.pos_of_ne_zero h)
  cases m with
  | join => cases ho
  | signal j sg =>
    cases sg with
    | answer | iceCandidate => cases ho
    | offer sdp =>
      have hj : j = id := by simpa [ClientMessage.isOfferTo] using ho
      refine List.any_eq_true.mpr ⟨.offer sdp,List.mem_filterMap.mpr ⟨_,hm,?_⟩,rfl⟩
      simp [ClientMessage.signalTo,hj]

/-- A member with nothing in flight has a session, and its queues are idle. -/
theorem Building.settled (h : Building cfg w) {c : ConnId} {p : Participant}
    (hp : w.server.participantOf c = some p) (hc : w.Settled c) :
    ∃ s, (w.clients c).session = some s ∧ ∀ id, s.queue id = ⟨none,[]⟩ := by
  obtain ⟨_,hhandled,hidle⟩ := hc
  cases h.stage c with
  | outside hm | asked _ _ _ hm => rw [hp] at hm; cases hm
  | joined _ _ _ _ _ _ _ _ hlog _ _ hh => rw [hlog,hh] at hhandled; cases hhandled
  | inside _ _ _ _ _ _ _ _ hs =>
    obtain ⟨s,hs⟩ := Option.isSome_iff_exists.mp hs
    refine ⟨s,hs,fun id => ?_⟩
    unfold Session.queue
    cases hq : s.queues.get id with
    | none => rfl
    | some q => exact hidle s hs q ((s.queues.mem_values_iff q).mpr ⟨id,hq⟩)

theorem peer_of_local {s : Session} {id : JsString}
    (h : (s.peer id).localDescription.isSome) : s.peers.get id = some (s.peer id) := by
  unfold Session.peer at h ⊢
  cases hp : s.peers.get id with
  | none => rw [hp] at h; cases h
  | some peer => rfl

theorem connected_of_plan (hw : Building cfg w) (hplans : Plans w) (hrelay : Relaying w)
    (hex : Exchanging w) {a b : ConnId} {p q : Participant}
    (hp : w.server.participantOf a = some p) (hq : w.server.participantOf b = some q)
    (hr : p.roomId = q.roomId) (hne : a ≠ b) (ha : w.Settled a) (hb : w.Settled b)
    (hplan : p.id ∈ plan (w.log b)) :
    w.Connected a q.id ((signalsTo p.id (w.sent b)).flatMap Signal.candidates) ∧
      w.Connected b p.id ((signalsTo q.id (w.sent a)).flatMap Signal.candidates) := by
  obtain ⟨s,hs,hidle⟩ := hw.settled hp ha
  obtain ⟨t,ht,hidle'⟩ := hw.settled hq hb
  obtain ⟨_,_,hexa⟩ := hex a s hs
  obtain ⟨_,hdeparted,hexb⟩ := hex b t ht
  have hexa := hexa q.id
  have hexb := hexb p.id
  rw [hidle,ha.2.1,List.take_length] at hexa
  rw [hidle',hb.2.1,List.take_length] at hexb
  -- everything either said has reached the other
  have hba := hrelay b a q p hq hp hr.symm (Ne.symm hne)
  have hab := hrelay a b p q hp hq hr hne
  rw [hb.1,List.take_length] at hba
  rw [ha.1,List.take_length] at hab
  rw [hba] at hexa
  rw [hab] at hexb
  have hoffer : (signalsTo p.id (w.sent b)).any Signal.isOffer := by
    have hexact := ((hplans b).exact t ht).2.2.2 p.id (by simp [hdeparted])
    rw [hidle',hb.2.1,List.take_length] at hexact
    have hcount := List.count_pos_iff.mpr hplan
    refine offer_of_offersTo ?_
    simp only [Queue.offers,offering,List.count_nil,Option.any_none,Bool.false_eq_true,
      if_false] at hexact
    omega
  obtain ⟨hlocal,hremote,hice,hanswer⟩ := hexa.idle (.inl hoffer)
  obtain ⟨hlocal',hremote',hice',_⟩ := hexb.idle (.inr ⟨hanswer hoffer,hoffer⟩)
  exact ⟨⟨s,hs,_,peer_of_local hlocal,hlocal,hremote,hice⟩,
    ⟨t,ht,_,peer_of_local hlocal',hlocal',hremote',hice'⟩⟩

end

/-- In a run of conforming clients with no departures in which the limiter refuses no member,
two members of one room with nothing in flight are connected to each other: both have both
descriptions, and each has added every candidate the other has gathered for it. -/
theorem mesh_complete (cfg : Config) {es : List NetEvent} {w : Net}
    (hrun : Runs.exec (Net.step cfg) Net.init es = some w)
    (hconf : Runs.Along (Net.step cfg) Net.Conforming Net.init es)
    (hadmitted : Runs.Along (Net.step cfg) (Net.Admitted cfg) Net.init es)
    {a b : ConnId} {p q : Participant} (hp : w.server.participantOf a = some p)
    (hq : w.server.participantOf b = some q) (hroom : p.roomId = q.roomId) (hne : a ≠ b)
    (ha : w.Settled a) (hb : w.Settled b) :
    w.Connected a q.id (gathered b p.id es) ∧ w.Connected b p.id (gathered a q.id es) := by
  have hinit : Building cfg Net.init ∧ Relaying Net.init ∧ Acquainted Net.init ∧
      Exchanging Net.init :=
    ⟨building_init cfg,fun _ _ _ _ hc => (by cases hc),fun _ _ _ _ hc => (by cases hc),
      fun _ _ hs => (by cases hs)⟩
  obtain ⟨hw,hrelay,hacquainted,hex⟩ := Runs.exec_invariant_along
    (I := fun w => Building cfg w ∧ Relaying w ∧ Acquainted w ∧ Exchanging w)
    (fun _ _ _ hi hc hs => ⟨building_step hi.1 hc.1 hc.2 hs,
      relaying_step hi.2.1 hi.1 hc.1 hc.2 hs,acquainted_step hi.2.2.1 hi.1 hc.1 hc.2 hs,
      exchanging_step hi.2.2.2 hi.1 hc.1 hs⟩) hinit (hconf.and hadmitted) hrun
  have hplans : Plans w := by
    refine plans_run hrun (hconf.mono (fun v e hc => ?_))
    match e with
    | .session c (.reject id) => cases hc.1
    | .session c (.signal _ _) | .session c (.next _) | .session c (.settle _ _ _)
    | .session c (.sender _ _ _) | .session c (.orphan _ _ _) | .session c (.candidate _ _)
    | .session c (.track _) | .session c (.connectionFailed _) | .session c (.replaceTrack _ _)
    | .session c (.replaced _) | .session c (.removePeer _) | .session c .close
    | .server _ | .request _ _ _ _ | .deliver _ _ | .leave _ => trivial
  have hsent : ∀ c id, (signalsTo id (w.sent c)).flatMap Signal.candidates =
      gathered c id es := fun c id => by rw [sent_gathered hrun c id]; rfl
  rw [← hsent,← hsent]
  rcases hacquainted a b p q hp hq hroom hne with hplan | hplan
  · exact (connected_of_plan hw hplans hrelay hex hq hp hroom.symm (Ne.symm hne) hb ha hplan).symm
  · exact connected_of_plan hw hplans hrelay hex hp hq hroom hne ha hb hplan

def coupleMeets : List NetEvent :=
  [.session 1 (.next (js "a")),.session 1 (.settle (js "a") (js "v=0 b") []),
    .session 1 (.settle (js "a") (js "v=0 b") []),
    .session 1 (.candidate (js "a") ⟨js "cb",.undefined,.undefined⟩),
    .server (.message 1 4 (js "c")
      (ClientMessage.signal (js "a") (.offer (js "v=0 b"))).data),
    .server (.message 1 4 (js "d")
      (ClientMessage.signal (js "a") (.iceCandidate ⟨js "cb",.undefined,.undefined⟩)).data),
    .deliver 0 [],.deliver 0 [],.session 0 (.next (js "b")),
    .session 0 (.settle (js "b") (js "v=0") [.audio]),.session 0 (.sender (js "b") 0 true),
    .session 0 (.settle (js "b") (js "v=0 a") []),.session 0 (.settle (js "b") (js "v=0 a") []),
    .session 0 (.candidate (js "b") ⟨js "ca",.undefined,.undefined⟩),
    .session 0 (.next (js "b")),.session 0 (.settle (js "b") (js "v=0") []),
    .server (.message 0 5 (js "e")
      (ClientMessage.signal (js "b") (.answer (js "v=0 a"))).data),
    .server (.message 0 5 (js "f")
      (ClientMessage.signal (js "b") (.iceCandidate ⟨js "ca",.undefined,.undefined⟩)).data),
    .deliver 1 [],.deliver 1 [],.session 1 (.next (js "a")),
    .session 1 (.settle (js "a") (js "v=0") []),.session 1 (.next (js "a")),
    .session 1 (.settle (js "a") (js "v=0") [])]

theorem mesh_complete_couple :
    ∃ w, Runs.exec (Net.step (defaultConfig [])) Net.init (coupleJoins ++ coupleMeets) = some w ∧
      w.Connected 0 (js "b") [⟨js "cb",.undefined,.undefined⟩] ∧
      w.Connected 1 (js "a") [⟨js "ca",.undefined,.undefined⟩] := by
  have hrun : ((Runs.exec (Net.step (defaultConfig [])) Net.init (coupleJoins ++ coupleMeets)).filter
      (fun w => w.server.participantOf 0 = some ⟨js "a",js "Ann",js "room1",0⟩ ∧
        w.server.participantOf 1 = some ⟨js "b",js "Bob",js "room1",1⟩ ∧ w.Settled 0 ∧
        w.Settled 1)).isSome := by decide +kernel
  have hconf : Runs.Along (Net.step (defaultConfig [])) Net.Conforming Net.init
      (coupleJoins ++ coupleMeets) := by decide +kernel
  have hadmitted : Runs.Along (Net.step (defaultConfig [])) (Net.Admitted (defaultConfig []))
      Net.init (coupleJoins ++ coupleMeets) := by decide +kernel
  obtain ⟨w,hw⟩ := Option.isSome_iff_exists.mp hrun
  obtain ⟨hw,hc⟩ := Option.filter_eq_some_iff.mp hw
  obtain ⟨hp,hq,ha,hb⟩ := of_decide_eq_true hc
  exact ⟨w,hw,mesh_complete (defaultConfig []) hw hconf hadmitted hp hq rfl (by decide) ha hb⟩

def refusedOffer : List NetEvent :=
  coupleMeets.take 3 ++ [.server (.message 1 4 (js "c")
    (ClientMessage.signal (js "a") (.offer (js "v=0 b"))).data),.deliver 1 []]

theorem mesh_complete_refused :
    ¬ ∀ (cfg : Config) (es : List NetEvent) (w : Net) (a b : ConnId) (p q : Participant),
      Runs.exec (Net.step cfg) Net.init es = some w →
      Runs.Along (Net.step cfg) Net.Conforming Net.init es →
      w.server.participantOf a = some p → w.server.participantOf b = some q →
      p.roomId = q.roomId → a ≠ b → w.Settled a → w.Settled b →
      w.Connected a q.id (gathered b p.id es) ∧ w.Connected b p.id (gathered a q.id es) := by
  intro h
  have hrun : ((Runs.exec (Net.step strictConfig) Net.init (coupleJoins ++ refusedOffer)).filter
      (fun w => w.server.participantOf 0 = some ⟨js "a",js "Ann",js "room1",0⟩ ∧
        w.server.participantOf 1 = some ⟨js "b",js "Bob",js "room1",1⟩ ∧ w.Settled 0 ∧
        w.Settled 1 ∧ ∀ s ∈ (w.clients 0).session, s.peers.get (js "b") = none)).isSome := by
    decide +kernel
  have hconf : Runs.Along (Net.step strictConfig) Net.Conforming Net.init
      (coupleJoins ++ refusedOffer) := by decide +kernel
  obtain ⟨w,hw⟩ := Option.isSome_iff_exists.mp hrun
  obtain ⟨hw,hc⟩ := Option.filter_eq_some_iff.mp hw
  obtain ⟨hp,hq,ha,hb,hnone⟩ := of_decide_eq_true hc
  obtain ⟨⟨s,hs,peer,hpeer,_⟩,_⟩ := h strictConfig _ w 0 1 _ _ hw hconf hp hq rfl (by decide) ha hb
  rw [hnone s hs] at hpeer
  cases hpeer

end MaiaMeet
