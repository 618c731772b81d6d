import MaiaMeet.Exchange
import MaiaMeet.JoinOrder
import MaiaMeet.Relay
set_option autoImplicit false

/-! Clients that keep to app.js on channels that lose nothing: how far each is with joining,
and what the server makes of their messages. -/

namespace MaiaMeet

/-- What browsers make: descriptions in SDP, and candidates of a bounded length. Where the
settled call makes no description the event's `sdp` stands for nothing. -/
def SessionEvent.proper : SessionEvent → Bool
  | .settle _ sdp _ => js "v=0" <+: sdp
  | .candidate _ c => c.candidate.length ≤ 4096
  | _ => true

def Net.Outside (w : Net) (c : ConnId) : Prop :=
  w.server.participantOf c = none ∧ w.received c = (w.sent c).length

def Net.Gone (w : Net) (c : ConnId) : Prop := (w.clients c).listening = false ∧ w.Outside c

/-- The server hears from a client what it sent, in order; browser calls succeed; nobody
departs that has joined or asked to. -/
def Net.Conforming (w : Net) : NetEvent → Prop
  | .server (.message c _ _ data) => ∃ m ∈ (w.sent c)[w.received c]?, data = m.data
  | .server (.heartbeat c) => w.Gone c ∨ ∀ conn ∈ w.server.alive c, conn.isAlive
  | .server (.closing c) | .server (.close c) => w.Gone c
  | .leave c => w.Outside c
  | .session _ e => e.succeeds ∧ e.proper
  | _ => True

def Net.Admitted (cfg : Config) (w : Net) : NetEvent → Prop
  | .server (.message c now _ _) => ∀ conn ∈ w.server.alive c, conn.participant.isSome →
      0 ≤ (conn.take cfg now).tokens
  | _ => True

instance (w : Net) (c : ConnId) : Decidable (w.Outside c) := by
  unfold Net.Outside; infer_instance

instance (w : Net) (c : ConnId) : Decidable (w.Gone c) := by unfold Net.Gone; infer_instance

instance (w : Net) (e : NetEvent) : Decidable (w.Conforming e) := by
  unfold Net.Conforming
  split <;> infer_instance

instance (cfg : Config) (w : Net) (e : NetEvent) : Decidable (w.Admitted cfg e) := by
  unfold Net.Admitted
  split <;> infer_instance

inductive Stage (member : Option Participant) (sent : List ClientMessage) (received : Nat)
    (log : List Entry) (handled : Nat) (client : Client) : Prop where
  | outside (hm : member = none) (hr : received = sent.length) (hs : client.session = none)
      (hl : ∀ e ∈ log, e.message.body.isReply)
      (hn : client.listening = true → client.pending = none → sent = [] ∧ log = [])
  | asked (roomId displayName i : JsString) (hm : member = none)
      (hsent : sent = [.join roomId displayName i]) (hr : received = 0) (hlog : log = [])
      (hp : client.pending = some i) (hl : client.listening = true) (hs : client.session = none)
  | joined (roomId displayName i : JsString) (e : Entry) (rest : List Entry)
      (hm : member.isSome) (hsent : sent = [.join roomId displayName i]) (hr : received = 1)
      (hlog : log = e :: rest) (he : e.message.requestId = some i)
      (hb : e.message.body.plan.isSome) (hh : handled = 0) (hp : client.pending = some i)
      (hl : client.listening = true) (hs : client.session = none)
  | inside (join : ClientMessage) (signals : List ClientMessage) (hm : member.isSome)
      (hsent : sent = join :: signals) (hsig : ∀ m ∈ signals, ∃ id sg, m = .signal id sg)
      (hr : 1 ≤ received) (hle : received ≤ sent.length) (hp : client.pending = none)
      (hs : client.session.isSome)

abbrev Net.Staged (w : Net) (c : ConnId) : Prop :=
  Stage (w.server.participantOf c) (w.sent c) (w.received c) (w.log c) (w.handled c)
    (w.clients c)

structure Building (cfg : Config) (w : Net) : Prop where
  presence : Presence cfg w
  stage : ∀ c, w.Staged c
  opened : ∀ c conn, w.server.connections c = some conn → conn.readyState = .opened ∨ w.Gone c
  addressed : ∀ c id sg, .signal id sg ∈ w.sent c → sg.accepted ∧ ∃ p d q,
    w.server.participantOf c = some p ∧ w.server.participantOf d = some q ∧ q.id = id ∧
      q.roomId = p.roomId ∧ d ≠ c
  listed : ∀ c, ∀ e ∈ w.log c, ∀ id ∈ ids e.members, ∃ p d q,
    w.server.participantOf c = some p ∧ w.server.participantOf d = some q ∧ q.id = id ∧
      q.roomId = p.roomId
  lasting : ∀ c, ∀ e ∈ w.log c, ∀ id, e.message.body ≠ .participantLeft id

inductive Served (cfg : Config) (w : Net) : ServerEvent → Server → List Sent → Prop where
  | quiet (e : ServerEvent) (t : Server)
      (hp : ∀ d, t.participantOf d = w.server.participantOf d)
      (hmsg : ∀ c now uuid data, e ≠ .message c now uuid data) : Served cfg w e t []
  | refused (c : ConnId) (now : Nat) (uuid : JsString) (data : Data) (t : Server)
      (roomId displayName i : JsString) (body : Body) (requestId : Option JsString)
      (hm : w.server.participantOf c = none)
      (hsent : w.sent c = [.join roomId displayName i]) (hr : w.received c = 0)
      (hp : ∀ d, t.participantOf d = w.server.participantOf d) (hb : body.isReply) :
      Served cfg w (.message c now uuid data) t (t.send c body requestId)
  | joined (c : ConnId) (now : Nat) (uuid : JsString) (data : Data) (t : Server)
      (out : List Sent) (roomId displayName i : JsString) (p : Participant)
      (hm : w.server.participantOf c = none)
      (hsent : w.sent c = [.join roomId displayName i]) (hr : w.received c = 0)
      (hc : t.participantOf c = some p)
      (hp : ∀ d, d ≠ c → t.participantOf d = w.server.participantOf d)
      (hu : p.id ∉ w.server.uuids)
      (hown : out.filter (fun m => m.ws = c) =
        [⟨c,.roomJoined p.id p.roomId (t.membersOf c) cfg.rtcConfig,some i⟩])
      (hout : ∀ m ∈ out, m.ws ≠ c → (∃ q, m.body = .participantJoined q) ∧
        (w.server.participantOf m.ws).isSome) :
      Served cfg w (.message c now uuid data) t out
  | relayed (c : ConnId) (now : Nat) (uuid : JsString) (data : Data) (t : Server)
      (sg : Signal) (p q : Participant) (d : ConnId)
      (hp : ∀ d, t.participantOf d = w.server.participantOf d)
      (hsent : (w.sent c)[w.received c]? = some (.signal q.id sg))
      (hc : w.server.participantOf c = some p) (hd : w.server.participantOf d = some q)
      (hroom : q.roomId = p.roomId) (hne : d ≠ c) :
      Served cfg w (.message c now uuid data) t [⟨d,.signal sg p.id,none⟩]

section
variable {cfg : Config} {w : Net}

theorem Building.member (h : Building cfg w) {c : ConnId} {p : Participant}
    (hp : w.server.participantOf c = some p) :
    ∃ conn room, w.server.alive c = some conn ∧ conn.participant = some p ∧
      w.server.isOpen c ∧ p.ws = c ∧ w.server.rooms.get p.roomId = some room ∧
      room.get p.id = some p := by
  obtain ⟨conn,hc,hpc⟩ := Option.bind_eq_some_iff.mp hp
  have hopen : conn.readyState = .opened := by
    refine (h.opened c conn hc).resolve_right (fun hg => ?_)
    rw [hg.2.1] at hp
    cases hp
  have halive : w.server.alive c = some conn :=
    (alive_eq_some_iff _ c conn).mpr ⟨hc,by simp [hopen]⟩
  obtain ⟨hw,room,hr,hi⟩ := h.presence.store.joined c conn p halive hpc
  exact ⟨conn,room,halive,hpc,isOpen_iff.mpr ⟨conn,hc,hopen⟩,hw,hr,hi⟩

theorem joined_out {s : Server} {c : ConnId} {conn : Connection} {p : Participant}
    (requestId : Option JsString) (hts : RoomStore cfg (s.enter c conn p))
    (hpc : (s.enter c conn p).participantOf c = some p) (ho : (s.enter c conn p).isOpen c) :
    let t := s.enter c conn p
    let room := t.roomOrNew p.roomId
    let out := t.send c (.roomJoined p.id p.roomId (room.values.map publicParticipant)
        cfg.rtcConfig) requestId ++
      t.broadcast room (.participantJoined (publicParticipant p)) (some p.id)
    out.filter (fun m => m.ws = c) =
        [⟨c,.roomJoined p.id p.roomId (t.membersOf c) cfg.rtcConfig,requestId⟩] ∧
      ∀ m ∈ out, m.ws ≠ c → (∃ q, m.body = .participantJoined q) ∧
        (t.participantOf m.ws).isSome := by
  intro t room out
  have hroom : t.rooms.get p.roomId = some room := by
    simp [room,t,Server.roomOrNew,enter_rooms_self]
  refine ⟨?_,fun m hm hmc => ?_⟩
  · have hb : (t.broadcast room (.participantJoined (publicParticipant p)) (some p.id)).filter
        (fun m => m.ws = c) = [] := by
      refine (broadcast_to hts _ _ hroom).resolve_right ?_
      rintro ⟨q,_,hq,_,hne,_⟩
      rw [hpc,Option.some.injEq] at hq
      exact hne (by rw [hq])
    rw [List.filter_append,hb,filter_send,if_pos rfl,List.append_nil,membersOf_eq hpc hroom,
      Server.send,if_pos ho]
  · rcases List.mem_append.mp hm with hm | hm
    · obtain ⟨_,rfl⟩ := mem_send.mp hm
      exact absurd rfl hmc
    · obtain ⟨q,hq,_,_,rfl⟩ := mem_broadcast.mp hm
      obtain ⟨i,hi⟩ := (room.mem_values_iff q).mp hq
      exact ⟨⟨_,rfl⟩,by rw [(hts.participantOf hroom hi rfl).2.2]; rfl⟩

theorem quiet_step {s t : Server} {e : ServerEvent} {out : List Sent}
    (h : s.step cfg e = some (t,out)) (hmsg : ∀ c now uuid data, e ≠ .message c now uuid data)
    (hclose : ∀ c, e = .close c → s.participantOf c = none) :
    out = [] ∧ ∀ d, t.participantOf d = s.participantOf d := by
  have hput : ∀ c conn conn', s.alive c = some conn → conn'.participant = conn.participant →
      ∀ d, (s.put c conn').participantOf d = s.participantOf d := by
    intro c conn conn' hc hp d
    rw [participantOf_put]
    split
    · rename_i hd
      rw [hp,hd,participantOf_alive hc]
    · rfl
  cases step_effect h with
  | connected c now hc =>
    refine ⟨rfl,fun d => ?_⟩
    rw [participantOf_put]
    split
    · rename_i hd
      simp [hd,Server.participantOf,hc]
    · rfl
  | kept e c conn conn' hc hp => exact ⟨rfl,hput c conn conn' hc hp⟩
  | closed c conn hc hp => exact ⟨rfl,hput c conn { conn with readyState := .closed } hc rfl⟩
  | left c conn p room hc hp =>
    have hnone := hclose c rfl
    rw [participantOf_alive hc,hp] at hnone
    cases hnone
  | handled c conn now uuid data => exact absurd rfl (hmsg c now uuid data)

theorem join_received (h : Building cfg w) {c : ConnId} {now : Nat} {uuid : JsString}
    {roomId displayName i : JsString} {t : Server} {out : List Sent}
    (hm : w.server.participantOf c = none) (hsent : w.sent c = [.join roomId displayName i])
    (hr : w.received c = 0) (hl : (w.clients c).listening = true)
    (hstep : w.server.step cfg (.message c now uuid (joinMessage roomId displayName i)) =
      some (t,out)) :
    Served cfg w (.message c now uuid (joinMessage roomId displayName i)) t out := by
  have hts := roomStore_step h.presence.store hstep
  obtain ⟨conn,hc,hu,ho⟩ := message_outcome hstep
  have hcharge : ∀ d, (w.server.charge cfg c conn now uuid).participantOf d =
      w.server.participantOf d := charge_participantOf hc now uuid
  have henv : envelope (joinMessage roomId displayName i) =
      .ok ⟨.roomJoin,.obj [(js "roomId",.str roomId),(js "displayName",.str displayName)],some i⟩ :=
    envelope_clientMessage _ _ _
  generalize hdata : joinMessage roomId displayName i = data at ho henv ⊢
  cases ho with
  | reply body requestId hb =>
    exact .refused c now uuid data _ roomId displayName i body requestId hm hsent hr hcharge hb
  | relayed m k p target room signal ht hm' hk =>
    rw [henv] at hm'
    cases hm'
    cases hk
  | chatted m p room text ht hm' hk =>
    rw [henv] at hm'
    cases hm'
    cases hk
  | joined m r n ht hm' hk hp hj hsize =>
    rw [henv] at hm'
    cases hm'
    have hopen : conn.readyState = .opened :=
      (h.opened c conn ((alive_eq_some_iff _ c conn).mp hc).1).resolve_right (fun hg =>
        absurd (hl.symm.trans hg.1) (by simp))
    have hof : ∀ d, ((w.server.charge cfg c conn now uuid).enter c (conn.take cfg now)
        ⟨uuid,n,r,c⟩).participantOf d =
        if d = c then some ⟨uuid,n,r,c⟩ else w.server.participantOf d := by
      intro d
      have hput := participantOf_put (w.server.charge cfg c conn now uuid) c d
        { conn.take cfg now with participant := some ⟨uuid,n,r,c⟩ }
      rw [show ((w.server.charge cfg c conn now uuid).enter c (conn.take cfg now)
        ⟨uuid,n,r,c⟩).participantOf d = _ from hput,hcharge d]
    have hself : ((w.server.charge cfg c conn now uuid).enter c (conn.take cfg now)
        ⟨uuid,n,r,c⟩).isOpen c := by
      simp [Server.isOpen,Server.enter,Server.put,hopen]
    obtain ⟨hown,hout⟩ := joined_out (some i) hts
      ((hof c).trans (if_pos rfl)) hself
    refine .joined c now uuid data _ _ roomId displayName i ⟨uuid,n,r,c⟩ hm hsent hr
      ((hof c).trans (if_pos rfl)) (fun d hd => (hof d).trans (if_neg hd)) hu hown ?_
    intro m hmem hmc
    obtain ⟨hb,hsome⟩ := hout m hmem hmc
    rw [hof,if_neg hmc] at hsome
    exact ⟨hb,hsome⟩

theorem signal_received (h : Building cfg w) {c : ConnId} {now : Nat} {uuid id : JsString}
    {sg : Signal} {t : Server} {out : List Sent}
    (hsent : (w.sent c)[w.received c]? = some (.signal id sg))
    (hadmitted : w.Admitted cfg (.server
      (.message c now uuid (clientMessage (.signal sg.type) (sg.request id) none))))
    (hstep : w.server.step cfg
      (.message c now uuid (clientMessage (.signal sg.type) (sg.request id) none)) =
        some (t,out)) :
    Served cfg w (.message c now uuid (clientMessage (.signal sg.type) (sg.request id) none))
      t out := by
  obtain ⟨hacc,p,d,q,hp,hq,rfl,hroom,hne⟩ := h.addressed c id sg (List.mem_of_getElem? hsent)
  obtain ⟨conn,room,hc,hpc,_,_,hr,_⟩ := h.member hp
  obtain ⟨_,room',_,_,hopen,hqw,hr',hi⟩ := h.member hq
  rw [hroom,hr,Option.some.injEq] at hr'
  subst room'
  obtain ⟨conn',hc',hu,_⟩ := message_outcome hstep
  have htokens : 0 ≤ (conn.take cfg now).tokens := hadmitted conn hc (by simp [hpc])
  have hd := signal_delivered h.presence.store hc hu htokens (envelope_clientMessage _ _ none) rfl
    hpc hr (get_request_target sg q.id) hi (by rw [hqw]; exact hne) (by rw [hqw]; exact hopen)
    (validSignal_request q.id hacc)
  rw [hd,Option.some.injEq,Prod.mk.injEq] at hstep
  obtain ⟨rfl,rfl⟩ := hstep
  rw [hqw]
  exact .relayed c now uuid _ _ sg p q d (charge_participantOf hc now uuid) hsent hp hq
    hroom hne

theorem served_step (h : Building cfg w) {e : ServerEvent} {t : Server} {out : List Sent}
    (hconf : w.Conforming (.server e)) (hadmitted : w.Admitted cfg (.server e))
    (hstep : w.server.step cfg e = some (t,out)) : Served cfg w e t out := by
  have hquiet : (∀ c now uuid data, e ≠ .message c now uuid data) →
      (∀ c, e = .close c → w.server.participantOf c = none) → Served cfg w e t out := by
    intro hmsg hclose
    obtain ⟨rfl,hp⟩ := quiet_step hstep hmsg hclose
    exact .quiet e t hp hmsg
  cases e with
  | connection | pong | heartbeat | closing => exact hquiet (by simp) (by simp)
  | close c =>
    refine hquiet (by simp) (fun d hd => ?_)
    cases hd
    exact hconf.2.1
  | message c now uuid data =>
    obtain ⟨m,hm,rfl⟩ := hconf
    cases h.stage c with
    | outside hnone hr =>
      rw [List.getElem?_eq_none (Nat.le_of_eq hr.symm)] at hm
      cases hm
    | asked roomId displayName i hnone hsent hr hlog hp hl hs =>
      rw [hsent,hr] at hm
      cases hm
      exact join_received h hnone hsent hr hl hstep
    | joined roomId displayName i e rest hsome hsent hr =>
      rw [hsent,hr] at hm
      cases hm
    | inside join signals hsome hsent hsig hr =>
      have hmem : m ∈ signals := by
        rw [hsent,List.getElem?_cons,if_neg (by omega)] at hm
        exact List.mem_of_getElem? hm
      obtain ⟨id,sg,rfl⟩ := hsig m hmem
      exact signal_received h hm hadmitted hstep

variable {u : Net} {c : ConnId}

theorem Stage.grow {member : Option Participant} {sent : List ClientMessage} {received : Nat}
    {log more : List Entry} {handled : Nat} {client : Client}
    (h : Stage member sent received log handled client) (hmore : member = none → more = []) :
    Stage member sent received (log ++ more) handled client := by
  cases h with
  | outside hm hr hs hl hn =>
    rw [hmore hm,List.append_nil]
    exact .outside hm hr hs hl hn
  | asked roomId displayName i hm hsent hr hlog hp hl hs =>
    rw [hmore hm,List.append_nil]
    exact .asked roomId displayName i hm hsent hr hlog hp hl hs
  | joined roomId displayName i e rest hm hsent hr hlog he hb hh hp hl hs =>
    exact .joined roomId displayName i e (rest ++ more) hm hsent hr (by rw [hlog]; rfl) he hb hh
      hp hl hs
  | inside join signals hm hsent hsig hr hle hp hs =>
    exact .inside join signals hm hsent hsig hr hle hp hs

theorem serve_log (w : Net) (e : ServerEvent) (t : Server) (out : List Sent) (c : ConnId) :
    (w.serve e t out).log c =
      w.log c ++ (out.filter (fun m => m.ws = c)).map (fun m => ⟨m,t.membersOf c⟩) := rfl

theorem serve_received_message (w : Net) (d : ConnId) (now : Nat) (uuid : JsString) (data : Data)
    (t : Server) (out : List Sent) (c : ConnId) :
    (w.serve (.message d now uuid data) t out).received c =
      if c = d then w.received c + 1 else w.received c := by
  by_cases h : c = d
  · simp [Net.serve,h]
  · simp [Net.serve,h]

theorem serve_received_quiet (w : Net) {e : ServerEvent} (t : Server) (out : List Sent)
    (h : ∀ c now uuid data, e ≠ .message c now uuid data) :
    (w.serve e t out).received = w.received := by
  cases e with
  | message c now uuid data => exact absurd rfl (h c now uuid data)
  | connection | pong | heartbeat | closing | close => rfl

theorem staged_grow (h : w.Staged c) {e : ServerEvent} {t : Server} {out : List Sent}
    (hr : (w.serve e t out).received c = w.received c)
    (hp : t.participantOf c = w.server.participantOf c)
    (hout : w.server.participantOf c = none → out.filter (fun m => m.ws = c) = []) :
    (w.serve e t out).Staged c := by
  rw [Net.Staged,hr,serve_log,show (w.serve e t out).server.participantOf c = _ from hp]
  exact h.grow (fun hnone => by rw [hout hnone]; rfl)

theorem staged_served (h : ∀ c, w.Staged c) (hw : Presence cfg w) {e : ServerEvent} {t : Server}
    {out : List Sent} (hs : Served cfg w e t out) (c : ConnId) : (w.serve e t out).Staged c := by
  have hother : ∀ {d now uuid data}, c ≠ d →
      (w.serve (.message d now uuid data) t out).received c = w.received c :=
    fun hcd => (serve_received_message w _ _ _ _ t out c).trans (if_neg hcd)
  have hself : ∀ {now uuid data},
      (w.serve (.message c now uuid data) t out).received c = w.received c + 1 :=
    (serve_received_message w c _ _ _ t out c).trans (if_pos rfl)
  cases hs with
  | quiet _ _ hp hmsg =>
    exact staged_grow (h c) (congrFun (serve_received_quiet w t [] hmsg) c) (hp c) (fun _ => rfl)
  | refused d now uuid data _ roomId displayName i body requestId hm hsent hr hp hb =>
    by_cases hcd : c = d
    · subst hcd
      rw [Net.Staged,hself,serve_log,show (w.serve _ t _).server.participantOf c = none from
        (hp c).trans hm]
      cases h c with
      | outside _ hr' => rw [hsent,hr] at hr'; cases hr'
      | joined _ _ _ _ _ hsome => rw [hm] at hsome; cases hsome
      | inside _ _ hsome => rw [hm] at hsome; cases hsome
      | asked _ _ j _ _ _ hlog hpending hl hs =>
        refine .outside rfl ?_ hs ?_ (fun _ hn => ?_)
        · rw [hr]
          exact (congrArg List.length hsent).symm
        · intro entry hentry
          rw [hlog,List.nil_append] at hentry
          obtain ⟨m,hm',rfl⟩ := List.mem_map.mp hentry
          obtain ⟨_,rfl⟩ := mem_send.mp (List.mem_filter.mp hm').1
          exact hb
        · rw [show (w.clients c).pending = none from hn] at hpending
          cases hpending
    · exact staged_grow (h c) (hother hcd) (hp c)
        (fun _ => by rw [filter_send,if_neg (Ne.symm hcd)])
  | joined d now uuid data _ _ roomId displayName i p hm hsent hr hc hp hu hown hout =>
    by_cases hcd : c = d
    · subst hcd
      rw [Net.Staged,hself,serve_log,show (w.serve _ t _).server.participantOf c = some p from hc]
      cases h c with
      | outside _ hr' => rw [hsent,hr] at hr'; cases hr'
      | joined _ _ _ _ _ hsome => rw [hm] at hsome; cases hsome
      | inside _ _ hsome => rw [hm] at hsome; cases hsome
      | asked _ _ j _ hsent' _ hlog hpending hl hs =>
        rw [hsent] at hsent'
        cases hsent'
        have hhandled : w.handled c = 0 := by
          have := hw.within c
          rw [hlog] at this
          exact Nat.le_zero.mp this
        refine .joined roomId displayName i ⟨⟨c,.roomJoined p.id p.roomId (t.membersOf c)
          cfg.rtcConfig,some i⟩,t.membersOf c⟩ [] rfl hsent (by rw [hr]) ?_ rfl rfl hhandled
          hpending hl hs
        rw [hlog,hown]
        rfl
    · refine staged_grow (h c) (hother hcd) (hp c hcd) (fun hnone => ?_)
      rw [List.filter_eq_nil_iff]
      intro m hmem hmc
      obtain rfl : m.ws = c := by simpa using hmc
      have hsome := (hout m hmem hcd).2
      rw [hnone] at hsome
      cases hsome
  | relayed d now uuid data _ sg p q d' hp hsent hc hd hroom hne =>
    by_cases hcd : c = d
    · subst hcd
      have hlt := (List.getElem?_eq_some_iff.mp hsent).1
      rw [Net.Staged,hself,serve_log,show (w.serve _ t _).server.participantOf c = _ from
        (hp c).trans hc]
      cases h c with
      | outside hnone => rw [hnone] at hc; cases hc
      | asked _ _ _ hnone => rw [hnone] at hc; cases hc
      | joined roomId displayName i _ _ _ hsent' hr => rw [hsent',hr] at hsent; cases hsent
      | inside join signals hsome hsent' hsig hr hle hpending hs =>
        exact .inside join signals rfl hsent' hsig (by omega) hlt hpending hs
    · refine staged_grow (h c) (hother hcd) (hp c) (fun hnone => ?_)
      have hdc : d' ≠ c := by
        rintro rfl
        rw [hnone] at hd
        cases hd
      simp [hdc]

theorem output_pending (out : List Output) (client : Client) :
    (out.foldl Client.output client).pending = client.pending := by
  induction out generalizing client with
  | nil => rfl
  | cons o out ih =>
    have ho : (client.output o).pending = client.pending := by
      cases o with
      | remoteTrack id => simp only [Client.output,Client.onRemoteTrack]; split <;> rfl
      | send | error | replaced | replaceFailed => rfl
    rw [List.foldl_cons,ih,ho]

theorem emit_pending (client : Client) (b : Body) : (client.emit b).pending = client.pending := by
  cases b with
  | participantLeft id =>
    simp only [Client.emit,Client.removeParticipant]
    split <;> rfl
  | participantJoined | signal | roomJoined | error | pong | roomCreated | chatMessage => rfl

/-- Answers that are no room.joined change nothing, or end the attempt to join. -/
theorem reply_handled (stream : Stream) {client : Client} {m : Sent} (hb : m.body.isReply) :
    client.handleMessage stream m = client ∨
      (client.handleMessage stream m).listening = false ∧
        (client.handleMessage stream m).session = none := by
  unfold Client.handleMessage
  split
  · cases hbody : m.body with
    | error | pong | roomCreated => exact .inr ⟨rfl,rfl⟩
    | roomJoined | participantJoined | participantLeft | signal | chatMessage =>
      rw [hbody] at hb; cases hb
  · cases hbody : m.body with
    | error | pong | roomCreated => exact .inl rfl
    | roomJoined | participantJoined | participantLeft | signal | chatMessage =>
      rw [hbody] at hb; cases hb

theorem addParticipants_eq (participants : List PublicParticipant) (client : Client) :
    ∃ room tiles, participants.foldl Client.addParticipant client =
      { client with room := room, tiles := tiles } := by
  induction participants generalizing client with
  | nil => exact ⟨client.room,client.tiles,rfl⟩
  | cons p participants ih =>
    obtain ⟨room,tiles,h⟩ := ih (client.addParticipant p)
    exact ⟨room,tiles,h⟩

theorem stage_handled {member : Option Participant} {sent : List ClientMessage} {received : Nat}
    {log : List Entry} {handled : Nat} {client : Client}
    (h : Stage member sent received log handled client) {entry : Entry}
    (he : log[handled]? = some entry) (stream : Stream) :
    Stage member sent received log (handled + 1) (client.handleMessage stream entry.message) := by
  cases h with
  | asked _ _ _ _ _ _ hlog => rw [hlog] at he; cases he
  | outside hm hr hs hl hn =>
    rcases reply_handled stream (hl entry (List.mem_of_getElem? he)) with hc | hc
    · rw [hc]
      exact .outside hm hr hs hl hn
    · refine .outside hm hr hc.2 hl (fun hlisten => ?_)
      rw [hc.1] at hlisten
      cases hlisten
  | joined roomId displayName i e rest hm hsent hr hlog hreq hb hh hp hl hs =>
    rw [hlog,hh] at he
    obtain rfl : e = entry := by simpa using he
    have hpending : client.pending.isSome ∧ e.message.requestId = client.pending := by
      rw [hp,hreq]
      exact ⟨rfl,rfl⟩
    unfold Client.handleMessage
    rw [if_pos hpending]
    cases hbody : e.message.body with
    | roomJoined own r participants rtcConfig =>
      obtain ⟨room,tiles,hadded⟩ := addParticipants_eq participants { client with
        pending := none, room := { client.room with localParticipantId := some own } }
      refine .inside _ [] hm hsent (by simp) (Nat.le_of_eq hr.symm)
        (Nat.le_of_eq (by rw [hr,hsent]; rfl)) ?_ rfl
      exact congrArg Client.pending hadded
    | participantJoined | participantLeft | signal | error | pong | roomCreated
    | chatMessage => rw [hbody] at hb; cases hb
  | inside join signals hm hsent hsig hr hle hp hs =>
    have hemit : client.handleMessage stream entry.message = client.emit entry.message.body := by
      unfold Client.handleMessage
      rw [if_neg (by simp [hp])]
    rw [hemit]
    exact .inside join signals hm hsent hsig hr hle (by rw [emit_pending,hp])
      (by rw [emit_session,Option.isSome_map]; exact hs)

theorem mem_messages {out : List Output} {m : ClientMessage}
    (h : m ∈ out.flatMap Output.messages) :
    ∃ id sg, m = .signal id sg ∧ Output.send id sg ∈ out := by
  obtain ⟨o,ho,hm⟩ := List.mem_flatMap.mp h
  cases o with
  | send id sg => exact ⟨id,sg,List.mem_singleton.mp hm,ho⟩
  | remoteTrack | error | replaced | replaceFailed => cases hm

theorem staged_step (h : Building cfg w) {e : NetEvent} (hconf : w.Conforming e)
    (hadmitted : w.Admitted cfg e) (hstep : w.step cfg e = some u) (d : ConnId) : u.Staged d := by
  have hd := h.stage d
  cases net_effect hstep with
  | served e t out ht =>
    exact staged_served h.stage h.presence (served_step h hconf hadmitted ht) d
  | requested c roomId displayName i hl hp hs =>
    by_cases hdc : d = c
    · subst hdc
      simp only [Net.Staged,Net.send,Net.setClient,Function.update_self]
      cases hd with
      | outside hm hr _ _ hn =>
        obtain ⟨hsent,hlog⟩ := hn hl hp
        exact .asked roomId displayName i hm (by rw [hsent]; rfl) (by rw [hr,hsent]; rfl) hlog
          rfl hl hs
      | asked _ _ j _ _ _ _ hp' => rw [hp] at hp'; cases hp'
      | joined _ _ j _ _ _ _ _ _ _ _ _ hp' => rw [hp] at hp'; cases hp'
      | inside _ _ _ _ _ _ _ _ hs' => rw [hs] at hs'; cases hs'
    · simpa only [Net.Staged,Net.send,Net.setClient,Function.update_of_ne hdc] using hd
  | delivered c stream entry he hl =>
    by_cases hdc : d = c
    · subst hdc
      simpa only [Net.Staged,Net.setClient,Function.update_self] using stage_handled hd he stream
    · simpa only [Net.Staged,Net.setClient,Function.update_of_ne hdc] using hd
  | acted c e s t out hs hi ht =>
    by_cases hdc : d = c
    · subst hdc
      simp only [Net.Staged,Net.output,Net.send,Net.setClient,Function.update_self]
      cases hd with
      | outside _ _ hs' => rw [hs] at hs'; cases hs'
      | asked _ _ _ _ _ _ _ _ _ hs' => rw [hs] at hs'; cases hs'
      | joined _ _ _ _ _ _ _ _ _ _ _ _ _ _ hs' => rw [hs] at hs'; cases hs'
      | inside join signals hm hsent hsig hr hle hp hs' =>
        refine .inside join (signals ++ out.flatMap Output.messages) hm (by rw [hsent]; rfl)
          (fun m hm => ?_) hr (Nat.le_trans hle (by simp)) (by rw [output_pending,hp])
          (by rw [output_session]; rfl)
        rcases List.mem_append.mp hm with hm | hm
        · exact hsig m hm
        · obtain ⟨id,sg,hm,_⟩ := mem_messages hm
          exact ⟨id,sg,hm⟩
    · simpa only [Net.Staged,Net.output,Net.send,Net.setClient,Function.update_of_ne hdc] using hd
  | left c =>
    by_cases hdc : d = c
    · subst hdc
      simp only [Net.Staged,Net.setClient,Function.update_self]
      cases hd with
      | outside hm hr _ hl =>
        exact .outside hm hr rfl hl (fun hlisten => by cases hlisten)
      | asked _ _ _ _ hsent hr =>
        have hout := hconf.2
        rw [hsent,hr] at hout
        cases hout
      | joined _ _ _ _ _ hm => rw [hconf.1] at hm; cases hm
      | inside _ _ hm => rw [hconf.1] at hm; cases hm
    · simpa only [Net.Staged,Net.setClient,Function.update_of_ne hdc] using hd

theorem readyState_step {s t : Server} {e : ServerEvent} {out : List Sent}
    (h : s.step cfg e = some (t,out)) {conn' : Connection} (hc : t.connections c = some conn') :
    conn'.readyState = .opened ∨
      (∃ conn, s.connections c = some conn ∧ conn'.readyState = conn.readyState) ∨
      e = .closing c ∨ e = .close c ∨
      (e = .heartbeat c ∧ ∃ conn, s.alive c = some conn ∧ conn.isAlive = false) := by
  have hput : ∀ (v : Server) (d : ConnId) (conn k : Connection), s.alive d = some conn →
      k.readyState = conn.readyState → v.connections = (s.put d k).connections →
      v.connections c = some conn' →
      ∃ conn, s.connections c = some conn ∧ conn'.readyState = conn.readyState := by
    intro v d conn k hd hk hv hc
    by_cases hcd : c = d
    · subst hcd
      rw [hv,put_connections_self] at hc
      cases hc
      exact ⟨conn,((alive_eq_some_iff s c conn).mp hd).1,hk⟩
    · rw [hv,put_connections_ne s k hcd] at hc
      exact ⟨conn',hc,rfl⟩
  cases e with
  | message d now uuid data =>
    obtain ⟨conn,hd,_,ho⟩ := message_outcome h
    cases ho with
    | reply | relayed | chatted => exact .inr (.inl (hput _ d conn _ hd (by simp) rfl hc))
    | joined m roomId displayName =>
      exact .inr (.inl (hput _ d conn { conn.take cfg now with
        participant := some ⟨uuid,displayName,roomId,d⟩ } hd (by simp)
        (by simp [Server.enter,Server.charge,Server.put]) hc))
  | connection d now =>
    unfold Server.step at h
    split at h
    · cases h
      by_cases hcd : c = d
      · subst hcd
        rw [put_connections_self] at hc
        cases hc
        exact .inl rfl
      · rw [put_connections_ne s _ hcd] at hc
        exact .inr (.inl ⟨conn',hc,rfl⟩)
    · cases h
  | pong d =>
    unfold Server.step at h
    split at h
    · obtain ⟨conn,hd,h⟩ := Option.bind_eq_some_iff.mp h
      cases h
      exact .inr (.inl (hput _ d conn { conn with isAlive := true } hd rfl rfl hc))
    · cases h
  | heartbeat d =>
    unfold Server.step at h
    split at h
    · obtain ⟨conn,hd,h⟩ := Option.bind_eq_some_iff.mp h
      by_cases hcd : c = d
      · subst hcd
        split at h
        · cases h
          exact .inr (.inl (hput _ c conn { conn with isAlive := false } hd rfl rfl hc))
        · rename_i halive
          exact .inr (.inr (.inr (.inr ⟨rfl,conn,hd,by simpa using halive⟩)))
      · have hsame : s.connections c = some conn' := by
          split at h <;> cases h <;> rwa [put_connections_ne s _ hcd] at hc
        exact .inr (.inl ⟨conn',hsame,rfl⟩)
    · cases h
  | closing d =>
    by_cases hcd : c = d
    · exact .inr (.inr (.inl (by rw [hcd])))
    · unfold Server.step at h
      split at h
      · obtain ⟨conn,hd,h⟩ := Option.bind_eq_some_iff.mp h
        cases h
        rw [put_connections_ne s _ hcd] at hc
        exact .inr (.inl ⟨conn',hc,rfl⟩)
      · cases h
  | close d =>
    by_cases hcd : c = d
    · exact .inr (.inr (.inr (.inl (by rw [hcd]))))
    · have hsame : s.connections c = some conn' := by
        cases step_effect h with
        | kept _ d' conn k hd _ _ _ he =>
          rwa [put_connections_ne s _ (he ▸ hcd : c ≠ d')] at hc
        | left | closed =>
          simp only [Server.put,Function.update_of_ne hcd] at hc
          exact hc
      exact .inr (.inl ⟨conn',hsame,rfl⟩)

theorem gone_step (h : Building cfg w) {e : NetEvent} (hconf : w.Conforming e)
    (hadmitted : w.Admitted cfg e) (hstep : w.step cfg e = some u) (hg : w.Gone c) : u.Gone c := by
  obtain ⟨hl,hm,hr⟩ := hg
  cases net_effect hstep with
  | served e t out ht =>
    have hother : ∀ {d now uuid data}, c ≠ d →
        (w.serve (.message d now uuid data) t out).received c = w.received c :=
      fun hcd => (serve_received_message w _ _ _ _ t out c).trans (if_neg hcd)
    cases served_step h hconf hadmitted ht with
    | quiet _ _ hp hmsg =>
      exact ⟨hl,(hp c).trans hm,
        (congrFun (serve_received_quiet w t [] hmsg) c).trans hr⟩
    | refused d _ _ _ _ _ _ _ _ _ _ hsent hr' hp =>
      have hcd : c ≠ d := by
        rintro rfl
        rw [hsent,hr'] at hr
        cases hr
      exact ⟨hl,(hp c).trans hm,(hother hcd).trans hr⟩
    | joined d _ _ _ _ _ _ _ _ p _ hsent hr' _ hp =>
      have hcd : c ≠ d := by
        rintro rfl
        rw [hsent,hr'] at hr
        cases hr
      exact ⟨hl,(hp c hcd).trans hm,(hother hcd).trans hr⟩
    | relayed d _ _ _ _ _ _ _ _ hp _ hc =>
      have hcd : c ≠ d := by
        rintro rfl
        rw [hm] at hc
        cases hc
      exact ⟨hl,(hp c).trans hm,(hother hcd).trans hr⟩
  | requested d roomId displayName i hl' =>
    have hcd : c ≠ d := by
      rintro rfl
      rw [hl] at hl'
      cases hl'
    exact ⟨by simpa only [Net.send,Net.setClient,Function.update_of_ne hcd] using hl,hm,
      by simpa only [Net.send,Net.setClient,Function.update_of_ne hcd] using hr⟩
  | delivered d stream entry he hl' =>
    have hcd : c ≠ d := by
      rintro rfl
      rw [hl] at hl'
      cases hl'
    exact ⟨by simpa only [Net.setClient,Function.update_of_ne hcd] using hl,hm,hr⟩
  | acted d e s t out hs =>
    have hcd : c ≠ d := by
      rintro rfl
      rw [(h.presence.follows c).gone hl] at hs
      cases hs
    exact ⟨by simpa only [Net.output,Net.send,Net.setClient,Function.update_of_ne hcd] using hl,hm,
      by simpa only [Net.output,Net.send,Net.setClient,Function.update_of_ne hcd] using hr⟩
  | left d =>
    refine ⟨?_,hm,hr⟩
    by_cases hcd : c = d
    · subst hcd
      simp only [Net.setClient,Function.update_self]
      rfl
    · simpa only [Net.setClient,Function.update_of_ne hcd] using hl

theorem opened_step (h : Building cfg w) {e : NetEvent} (hconf : w.Conforming e)
    (hadmitted : w.Admitted cfg e) (hstep : w.step cfg e = some u) {conn' : Connection}
    (hc : u.server.connections c = some conn') : conn'.readyState = .opened ∨ u.Gone c := by
  have hstay : w.Gone c → u.Gone c := gone_step h hconf hadmitted hstep
  cases net_effect hstep with
  | requested | delivered | acted | left => exact (h.opened c conn' hc).imp_right hstay
  | served e t out ht =>
    rcases readyState_step ht hc with ho | ⟨conn,hold,ho⟩ | rfl | rfl | ⟨rfl,conn,halive,hdead⟩
    · exact .inl ho
    · rw [ho]
      exact (h.opened c conn hold).imp_right hstay
    · exact .inr (hstay hconf)
    · exact .inr (hstay hconf)
    · refine .inr (hstay (hconf.resolve_right (fun hall => ?_)))
      rw [hall conn halive] at hdead
      cases hdead

theorem mem_membersOf {s : Server} (hs : RoomStore cfg s) {id : JsString}
    (h : id ∈ ids (s.membersOf c)) : ∃ p d q, s.participantOf c = some p ∧
      s.participantOf d = some q ∧ q.id = id ∧ q.roomId = p.roomId := by
  unfold Server.membersOf at h
  cases hp : s.participantOf c with
  | none => rw [hp] at h; cases h
  | some p =>
    rw [hp,Option.elim_some,ids_public] at h
    obtain ⟨q,hq,rfl⟩ := List.mem_map.mp h
    obtain ⟨i,hi⟩ := ((s.roomOrNew p.roomId).mem_values_iff q).mp hq
    unfold Server.roomOrNew at hi
    cases hr : s.rooms.get p.roomId with
    | none => rw [hr] at hi; cases hi
    | some room =>
      rw [hr] at hi
      obtain ⟨_,hqr,hof⟩ := hs.participantOf hr hi rfl
      exact ⟨p,q.ws,q,rfl,hof,rfl,hqr⟩

theorem listed_step (h : Building cfg w) {e : NetEvent} (hstep : w.step cfg e = some u)
    {entry : Entry} (he : entry ∈ u.log c) {id : JsString} (hid : id ∈ ids entry.members) :
    ∃ p d q, u.server.participantOf c = some p ∧ u.server.participantOf d = some q ∧
      q.id = id ∧ q.roomId = p.roomId := by
  have hkeep (hold : entry ∈ w.log c) : ∃ p d q, u.server.participantOf c = some p ∧
      u.server.participantOf d = some q ∧ q.id = id ∧ q.roomId = p.roomId := by
    obtain ⟨p,d,q,hp,hq,hqid,hr⟩ := h.listed c entry hold id hid
    exact ⟨p,d,q,server_participantOf hp hstep,server_participantOf hq hstep,hqid,hr⟩
  obtain ⟨_,hl⟩ | ⟨ev,t,out,ht,rfl⟩ := net_server hstep
  · exact hkeep (hl ▸ he)
  · rcases mem_serve he with hold | ⟨_,_,hmembers⟩
    · exact hkeep hold
    · rw [hmembers] at hid
      exact mem_membersOf (roomStore_step h.presence.store ht) hid

theorem view_own {l m : List Entry} {own : JsString} {members : List PublicParticipant}
    (h : view l = some (own,members)) : ∃ members', view (l ++ m) = some (own,members') := by
  induction m using List.reverseRecOn with
  | nil => exact ⟨members,by simpa using h⟩
  | append_singleton m e ih =>
    obtain ⟨members',hm⟩ := ih
    rw [← List.append_assoc,view_append,hm]
    exact ⟨_,rfl⟩

theorem Building.heard (h : Building cfg w) {k : Nat} {own : JsString}
    {l : List PublicParticipant} (hv : view ((w.log c).take k) = some (own,l)) :
    ∃ p, w.server.participantOf c = some p ∧ p.id = own ∧ ∀ id ∈ ids l, ∃ d q,
      w.server.participantOf d = some q ∧ q.id = id ∧ q.roomId = p.roomId := by
  have hentry : ∃ e ∈ w.log c, e.members = l := by
    induction k generalizing own l with
    | zero => cases hv
    | succ k ih =>
      cases he : (w.log c)[k]? with
      | none =>
        have hlen := List.getElem?_eq_none_iff.mp he
        rw [List.take_of_length_le (by omega)] at hv ih
        exact ih hv
      | some e =>
        rw [take_succ_view he] at hv
        exact ⟨e,List.mem_of_getElem? he,(view_members (h.presence.heard c k e he) hv).1⟩
  have hsome : (w.server.participantOf c).isSome := by
    cases hst : h.stage c with
    | inside _ _ hm | joined _ _ _ _ _ hm => exact hm
    | asked _ _ _ _ _ _ hlog => rw [hlog] at hv; simp [view] at hv
    | outside hm _ _ hl =>
      have hnone : ∀ m : List Entry, (∀ e ∈ m, e.message.body.isReply) → view m = none := by
        intro m
        induction m using List.reverseRecOn with
        | nil => intro _; rfl
        | append_singleton m e ih =>
          intro hall
          rw [view_append,ih (fun e he => hall e (List.mem_append_left _ he))]
          have hb := hall e (by simp)
          cases hbody : e.message.body <;> simp [hbody,Body.isReply,Body.view] at hb ⊢
      rw [hnone _ (fun e he => hl e (List.mem_of_mem_take he))] at hv
      cases hv
  obtain ⟨p,hp⟩ := Option.isSome_iff_exists.mp hsome
  obtain ⟨_,_,_,_,hopen,_⟩ := h.member hp
  obtain ⟨members,hfull⟩ := view_own (m := (w.log c).drop k) hv
  rw [List.take_append_drop,h.presence.current c (.inl hopen),viewOf_eq hp] at hfull
  obtain ⟨e,he,rfl⟩ := hentry
  refine ⟨p,hp,(Prod.mk.inj (Option.some.inj hfull)).1,fun id hid => ?_⟩
  obtain ⟨p',d,q,hp',hq,hqid,hr⟩ := h.listed c e he id hid
  rw [hp,Option.some.injEq] at hp'
  subst p'
  exact ⟨d,q,hq,hqid,hr⟩

theorem said_step {P : JsString → Prop} {s t : Session} (h : Confined P s) {e : SessionEvent}
    {out : List Output} (he : e.isInternal) (hproper : e.proper)
    (hstep : s.step e = some (t,out)) {id : JsString} {sg : Signal}
    (ho : Output.send id sg ∈ out) : P id ∧ sg.accepted := by
  have hpeer : ∀ {id : JsString} {peer : Peer}, s.peers.get id = some peer → P id :=
    fun hp => h.peers _ (by simp [OrderedMap.has,hp])
  cases session_effect hstep with
  | queued | unheard | removed | ended => cases he
  | begun | assigned => simp at ho
  | skipped | rejected | unassigned | tracked | disconnected | replacing | published =>
    simp at ho
  | resumed j sdp kinds peer await hp hr hne =>
    rw [Peer.resume_out] at ho
    split at ho
    · obtain ⟨rfl,rfl⟩ := Output.send.inj (List.mem_singleton.mp ho)
      exact ⟨hpeer hp,hproper⟩
    · obtain ⟨rfl,rfl⟩ := Output.send.inj (List.mem_singleton.mp ho)
      exact ⟨hpeer hp,hproper⟩
    · cases ho
  | called | orphaned => cases Session.mem_answered ho
  | gathered j candidate peer hp hl =>
    obtain ⟨rfl,rfl⟩ := Output.send.inj (List.mem_singleton.mp ho)
    exact ⟨hpeer hp,hproper⟩

theorem addressed_step (h : Building cfg w) {e : NetEvent} (hconf : w.Conforming e)
    (hstep : w.step cfg e = some u) {id : JsString} {sg : Signal}
    (hm : .signal id sg ∈ u.sent c) : sg.accepted ∧ ∃ p d q,
      u.server.participantOf c = some p ∧ u.server.participantOf d = some q ∧ q.id = id ∧
        q.roomId = p.roomId ∧ d ≠ c := by
  have hkeep (hold : .signal id sg ∈ w.sent c) : sg.accepted ∧ ∃ p d q,
      u.server.participantOf c = some p ∧ u.server.participantOf d = some q ∧ q.id = id ∧
        q.roomId = p.roomId ∧ d ≠ c := by
    obtain ⟨hacc,p,d,q,hp,hq,hrest⟩ := h.addressed c id sg hold
    exact ⟨hacc,p,d,q,server_participantOf hp hstep,server_participantOf hq hstep,hrest⟩
  cases net_effect hstep with
  | served | delivered | left => exact hkeep hm
  | requested d roomId displayName i =>
    by_cases hcd : c = d
    · subst hcd
      simp only [Net.send,Net.setClient,Function.update_self,List.mem_append,
        List.mem_singleton,reduceCtorEq,or_false] at hm
      exact hkeep hm
    · simp only [Net.send,Net.setClient,Function.update_of_ne hcd] at hm
      exact hkeep hm
  | acted d e s t out hs hi ht =>
    by_cases hcd : c = d
    · subst hcd
      simp only [Net.output,Net.send,Net.setClient,Function.update_self,List.mem_append] at hm
      rcases hm with hm | hm
      · exact hkeep hm
      · obtain ⟨j,sg',heq,ho⟩ := mem_messages hm
        cases heq
        have hf := h.presence.follows c
        cases hv : view ((w.log c).take (w.handled c)) with
        | none =>
          cases hl : (w.clients c).listening with
          | false => rw [hf.gone hl] at hs; cases hs
          | true => rw [(hf.outside hv hl).1] at hs; cases hs
        | some v =>
          obtain ⟨own,l⟩ := v
          obtain ⟨_,hconfined⟩ := hf.inside own l s hv hs
          obtain ⟨⟨hid,hne⟩,hacc⟩ := said_step hconfined hi hconf.2 ht ho
          obtain ⟨p,hp,rfl,hall⟩ := h.heard hv
          obtain ⟨d,q,hq,rfl,hr⟩ := hall id hid
          refine ⟨hacc,p,d,q,hp,hq,rfl,hr,?_⟩
          rintro rfl
          rw [hp,Option.some.injEq] at hq
          exact hne (by rw [hq])
    · simp only [Net.output,Net.send,Net.setClient,Function.update_of_ne hcd] at hm
      exact hkeep hm

theorem lasting_step (h : Building cfg w) {e : NetEvent} (hconf : w.Conforming e)
    (hadmitted : w.Admitted cfg e) (hstep : w.step cfg e = some u) {entry : Entry}
    (he : entry ∈ u.log c) (id : JsString) : entry.message.body ≠ .participantLeft id := by
  cases net_effect hstep with
  | requested | delivered | acted | left => exact h.lasting c entry he id
  | served e t out ht =>
    rcases mem_serve he with hold | ⟨hm,hc,_⟩
    · exact h.lasting c entry hold id
    · cases served_step h hconf hadmitted ht with
      | quiet => cases hm
      | refused _ _ _ _ _ _ _ _ body requestId _ _ _ _ hb =>
        obtain ⟨_,hmessage⟩ := mem_send.mp hm
        rw [hmessage]
        rintro rfl
        cases hb
      | joined d _ _ _ _ _ _ _ _ p _ _ _ _ _ _ hown hout =>
        by_cases hd : entry.message.ws = d
        · have hmine := (List.mem_filter (p := fun m => m.ws = d)).mpr ⟨hm,decide_eq_true hd⟩
          rw [hown] at hmine
          rw [List.mem_singleton.mp hmine]
          simp
        · obtain ⟨⟨q,hb⟩,_⟩ := hout _ hm hd
          rw [hb]
          simp
      | relayed =>
        rw [List.mem_singleton.mp hm]
        simp

theorem building_step (h : Building cfg w) {e : NetEvent} (hconf : w.Conforming e)
    (hadmitted : w.Admitted cfg e) (hstep : w.step cfg e = some u) : Building cfg u where
  presence := presence_step h.presence hstep
  stage := staged_step h hconf hadmitted hstep
  opened := fun _ _ hc => opened_step h hconf hadmitted hstep hc
  addressed := fun _ _ _ hm => addressed_step h hconf hstep hm
  listed := fun _ _ he _ hid => listed_step h hstep he hid
  lasting := fun _ _ he => lasting_step h hconf hadmitted hstep he

theorem building_init (cfg : Config) : Building cfg Net.init where
  presence := presence_init cfg
  stage := fun _ => .outside rfl rfl rfl (fun _ he => by cases he) (fun _ _ => ⟨rfl,rfl⟩)
  opened := fun _ _ hc => by cases hc
  addressed := fun _ _ _ hm => by cases hm
  listed := fun _ _ he => by cases he
  lasting := fun _ _ he => by cases he

end

end MaiaMeet
