import MaiaMeet.RoomStore
set_option autoImplicit false

/-! The relay: who may cause a message, and what of the sender's payload survives in it. -/

namespace MaiaMeet

theorem get_append (l m : List (JsString × Json)) (name : JsString) :
    Json.get (.obj (l ++ m)) name = (Json.get (.obj l) name).or (Json.get (.obj m) name) := by
  simp only [Json.get,List.find?_append]
  cases List.find? (fun f => decide (f.1 = name)) l <;> simp

theorem get_singleton (name other : JsString) (v : Json) :
    Json.get (.obj [(other,v)]) name = if name = other then some v else none := by
  by_cases h : name = other
  · simp [Json.get,h]
  · simp [Json.get,h,Ne.symm h]

theorem get_field {α : Type} (name other : JsString) (render : α → Json) (v : Nullable α) :
    Json.get (.obj (v.field other render)) name =
      if name = other then v.read render else none := by
  cases v with
  | undefined => simp [Nullable.field,Nullable.read]
  | null => exact get_singleton name other .null
  | value a => exact get_singleton name other (render a)

def SignalType.fields : SignalType → List JsString
  | .offer | .answer => [js "sdp"]
  | .iceCandidate => [js "candidate",js "sdpMid",js "sdpMLineIndex"]

/-- The delivered payload, field by field: the sender's server-assigned id, the copied
fields as the sender wrote them, and nothing else. -/
theorem get_payload {payload : Json} {k : SignalType} {signal : Signal}
    (h : validSignal payload k = some signal) (participantId name : JsString) :
    (signal.payload participantId).get name =
      if name = js "participantId" then some (.str participantId)
      else if name ∈ k.fields then payload.get name else none := by
  have hid : ∀ other ∈ [js "sdp",js "candidate",js "sdpMid",js "sdpMLineIndex"],
      js "participantId" ≠ other := by decide
  cases k with
  | offer | answer =>
    obtain ⟨sdp,hs,rfl⟩ := Option.map_eq_some_iff.mp h
    have hsdp := validSdp_eq_some hs
    simp only [Signal.payload,Signal.forwarded,get_append,get_singleton,SignalType.fields,
      List.mem_singleton]
    by_cases hn : name = js "sdp"
    · rw [hn,if_pos rfl,if_neg (Ne.symm (hid _ (by simp))),if_pos rfl,hsdp]
      rfl
    · simp [hn]
  | iceCandidate =>
    obtain ⟨c,hc,rfl⟩ := Option.map_eq_some_iff.mp h
    obtain ⟨h₁,h₂,h₃⟩ := validCandidate_eq_some hc
    have hcm : js "candidate" ≠ js "sdpMid" := by decide
    have hci : js "candidate" ≠ js "sdpMLineIndex" := by decide
    have hmi : js "sdpMid" ≠ js "sdpMLineIndex" := by decide
    simp only [Signal.payload,Signal.forwarded,get_append,get_singleton,get_field,
      SignalType.fields,List.mem_cons,List.not_mem_nil,or_false]
    by_cases hp : name = js "participantId"
    · simp [hp,hid]
    by_cases hn : name = js "candidate"
    · simp [hn,Ne.symm (hid _ (by simp : js "candidate" ∈ _)),h₁]
    by_cases hm : name = js "sdpMid"
    · simp [hm,Ne.symm (hid _ (by simp : js "sdpMid" ∈ _)),Ne.symm hcm,hmi,h₂]
    by_cases hi : name = js "sdpMLineIndex"
    · simp [hi,Ne.symm (hid _ (by simp : js "sdpMLineIndex" ∈ _)),Ne.symm hci,Ne.symm hmi,h₃]
    · simp [hp,hn,hm,hi]

/-! ### Ids and names come from the server -/

theorem joinRequest_valid {payload : Json} {roomId displayName : JsString}
    (h : joinRequest payload = some (roomId,displayName)) :
    roomId.all isAlnum ∧ 3 ≤ roomId.length ∧ roomId.length ≤ 32 ∧
      displayName ≠ [] ∧ displayName.length ≤ 50 := by
  unfold joinRequest at h
  split at h
  · rename_i r d _ _
    split at h
    · rename_i hv
      simp only [Option.some.injEq,Prod.mk.injEq] at h
      obtain ⟨rfl,rfl⟩ := h
      exact ⟨hv.1.2.2,hv.1.1,hv.1.2.1,hv.2.1,Nat.le_trans (trim_length_le d) hv.2.2⟩
    · cases h
  · cases h

structure Assigned (s : Server) (c : ConnId) (p : Participant) : Prop where
  ws : p.ws = c
  id : p.id ∈ s.uuids
  name : p.displayName ≠ [] ∧ p.displayName.length ≤ 50
  room : p.roomId.all isAlnum ∧ 3 ≤ p.roomId.length ∧ p.roomId.length ≤ 32

def AllAssigned (s : Server) : Prop := ∀ c p, s.participantOf c = some p → Assigned s c p

theorem Assigned.mono {s t : Server} {c : ConnId} {p : Participant} (h : Assigned s c p)
    (hu : s.uuids ⊆ t.uuids) : Assigned t c p := ⟨h.ws,hu h.id,h.name,h.room⟩

theorem AllAssigned.put {s : Server} {c : ConnId} {conn : Connection} (h : AllAssigned s)
    (hp : ∀ p, conn.participant = some p → Assigned s c p) : AllAssigned (s.put c conn) := by
  intro d p hd
  rw [participantOf_put] at hd
  split at hd
  · rename_i hdc
    exact ((hdc ▸ hp p hd : Assigned s d p)).mono (fun _ hu => hu)
  · exact (h d p hd).mono (fun _ hu => hu)

theorem allAssigned_step {cfg : Config} {s t : Server} {e : ServerEvent} {out : List Sent}
    (hs : AllAssigned s) (h : s.step cfg e = some (t,out)) : AllAssigned t := by
  have hsame : ∀ c (conn conn' : Connection), s.alive c = some conn →
      conn'.participant = conn.participant → ∀ p, conn'.participant = some p → Assigned s c p :=
    fun c conn conn' hc he p hp => hs c p ((participantOf_alive hc).trans (he.symm.trans hp))
  cases step_effect h with
  | connected c now hc => exact hs.put (by simp)
  | handled c conn now uuid data t out hc hu ho =>
    have hissue : AllAssigned { s with uuids := uuid :: s.uuids } :=
      fun d p hd => (hs d p hd).mono (List.subset_cons_self uuid s.uuids)
    have hcharge : AllAssigned (s.charge cfg c conn now uuid) :=
      hissue.put (fun p hp => (hsame c conn _ hc (take_participant cfg now conn) p hp).mono
        (List.subset_cons_self uuid s.uuids))
    cases ho with
    | reply | relayed | chatted => exact hcharge
    | joined m roomId displayName htk hm hk hp hj hsize =>
      obtain ⟨ha,h3,h32,hne,h50⟩ := joinRequest_valid hj
      have hself : Assigned (s.charge cfg c conn now uuid) c ⟨uuid,displayName,roomId,c⟩ :=
        ⟨rfl,List.mem_cons_self,⟨hne,h50⟩,ha,h3,h32⟩
      have hput : AllAssigned ((s.charge cfg c conn now uuid).put c
          { conn.take cfg now with participant := some ⟨uuid,displayName,roomId,c⟩ }) :=
        hcharge.put (fun p hp => by cases hp; exact hself)
      exact fun d p hd => (hput d p hd).mono (fun _ hu => hu)
  | kept e c conn conn' hc hp hr ho he => exact hs.put (hsame c conn conn' hc hp)
  | left c conn p room hc hp hr =>
    have hput : AllAssigned (s.put c { conn with readyState := .closed }) :=
      hs.put (hsame c conn _ hc rfl)
    exact fun d q hd => (hput d q hd).mono (fun _ hu => hu)
  | closed c conn hc hp => exact hs.put (hsame c conn _ hc rfl)

theorem allAssigned_run {cfg : Config} {es : List ServerEvent} {w : Server × List Sent}
    (h : Server.run cfg es = some w) : AllAssigned w.1 := by
  refine Runs.exec_invariant (I := fun w => AllAssigned w.1) ?_ ?_ h
  · intro w e v hw hv
    obtain ⟨out,hstep,_⟩ := advance_eq_some.mp hv
    exact allAssigned_step hw hstep
  · intro c p hp
    simp [Server.participantOf,Server.init] at hp

/-! ### Every message has its author -/

/-- `m` is the one effect of a member's own message of that type, and goes to the other
member it names; the payload is the sender's but for the id, which is the server's. -/
def RelayedBy (s : Server) (e : ServerEvent) (out : List Sent) (m : Sent) (signal : Signal)
    (participantId : JsString) : Prop :=
  ∃ c now uuid data env p q room,
    e = .message c now uuid data ∧ envelope data = .ok env ∧ env.type = .signal signal.type ∧
    s.participantOf c = some p ∧ s.participantOf m.ws = some q ∧ m.ws ≠ c ∧
    s.rooms.get p.roomId = some room ∧ room.get p.id = some p ∧ room.get q.id = some q ∧
    env.payload.get (js "targetId") = some (.str q.id) ∧ participantId = p.id ∧ out = [m] ∧
    ∀ name, (signal.payload participantId).get name =
      if name = js "participantId" then some (.str p.id)
      else if name ∈ signal.type.fields then env.payload.get name else none

def SpeaksOf (s t : Server) (e : ServerEvent) (m : Sent) : Body → Prop
  | .chatMessage participantId displayName text _ =>
    ∃ c now uuid data env p, e = .message c now uuid data ∧ envelope data = .ok env ∧
      s.participantOf c = some p ∧ participantId = p.id ∧ displayName = p.displayName ∧
      chatText env.payload = some text
  | .participantJoined p =>
    ∃ c now uuid data env q, e = .message c now uuid data ∧ envelope data = .ok env ∧
      joinRequest env.payload = some (q.roomId,q.displayName) ∧ q.id = uuid ∧
      s.participantOf c = none ∧ t.participantOf c = some q ∧
      p.id = q.id ∧ p.displayName = q.displayName
  | .participantLeft participantId =>
    ∃ c q, e = .close c ∧ s.participantOf c = some q ∧ participantId = q.id
  | .roomJoined participantId roomId participants _ =>
    ∃ q room, t.participantOf m.ws = some q ∧ participantId = q.id ∧ roomId = q.roomId ∧
      t.rooms.get roomId = some room ∧
      participants.map (fun p => (p.id,p.displayName)) =
        room.values.map (fun r => (r.id,r.displayName)) ∧
      ∀ r ∈ room.values, t.participantOf r.ws = some r
  | _ => True

section
variable {cfg : Config} {s t : Server} {e : ServerEvent} {out : List Sent} {m : Sent}

theorem signal_relayedBy (hs : RoomStore cfg s) (h : s.step cfg e = some (t,out)) (hm : m ∈ out)
    {signal : Signal} {participantId : JsString} (hb : m.body = .signal signal participantId) :
    RelayedBy s e out m signal participantId := by
  cases step_effect h with
  | connected | kept | closed => cases hm
  | left c conn p room hc hp hr =>
    rw [body_of_broadcast hm] at hb
    cases hb
  | handled c conn now uuid data t out hc hu ho =>
    cases ho with
    | reply body requestId hrep =>
      obtain ⟨_,rfl⟩ := mem_send.mp hm
      subst hb
      cases hrep
    | joined env roomId displayName htk hm' hk hp hj hsize =>
      rcases List.mem_append.mp hm with hm | hm
      · obtain ⟨_,rfl⟩ := mem_send.mp hm
        cases hb
      · rw [body_of_broadcast hm] at hb
        cases hb
    | chatted env p room text htk hm' hk hp hr hx =>
      rw [body_of_broadcast hm] at hb
      cases hb
    | relayed env k p q room signal' htk hm' hk hp hr hq hne hv =>
      obtain ⟨hopen,rfl⟩ := mem_send.mp hm
      simp only [Body.signal.injEq] at hb
      obtain ⟨rfl,rfl⟩ := hb
      rw [take_participant] at hp
      have hr : s.rooms.get p.roomId = some room := hr
      obtain ⟨i,hi,hqi⟩ := targetOf_eq_some hq
      obtain ⟨hqid,hqr,hqof⟩ := hs.participantOf hr hqi rfl
      obtain ⟨hpw,room',hr',hpi⟩ := hs.joined c conn p hc hp
      rw [hr,Option.some.injEq] at hr'
      subst room'
      have hpof := (participantOf_alive hc).trans hp
      obtain ⟨htype,_⟩ := validSignal_forwarded hv
      refine ⟨c,now,uuid,data,env,p,q,room,rfl,hm',by rw [hk,htype],hpof,hqof,?_,hr,hpi,
        hqid ▸ hqi,hqid ▸ hi,rfl,?_,?_⟩
      · intro hw
        rw [show q.ws = c from hw,hpof,Option.some.injEq] at hqof
        exact hne (congrArg Participant.id hqof).symm
      · simp [Server.send,hopen]
      · intro name
        rw [htype]
        exact get_payload hv p.id name

theorem body_speaksOf (hs : RoomStore cfg s) (h : s.step cfg e = some (t,out)) (hm : m ∈ out) :
    SpeaksOf s t e m m.body := by
  have ht := roomStore_step hs h
  cases step_effect h with
  | connected | kept | closed => cases hm
  | left c conn p room hc hp hr =>
    obtain ⟨_,_,_,_,rfl⟩ := mem_broadcast.mp hm
    exact ⟨c,p,rfl,(participantOf_alive hc).trans hp,rfl⟩
  | handled c conn now uuid data t out hc hu ho =>
    have hof := participantOf_alive hc
    cases ho with
    | reply body requestId hrep =>
      obtain ⟨_,rfl⟩ := mem_send.mp hm
      cases body <;> trivial
    | relayed env k p q room signal htk hm' hk hp hr hq hne hv =>
      obtain ⟨_,rfl⟩ := mem_send.mp hm
      trivial
    | chatted env p room text htk hm' hk hp hr hx =>
      obtain ⟨_,_,_,_,rfl⟩ := mem_broadcast.mp hm
      rw [take_participant] at hp
      exact ⟨c,now,uuid,data,env,p,rfl,hm',hof.trans hp,rfl,rfl,hx⟩
    | joined env roomId displayName htk hm' hk hp hj hsize =>
      rw [take_participant] at hp
      have hself : ((s.charge cfg c conn now uuid).enter c (conn.take cfg now)
          ⟨uuid,displayName,roomId,c⟩).participantOf c = some ⟨uuid,displayName,roomId,c⟩ := by
        simp [Server.participantOf,enter_connections_self]
      rcases List.mem_append.mp hm with hm | hm
      · obtain ⟨_,rfl⟩ := mem_send.mp hm
        have hroom := enter_rooms_self (s.charge cfg c conn now uuid) c (conn.take cfg now)
          ⟨uuid,displayName,roomId,c⟩
        refine ⟨_,_,hself,rfl,rfl,hroom,?_,?_⟩
        · rw [Server.roomOrNew,hroom,Option.getD_some,List.map_map]
          rfl
        · intro r hr
          obtain ⟨i,hi⟩ := (OrderedMap.mem_values_iff _ r).mp hr
          exact (ht.participantOf hroom hi rfl).2.2
      · obtain ⟨_,_,_,_,rfl⟩ := mem_broadcast.mp hm
        exact ⟨c,now,uuid,data,env,_,rfl,hm',hj,rfl,hof.trans hp,hself,rfl,rfl⟩

/-- A message that the limiter lets through and validation accepts reaches its target. -/
theorem signal_delivered {c : ConnId} {conn : Connection} {now : Nat} {uuid i : JsString}
    {data : Data} {env : Envelope} {k : SignalType} {p q : Participant} {room : Room}
    {signal : Signal} (hs : RoomStore cfg s) (hc : s.alive c = some conn) (hu : uuid ∉ s.uuids)
    (htokens : 0 ≤ (conn.take cfg now).tokens) (henv : envelope data = .ok env)
    (hk : env.type = .signal k) (hp : conn.participant = some p)
    (hr : s.rooms.get p.roomId = some room) (hq : env.payload.get (js "targetId") = some (.str i))
    (hi : room.get i = some q) (hne : q.ws ≠ c) (ho : s.isOpen q.ws)
    (hv : validSignal env.payload k = some signal) :
    s.step cfg (.message c now uuid data) =
      some (s.charge cfg c conn now uuid,[⟨q.ws,.signal signal p.id,none⟩]) := by
  have htarget : targetOf room env.payload = some q := by simp [targetOf,hq,Json.string?,hi]
  obtain ⟨hpw,room',hr',hpi⟩ := hs.joined c conn p hc hp
  rw [hr,Option.some.injEq] at hr'
  subst room'
  have hid : q.id ≠ p.id := by
    intro he
    rw [(hs.participantOf hr hi rfl).1] at he
    rw [he,hpi,Option.some.injEq] at hi
    exact hne (hi ▸ hpw)
  have hopen : (s.charge cfg c conn now uuid).isOpen q.ws := by
    simpa [Server.isOpen,Server.charge,put_connections_ne _ _ hne] using ho
  have henabled : s.enabled (.message c now uuid data) := by
    simp [Server.enabled,hc,hu]
  have htokens' : ¬ (conn.take cfg now).tokens < 0 := by omega
  have hrelay : (s.charge cfg c conn now uuid).act c p now env =
      [⟨q.ws,.signal signal p.id,none⟩] := by
    have hr' : (s.charge cfg c conn now uuid).rooms.get p.roomId = some room := hr
    simp only [Server.act,hk,hr',Server.relay,htarget,Option.filter,ne_eq,hid,not_false_eq_true,
      decide_true,if_true,hv]
    simp [Server.send,hopen]
  simp only [Server.step,henabled,if_true,Server.handle,hc,Option.bind_eq_bind,Option.bind_some,
    Option.pure_def,Server.onMessage,htokens',if_false,henv,Server.dispatch,hk,take_participant,hp]
  exact congrArg (fun l => some (s.charge cfg c conn now uuid,l)) hrelay

end

/-- After any run, whatever the next event is: a relayed message is the work of a member of
the recipient's room who addressed it, carries that member's assigned id and validated
fields only, and goes nowhere else; conversely each such message is delivered once; all
other bodies name people as the server knows them. -/
theorem relay_authentic (cfg : Config) (es : List ServerEvent) (s : Server) (log : List Sent)
    (hrun : Server.run cfg es = some (s,log)) :
    (∀ e t out m, s.step cfg e = some (t,out) → m ∈ out →
      (∀ signal participantId, m.body = .signal signal participantId →
        RelayedBy s e out m signal participantId) ∧ SpeaksOf s t e m m.body) ∧
    (∀ c conn now uuid data env k p room i q signal, s.alive c = some conn → uuid ∉ s.uuids →
      0 ≤ (conn.take cfg now).tokens → envelope data = .ok env → env.type = .signal k →
      conn.participant = some p → s.rooms.get p.roomId = some room →
      env.payload.get (js "targetId") = some (.str i) → room.get i = some q → q.ws ≠ c →
      s.isOpen q.ws → validSignal env.payload k = some signal →
      ∃ t, s.step cfg (.message c now uuid data) = some (t,[⟨q.ws,.signal signal p.id,none⟩])) ∧
    (∀ c p, s.participantOf c = some p → Assigned s c p) := by
  have hs := roomStore_run hrun
  refine ⟨?_,?_,allAssigned_run hrun⟩
  · intro e t out m h hm
    exact ⟨fun signal participantId hb => signal_relayedBy hs h hm hb,body_speaksOf hs h hm⟩
  · intro c conn now uuid data env k p room i q signal hc hu htk henv hk hp hr hq hi hne ho hv
    exact ⟨_,signal_delivered hs hc hu htk henv hk hp hr hq hi hne ho hv⟩

def coupleRun : List ServerEvent :=
  [.connection 0 0,.connection 1 0,
    .message 0 1 (js "a") (joinMessage (js "room1") (js "Ann") (js "r0")),
    .message 1 2 (js "b") (joinMessage (js "room1") (js "Bob") (js "r1"))]

/-- An offer with a forged participantId and a stray field. -/
def forgedOffer : Data :=
  clientMessage (.signal .offer) [(js "targetId",.str (js "a")),(js "sdp",.str (js "v=0")),
    (js "participantId",.str (js "forged")),(js "extra",.bool true)] none

/-- The offer as it is relayed, and what the join of the second member told. -/
theorem relay_authentic_forged :
    (∃ s log, Server.run (defaultConfig []) coupleRun = some (s,log) ∧
      ∃ t, s.step (defaultConfig []) (.message 1 3 (js "c") forgedOffer) =
          some (t,[⟨0,.signal (.offer (js "v=0")) (js "b"),none⟩]) ∧
        RelayedBy s (.message 1 3 (js "c") forgedOffer)
          [⟨0,.signal (.offer (js "v=0")) (js "b"),none⟩]
          ⟨0,.signal (.offer (js "v=0")) (js "b"),none⟩ (.offer (js "v=0")) (js "b")) ∧
    ∃ s log t out, Server.run (defaultConfig []) coupleRun.dropLast = some (s,log) ∧
      s.step (defaultConfig [])
        (.message 1 2 (js "b") (joinMessage (js "room1") (js "Bob") (js "r1"))) = some (t,out) ∧
      out.map Sent.body = [.roomJoined (js "b") (js "room1")
          [⟨js "a",js "Ann"⟩,⟨js "b",js "Bob"⟩] (defaultConfig []).rtcConfig,
        .participantJoined ⟨js "b",js "Bob"⟩] ∧
      ∀ m ∈ out, SpeaksOf s t
        (.message 1 2 (js "b") (joinMessage (js "room1") (js "Bob") (js "r1"))) m m.body := by
  constructor
  · have hout : (Server.run (defaultConfig []) coupleRun).bind (fun w =>
        (w.1.step (defaultConfig []) (.message 1 3 (js "c") forgedOffer)).map Prod.snd) =
        some [⟨0,.signal (.offer (js "v=0")) (js "b"),none⟩] := by decide +kernel
    obtain ⟨⟨s,log⟩,hrun,hstep⟩ := Option.bind_eq_some_iff.mp hout
    obtain ⟨⟨t,out⟩,hstep,rfl⟩ := Option.map_eq_some_iff.mp hstep
    refine ⟨s,log,hrun,t,hstep,?_⟩
    exact ((relay_authentic (defaultConfig []) coupleRun s log hrun).1 _ t _ _ hstep
      List.mem_cons_self).1 _ _ rfl
  · have hout : (Server.run (defaultConfig []) coupleRun.dropLast).bind (fun w =>
        (w.1.step (defaultConfig [])
          (.message 1 2 (js "b") (joinMessage (js "room1") (js "Bob") (js "r1")))).map
          (fun r => r.2.map Sent.body)) =
        some [.roomJoined (js "b") (js "room1") [⟨js "a",js "Ann"⟩,⟨js "b",js "Bob"⟩]
          (defaultConfig []).rtcConfig,.participantJoined ⟨js "b",js "Bob"⟩] := by decide +kernel
    obtain ⟨⟨s,log⟩,hrun,hstep⟩ := Option.bind_eq_some_iff.mp hout
    obtain ⟨⟨t,out⟩,hstep,hbodies⟩ := Option.map_eq_some_iff.mp hstep
    refine ⟨s,log,t,out,hrun,hstep,hbodies,fun m hm => ?_⟩
    exact ((relay_authentic (defaultConfig []) coupleRun.dropLast s log hrun).1 _ t _ m hstep
      hm).2

end MaiaMeet
