import MaiaMeet.Negotiation
import MaiaMeet.Transcript
set_option autoImplicit false

/-! Presence: what a client shows of its room against the server's room map. -/

namespace MaiaMeet

structure Confined (P : JsString → Prop) (s : Session) : Prop where
  peers : ∀ id, s.peers.has id → P id
  queues : ∀ id, (s.queue id).waiting ≠ [] → id ∈ s.departed ∨ P id

section
variable {P : JsString → Prop} {s t : Session}

theorem confined_start (stream : Stream) {participants : List JsString}
    (h : ∀ id ∈ participants, P id) : Confined P (Session.start stream participants) where
  peers := by
    obtain ⟨queues,hs⟩ := Session.start_eq stream participants
    intro id hid
    rw [hs] at hid
    cases hid
  queues := by
    intro id hid
    rw [Session.queue_start] at hid
    refine .inr (h id ?_)
    by_contra hn
    simp [List.count_eq_zero_of_not_mem hn] at hid

theorem Confined.enqueue (h : Confined P s) {id : JsString} (hid : P id)
    (operation : Operation) : Confined P (s.enqueue id operation) where
  peers := h.peers
  queues := by
    intro j hj
    rw [Session.queue_enqueue] at hj
    split at hj
    · rename_i hji; exact .inr (hji ▸ hid)
    · exact h.queues j hj

theorem Confined.removePeer (h : Confined P s) (id : JsString) :
    Confined (fun j => P j ∧ j ≠ id) (s.removePeer id) where
  peers := by
    intro j hj
    rw [OrderedMap.has,Session.peers_removePeer] at hj
    split at hj
    · cases hj
    · rename_i hne; exact ⟨h.peers j hj,hne⟩
  queues := by
    intro j hj
    rw [Session.queue_removePeer] at hj
    split at hj
    · exact absurd rfl hj
    · rename_i hne
      exact (h.queues j hj).imp (List.mem_cons_of_mem id) (fun hp => ⟨hp,hne⟩)

theorem Confined.after (h : Confined P s) {id : JsString} (hid : P id)
    {waiting : List Operation} (hw : waiting ≠ [] → (s.queue id).waiting ≠ []) (turn : Turn) :
    Confined P (s.after id waiting turn).1 where
  peers := by
    intro j hj
    rw [OrderedMap.has,Session.peers_after] at hj
    split at hj
    · rename_i hji; exact hji ▸ hid
    · exact h.peers j hj
  queues := by
    intro j hj
    rw [Session.queue_after] at hj
    split at hj
    · rename_i hji
      exact hji ▸ h.queues id (hw hj)
    · exact h.queues j hj

theorem Confined.congr (h : Confined P s) (hp : ∀ id, t.peers.has id → s.peers.has id)
    (hq : ∀ id, (t.queue id).waiting ≠ [] → (s.queue id).waiting ≠ [])
    (hd : t.departed = s.departed) : Confined P t where
  peers := fun id hid => h.peers id (hp id hid)
  queues := fun id hid => by rw [hd]; exact h.queues id (hq id hid)

/-- What a session does by itself concerns its confined peers only. -/
theorem confined_step (h : Confined P s) {e : SessionEvent} {out : List Output}
    (he : e.isInternal) (hstep : s.step e = some (t,out)) :
    Confined P t ∧ ∀ id, Output.remoteTrack id ∈ out → P id := by
  have hpeer : ∀ {id : JsString} {peer : Peer}, s.peers.get id = some peer → P id :=
    fun hp => h.peers _ (by simp [OrderedMap.has,hp])
  have hsend : ∀ {id sdp : JsString} {kinds : List Kind} {peer : Peer} {await : Await} (j),
      Output.remoteTrack j ∉ (peer.resume s.localStream id sdp kinds await).out := by
    intro id sdp kinds peer await j hj
    rw [Peer.resume_out] at hj
    split at hj <;> simp at hj
  cases session_effect hstep with
  | queued | unheard | removed | ended => cases he
  | begun id operation waiting peer hq ha hp =>
    have hid : P id := by
      have hdeparted : id ∉ s.departed := by
        simp only [Session.accepts,Bool.and_eq_true,Bool.not_eq_true'] at ha
        simpa using ha.2
      exact (h.queues id (by simp [hq])).resolve_left hdeparted
    exact ⟨h.after hid (fun _ => by simp [hq]) _,by simp⟩
  | skipped id operation waiting hq ha =>
    refine ⟨h.congr (fun _ hp => hp) (fun j hj => ?_) rfl,by simp⟩
    rw [Session.queue_set j rfl] at hj
    split at hj
    · rename_i hji; simp [hji,hq]
    · exact hj
  | resumed id sdp kinds peer await hp hr hne =>
    exact ⟨h.after (hpeer hp) (fun hw => hw) _,fun j hj => absurd hj (hsend j)⟩
  | rejected id peer await hp hr =>
    refine ⟨h.congr (fun _ hp => hp) (fun j hj => ?_) rfl,by simp⟩
    rw [Session.queue_failed] at hj
    split at hj
    · rename_i hji; exact hji ▸ hj
    · exact hj
  | assigned id index peer u track calls hp => exact ⟨h.after (hpeer hp) (fun hw => hw) _,by simp⟩
  | unassigned id index peer u track calls hp => exact ⟨h.after (hpeer hp) (fun hw => hw) _,by simp⟩
  | called id index ok peer u n track calls hp hu hc =>
    refine ⟨h.congr (fun j hj => ?_) (fun j hj => ?_) (by simp),fun j hj => ?_⟩
    · rw [Session.answered_peers,OrderedMap.has,OrderedMap.get_set] at hj
      split at hj
      · rename_i hji; simp [OrderedMap.has,hji,hp]
      · exact hj
    · rw [Session.queue_answered] at hj
      exact hj
    · cases Session.mem_answered hj
  | orphaned n id ok hp =>
    refine ⟨h.congr (fun j hj => ?_) (fun j hj => ?_) (by simp),fun j hj => ?_⟩
    · rwa [Session.answered_peers] at hj
    · rwa [Session.queue_answered] at hj
    · cases Session.mem_answered hj
  | gathered | disconnected => exact ⟨h,by simp⟩
  | tracked id hp =>
    refine ⟨h,fun j hj => ?_⟩
    simp only [List.mem_singleton,Output.remoteTrack.injEq] at hj
    exact hj ▸ h.peers id hp
  | replacing oldTrack newTrack =>
    refine ⟨h.congr (fun j hj => ?_) (fun _ hj => hj) rfl,by simp⟩
    rw [OrderedMap.has,Session.peers_replaceTrack,Option.isSome_map] at hj
    exact hj
  | published r hr hw => exact ⟨h.congr (fun _ hj => hj) (fun _ hj => hj) rfl,by simp⟩

end

theorem Confined.mono {P Q : JsString → Prop} {s : Session} (h : Confined P s)
    (hPQ : ∀ id, P id → Q id) : Confined Q s where
  peers := fun id hid => hPQ id (h.peers id hid)
  queues := fun j hj => (h.queues j hj).imp id (hPQ j)

structure Shows (own : JsString) (l : List PublicParticipant) (c : Client) : Prop where
  self : c.room.localParticipantId = some own
  participants : c.room.participants.entries = l.map (fun p => (p.id,p))
  tiles : c.tiles = .self :: ((ids l).filter (· ≠ own)).map .peer

section
variable {own : JsString} {l : List PublicParticipant} {c : Client}

theorem Shows.has (h : Shows own l c) (id : JsString) :
    c.room.participants.has id ↔ id ∈ ids l := by
  rw [OrderedMap.has,OrderedMap.get_isSome_iff,OrderedMap.keys,h.participants,List.map_map]
  rfl

theorem Shows.mem_tiles (h : Shows own l c) (id : JsString) :
    Tile.peer id ∈ c.tiles ↔ id ∈ ids l ∧ id ≠ own := by
  rw [h.tiles]
  simp

theorem Shows.addParticipant (h : Shows own l c) {p : PublicParticipant} (hp : p.id ∉ ids l) :
    Shows own (l ++ [p]) (c.addParticipant p) where
  self := h.self
  participants := by
    have hnew : c.room.participants.get p.id = none := by
      rw [← Option.not_isSome_iff_eq_none]
      exact fun hs => hp ((h.has p.id).mp hs)
    rw [Client.addParticipant]
    simp only
    rw [OrderedMap.entries_set_new p hnew,h.participants]
    simp
  tiles := by
    have hn : Tile.peer p.id ∉ c.tiles := fun ht => hp ((h.mem_tiles p.id).mp ht).1
    simp only [Client.addParticipant,h.self,hn,not_false_eq_true,and_true]
    by_cases he : p.id = own
    · simp [he,h.tiles,ids]
    · simp [he,h.tiles,ids]

theorem Shows.foldl_addParticipant {participants : List PublicParticipant} (h : Shows own l c)
    (hn : (ids (l ++ participants)).Nodup) :
    Shows own (l ++ participants) (participants.foldl Client.addParticipant c) := by
  induction participants generalizing l c with
  | nil => simpa using h
  | cons p participants ih =>
    have hp : p.id ∉ ids l := by
      intro hmem
      rw [ids,List.map_append,List.nodup_append] at hn
      exact hn.2.2 p.id hmem p.id (by simp) rfl
    have hsplit : l ++ p :: participants = (l ++ [p]) ++ participants := by simp
    rw [hsplit] at hn ⊢
    exact ih (h.addParticipant hp) hn

theorem Shows.removeParticipant (h : Shows own l c) (hn : (ids l).Nodup) (id : JsString) :
    Shows own (l.filter (fun p => p.id ≠ id)) (c.removeParticipant id) := by
  by_cases hid : id ∈ ids l
  · rw [Client.removeParticipant,if_pos ((h.has id).mpr hid)]
    refine ⟨h.self,?_,?_⟩
    · simp only [OrderedMap.entries_delete,h.participants,List.filter_map]
      rfl
    · have htiles : c.tiles.Nodup := by
        rw [h.tiles]
        refine List.nodup_cons.mpr ⟨by simp,?_⟩
        exact (hn.filter _).map (fun a b hab => Tile.peer.inj hab)
      simp only [htiles.erase_eq_filter]
      rw [h.tiles]
      have hself : (Tile.self != Tile.peer id) = true := rfl
      rw [List.filter_cons,if_pos hself]
      simp only [ids,List.filter_map,Function.comp_def,List.filter_filter,List.map_map]
      congr 2
      apply List.filter_congr
      intro p _
      by_cases hp : p.id = id <;> by_cases hpo : p.id = own <;> simp [hp,hpo]
  · have hsame : l.filter (fun p => p.id ≠ id) = l := by
      rw [List.filter_eq_self]
      intro p hp
      have : p.id ≠ id := fun he => hid (he ▸ List.mem_map_of_mem hp)
      simpa using this
    rw [hsame,Client.removeParticipant,if_neg (fun hs => hid ((h.has id).mp hs))]
    exact h

end

structure Follows (v : View) (c : Client) : Prop where
  gone : c.listening = false → c.session = none
  outside : v = none → c.listening = true →
    c.session = none ∧ c.room = RoomState.empty ∧ c.tiles = [.self]
  inside : ∀ own l s, v = some (own,l) → c.session = some s →
    Shows own l c ∧ Confined (fun id => id ∈ ids l ∧ id ≠ own) s

theorem follows_left (v : View) (c : Client) : Follows v c.leaveRoom where
  gone := fun _ => rfl
  outside := fun _ h => by cases h
  inside := fun _ _ _ _ h => by cases h

theorem removeParticipant_session (c : Client) (id : JsString) :
    (c.removeParticipant id).session = c.session := by
  unfold Client.removeParticipant
  split <;> rfl

theorem emit_listening (c : Client) (b : Body) : (c.emit b).listening = c.listening := by
  cases b with
  | participantLeft id =>
    simp only [Client.emit,Client.removeParticipant]
    split <;> rfl
  | participantJoined | signal | roomJoined | error | pong | roomCreated | chatMessage => rfl

def Session.hear (s : Session) : Body → Session
  | .participantLeft id => s.removePeer id
  | .signal signal id => if s.closed then s else s.enqueue id (.handle signal)
  | _ => s

theorem emit_session (c : Client) (b : Body) :
    (c.emit b).session = c.session.map (fun s => s.hear b) := by
  have hid : c.session = c.session.map (fun s => s) := by simp
  cases b with
  | participantLeft id => rw [Client.emit,removeParticipant_session]; rfl
  | signal => rfl
  | participantJoined | roomJoined | error | pong | roomCreated | chatMessage => exact hid

theorem follows_emit {own : JsString} {l : List PublicParticipant} {c : Client} {s : Session}
    {e : Entry} (hshow : Shows own l c) (hconf : Confined (fun id => id ∈ ids l ∧ id ≠ own) s)
    (hn : (ids l).Nodup) (he : Hears (some (own,l)) e) :
    Shows own (e.message.body.apply l) (c.emit e.message.body) ∧
      Confined (fun id => id ∈ ids (e.message.body.apply l) ∧ id ≠ own)
        (s.hear e.message.body) := by
  obtain ⟨hmembers,hnodup,hown,hjoin,hsignal⟩ := he
  rw [hmembers] at hnodup hown hsignal
  cases hb : e.message.body with
  | participantJoined p =>
    rw [hb] at hnodup
    have hp : p.id ∉ ids l := by
      intro hmem
      rw [Body.apply,ids,List.map_append,List.nodup_append] at hnodup
      exact hnodup.2.2 p.id hmem p.id (by simp) rfl
    refine ⟨hshow.addParticipant hp,hconf.mono (fun id hid => ⟨?_,hid.2⟩)⟩
    simp only [Body.apply,ids,List.map_append,List.mem_append]
    exact .inl hid.1
  | participantLeft id =>
    have hbase : Shows own l { c with session := c.session.map (fun s : Session => s.removePeer id) } :=
      ⟨hshow.self,hshow.participants,hshow.tiles⟩
    refine ⟨hbase.removeParticipant hn id,(hconf.removePeer id).mono ?_⟩
    rintro j ⟨⟨hj,hjo⟩,hji⟩
    refine ⟨?_,hjo⟩
    obtain ⟨p,hp,rfl⟩ := List.mem_map.mp hj
    exact List.mem_map_of_mem (List.mem_filter.mpr ⟨hp,by simpa using hji⟩)
  | signal sg id =>
    rw [hb] at hsignal
    obtain ⟨hid,hio⟩ := hsignal sg id rfl
    refine ⟨⟨hshow.self,hshow.participants,hshow.tiles⟩,?_⟩
    simp only [Session.hear]
    split
    · exact hconf
    · exact hconf.enqueue ⟨hid,hio⟩ _
  | roomJoined own' roomId participants rtcConfig => exact absurd hb (hjoin _ _ _ _)
  | error | pong | roomCreated | chatMessage => exact ⟨hshow,hconf⟩

/-- Handling the next message keeps a client at the view of what it has handled. -/
theorem follows_handle {v : View} {c : Client} (h : Follows v c) (hl : c.listening = true)
    (hn : ∀ own l, v = some (own,l) → (ids l).Nodup) {e : Entry} (he : Hears v e)
    (stream : Stream) : Follows (e.message.body.view v) (c.handleMessage stream e.message) := by
  unfold Client.handleMessage
  split
  · -- the message settles the request for room.join
    cases hb : e.message.body with
    | roomJoined own roomId participants rtcConfig =>
      cases v with
      | some v => exact absurd hb (he.2.2.2.1 _ _ _ _)
      | none =>
        obtain hreply | ⟨own',_,_,hb',hnodup,_⟩ := he
        · rw [hb] at hreply; cases hreply
        · rw [hb] at hb'
          cases hb'
          obtain ⟨hsession,hroom,htiles⟩ := h.outside rfl hl
          have hbase : Shows own [] { c with pending := none, room := { c.room with
              localParticipantId := some own } } :=
            ⟨rfl,by simp [hroom,RoomState.empty],by simp [htiles,ids]⟩
          have hshow := hbase.foldl_addParticipant hnodup
          refine ⟨fun hl' => ?_,fun hv => (by cases hv),?_⟩
          · have hlisten : ∀ (ps : List PublicParticipant) (d : Client),
                (ps.foldl Client.addParticipant d).listening = d.listening := by
              intro ps
              induction ps with
              | nil => intro d; rfl
              | cons p ps ih => intro d; exact ih _
            have hl'' := (hlisten e.members _).symm.trans hl'
            exact absurd (hl.symm.trans hl'') (by simp)
          · intro own' l s hv hs
            cases hv
            cases hs
            refine ⟨⟨hshow.self,hshow.participants,hshow.tiles⟩,confined_start stream ?_⟩
            intro id hid
            obtain ⟨p,hp,rfl⟩ := List.mem_map.mp hid
            obtain ⟨hp,hne⟩ := List.mem_filter.mp hp
            exact ⟨List.mem_map_of_mem hp,by simpa using hne⟩
    | participantJoined | participantLeft | signal | error | pong | roomCreated | chatMessage =>
      exact follows_left _ _
  · cases v with
    | none =>
      have hemit : c.emit e.message.body = c := by
        obtain hreply | ⟨_,_,_,hb,_⟩ := he
        · cases hb : e.message.body <;> first | rfl | (rw [hb] at hreply; cases hreply)
        · rw [hb]; rfl
      rw [hemit]
      obtain ⟨hsession,hroom,htiles⟩ := h.outside rfl hl
      exact ⟨h.gone,fun _ _ => ⟨hsession,hroom,htiles⟩,
        fun own l s _ hs => by rw [hsession] at hs; cases hs⟩
    | some v =>
      obtain ⟨own,l⟩ := v
      refine ⟨fun hl' => ?_,fun hv => (by cases hv),?_⟩
      · rw [emit_listening,hl] at hl'
        cases hl'
      · intro own' l' t hv ht
        cases hv
        rw [emit_session,Option.map_eq_some_iff] at ht
        obtain ⟨s,hs,rfl⟩ := ht
        obtain ⟨hshow,hconf⟩ := h.inside own l s rfl hs
        exact follows_emit hshow hconf (hn own l rfl) he

theorem follows_output {own : JsString} {l : List PublicParticipant} {c : Client}
    (h : Shows own l c) {out : List Output}
    (ho : ∀ id, Output.remoteTrack id ∈ out → id ∈ ids l ∧ id ≠ own) :
    out.foldl Client.output c = c := by
  induction out with
  | nil => rfl
  | cons o out ih =>
    have hc : c.output o = c := by
      cases o with
      | remoteTrack id =>
        have htile := (h.mem_tiles id).mpr (ho id List.mem_cons_self)
        rw [Client.output,Client.onRemoteTrack,if_pos htile]
      | send | error | replaced | replaceFailed => rfl
    rw [List.foldl_cons,hc]
    exact ih (fun id hid => ho id (List.mem_cons_of_mem o hid))

structure Presence (cfg : Config) (w : Net) : Prop where
  store : RoomStore cfg w.server
  current : ∀ c, w.server.isOpen c ∨ w.server.connections c = none →
    view (w.log c) = w.server.viewOf c
  heard : ∀ c k e, (w.log c)[k]? = some e → Hears (view ((w.log c).take k)) e
  within : ∀ c, w.handled c ≤ (w.log c).length
  follows : ∀ c, Follows (view ((w.log c).take (w.handled c))) (w.clients c)

theorem view_append (l : List Entry) (e : Entry) :
    view (l ++ [e]) = e.message.body.view (view l) := by
  simp [view]

theorem view_members {v : View} {e : Entry} (he : Hears v e) {own : JsString}
    {l : List PublicParticipant} (hv : e.message.body.view v = some (own,l)) :
    e.members = l ∧ (ids l).Nodup := by
  cases v with
  | none =>
    obtain hreply | ⟨own',roomId,rtcConfig,hb,hn,_⟩ := he
    · cases hb : e.message.body <;> simp [hb,Body.isReply,Body.view] at hreply hv
    · rw [hb] at hv
      cases hv
      exact ⟨rfl,hn⟩
  | some v =>
    obtain ⟨hm,hn,_⟩ := he
    cases hv
    exact ⟨hm,hm ▸ hn⟩

theorem take_succ_view {log : List Entry} {k : Nat} {e : Entry} (h : log[k]? = some e) :
    view (log.take (k + 1)) = e.message.body.view (view (log.take k)) := by
  rw [List.take_add_one,h,← view_append]
  rfl

section
variable {cfg : Config} {w u : Net}

theorem Presence.view_nodup (h : Presence cfg w) {c : ConnId} {k : Nat} {own : JsString}
    {l : List PublicParticipant} (hv : view ((w.log c).take k) = some (own,l)) :
    (ids l).Nodup := by
  induction k with
  | zero => cases hv
  | succ k ih =>
    cases he : (w.log c)[k]? with
    | none =>
      have hlen := List.getElem?_eq_none_iff.mp he
      rw [List.take_of_length_le (by omega)] at hv ih
      exact ih hv
    | some e =>
      rw [take_succ_view he] at hv
      exact (view_members (h.heard c k e he) hv).2

theorem open_before {s t : Server} {e : ServerEvent} {out : List Sent} {c : ConnId}
    (h : s.step cfg e = some (t,out)) (ho : t.isOpen c ∨ t.connections c = none) :
    s.isOpen c ∨ s.connections c = none := by
  have hput : ∀ (u : Server) d conn conn', s.alive d = some conn →
      (conn'.readyState = .opened → conn.readyState = .opened) →
      u.connections = (s.put d conn').connections → u.isOpen c ∨ u.connections c = none →
      s.isOpen c ∨ s.connections c = none := by
    intro u d conn conn' hd hopen hu ho
    rw [Server.isOpen,hu] at ho
    by_cases hcd : c = d
    · subst hcd
      obtain ⟨hs,_⟩ := (alive_eq_some_iff s c conn).mp hd
      simp only [put_connections_self,Option.any_some,decide_eq_true_eq] at ho
      rcases ho with ho | ho
      · exact .inl (isOpen_iff.mpr ⟨conn,hs,hopen ho⟩)
      · cases ho
    · rw [put_connections_ne s conn' hcd] at ho
      exact ho
  cases step_effect h with
  | connected d now hd =>
    by_cases hcd : c = d
    · exact .inr (hcd ▸ hd)
    · rw [Server.isOpen,put_connections_ne s _ hcd] at ho
      exact ho
  | kept e d conn conn' hd hp hr hopen he => exact hput _ d conn conn' hd hopen rfl ho
  | left d conn p room hd hp hr => exact hput _ d conn _ hd (by simp) rfl ho
  | closed d conn hd hp => exact hput _ d conn _ hd (by simp) rfl ho
  | handled d conn now uuid data t out hd hu hout =>
    have htake : (conn.take cfg now).readyState = .opened → conn.readyState = .opened := by
      simp
    cases hout with
    | reply | relayed | chatted => exact hput _ d conn _ hd htake rfl ho
    | joined env roomId displayName =>
      refine hput _ d conn { conn.take cfg now with
        participant := some ⟨uuid,displayName,roomId,d⟩ } hd htake ?_ ho
      simp [Server.enter,Server.charge,Server.put]

theorem presence_server (h : Presence cfg w) {e : ServerEvent} {t : Server} {out : List Sent}
    (hstep : w.server.step cfg e = some (t,out)) : Presence cfg (w.serve e t out) := by
  have hts := roomStore_step h.store hstep
  have hopen : ∀ c, (out.filter (fun m => m.ws = c)) ≠ [] → t.isOpen c := by
    intro c hne
    obtain ⟨m,hm⟩ := List.exists_mem_of_ne_nil _ hne
    obtain ⟨hm,hmc⟩ := List.mem_filter.mp hm
    have ho := step_out_open hstep hm
    rwa [of_decide_eq_true hmc] at ho
  refine ⟨hts,fun c ho => ?_,fun c k e he => ?_,fun c => ?_,fun c => ?_⟩
  · have hcurrent := h.current c (open_before hstep ho)
    have htold := told_step h.store hstep c
    generalize hmine : out.filter (fun m => m.ws = c) = mine at htold
    simp only [Net.serve,hmine]
    cases htold with
    | nothing hv => simpa using hcurrent.trans (hv ho).symm
    | one m hm hv =>
      simp only [List.map_cons,List.map_nil]
      rw [view_append,hcurrent]
      exact hv.symm
  · have htold := told_step h.store hstep c
    generalize hmine : out.filter (fun m => m.ws = c) = mine at htold
    simp only [Net.serve,hmine] at he ⊢
    cases htold with
    | nothing hv => simpa using h.heard c k e (by simpa using he)
    | one m hm hv =>
      have hcurrent := h.current c (open_before hstep (.inl (hopen c (by simp [hmine]))))
      simp only [List.map_cons,List.map_nil] at he ⊢
      rcases Nat.lt_trichotomy k (w.log c).length with hk | hk | hk
      · rw [List.getElem?_append_left hk] at he
        rw [List.take_append_of_le_length (Nat.le_of_lt hk)]
        exact h.heard c k e he
      · subst hk
        rw [List.getElem?_concat_length,Option.some.injEq] at he
        rw [List.take_left,hcurrent,← he]
        exact hm
      · rw [List.getElem?_eq_none (by simp; omega)] at he
        cases he
  · exact Nat.le_trans (h.within c) (by simp [Net.serve])
  · simp only [Net.serve]
    rw [List.take_append_of_le_length (h.within c)]
    exact h.follows c

theorem Presence.client (h : Presence cfg w) {c : ConnId} {client : Client}
    (hc : Follows (view ((w.log c).take (w.handled c))) client) :
    Presence cfg (w.setClient c client) := by
  refine ⟨h.store,h.current,h.heard,h.within,fun d => ?_⟩
  by_cases hdc : d = c
  · subst hdc
    simpa only [Net.setClient,Function.update_self] using hc
  · simpa only [Net.setClient,Function.update_of_ne hdc] using h.follows d

theorem Presence.send (h : Presence cfg w) (c : ConnId) (messages : List ClientMessage) :
    Presence cfg (w.send c messages) := ⟨h.store,h.current,h.heard,h.within,h.follows⟩

theorem presence_step (h : Presence cfg w) {e : NetEvent} (hstep : w.step cfg e = some u) :
    Presence cfg u := by
  cases net_effect hstep with
  | served e t out ht => exact presence_server h ht
  | requested c roomId displayName requestId hl hp hs =>
    have hc := h.follows c
    have hc' : Follows (view ((w.log c).take (w.handled c)))
        { w.clients c with pending := some requestId } := by
      refine ⟨hc.gone,hc.outside,fun own l s hv hs => ?_⟩
      obtain ⟨hshow,hconf⟩ := hc.inside own l s hv hs
      exact ⟨⟨hshow.self,hshow.participants,hshow.tiles⟩,hconf⟩
    exact (h.client hc').send c _
  | delivered c stream entry he hl =>
    refine ⟨h.store,h.current,h.heard,fun d => ?_,fun d => ?_⟩
    · by_cases hdc : d = c
      · subst hdc
        simp only [Function.update_self]
        exact (List.getElem?_eq_some_iff.mp he).1
      · simp only [Function.update_of_ne hdc]
        exact h.within d
    · by_cases hdc : d = c
      · subst hdc
        simp only [Net.setClient,Function.update_self]
        rw [take_succ_view he]
        exact follows_handle (h.follows d) hl (fun own l hv => h.view_nodup hv)
          (h.heard d _ entry he) stream
      · simp only [Net.setClient,Function.update_of_ne hdc]
        exact h.follows d
  | acted c e s t out hs hi ht =>
    refine (h.client ?_).send c _
    have hc := h.follows c
    cases hv : view ((w.log c).take (w.handled c)) with
    | none =>
      cases hl : (w.clients c).listening with
      | false => rw [hc.gone hl] at hs; cases hs
      | true => rw [(hc.outside hv hl).1] at hs; cases hs
    | some v =>
      obtain ⟨own,l⟩ := v
      obtain ⟨hshow,hconf⟩ := hc.inside own l s hv hs
      obtain ⟨hconf',hout⟩ := confined_step hconf hi ht
      have hshow' : Shows own l { w.clients c with session := some t } :=
        ⟨hshow.self,hshow.participants,hshow.tiles⟩
      rw [follows_output hshow' hout]
      refine ⟨fun hl => ?_,fun hv => (by cases hv),?_⟩
      · rw [hc.gone hl] at hs
        cases hs
      · intro own' l' s' hv' hs'
        cases hv'
        cases hs'
        exact ⟨hshow',hconf'⟩
  | left c => exact h.client (follows_left _ _)

theorem presence_init (cfg : Config) : Presence cfg Net.init where
  store := roomStore_init cfg
  current := by simp [Net.init,Server.viewOf,Server.participantOf,Server.init,view]
  heard := by simp [Net.init]
  within := by simp [Net.init]
  follows := fun _ => ⟨fun h => (by cases h),fun _ _ => ⟨rfl,rfl,rfl⟩,
    fun _ _ _ hv => (by cases hv)⟩

theorem presence_run {es : List NetEvent} (h : Runs.exec (Net.step cfg) Net.init es = some w) :
    Presence cfg w :=
  Runs.exec_invariant (fun _ _ _ hw hu => presence_step hw hu) (presence_init cfg) h

end

structure Client.ShowsRoom (c : Client) (p : Participant) (room : Room) : Prop where
  self : c.room.localParticipantId = some p.id
  participants : c.room.participants.entries =
    room.values.map (fun q => (q.id,⟨q.id,q.displayName⟩))
  tiles : c.tiles = .self :: ((room.values.map Participant.id).filter (· ≠ p.id)).map .peer

section
variable {cfg : Config} {w u : Net} {c : ConnId}

theorem Follows.shows_room {t : Server} (ht : RoomStore cfg t) (ho : t.isOpen c) {client : Client}
    {s : Session} (hc : Follows (t.viewOf c) client) (hs : client.session = some s) :
    ∃ p room, t.participantOf c = some p ∧ t.rooms.get p.roomId = some room ∧
      client.ShowsRoom p room ∧
      Confined (fun id => id ∈ room.values.map Participant.id ∧ id ≠ p.id) s := by
  cases hp : t.participantOf c with
  | none =>
    rw [viewOf_none hp] at hc
    cases hl : client.listening with
    | false =>
      rw [hc.gone hl] at hs
      cases hs
    | true =>
      rw [(hc.outside rfl hl).1] at hs
      cases hs
  | some p =>
    obtain ⟨conn,ha⟩ := isOpen_alive ho
    obtain ⟨room,hr,_⟩ := ht.own_entry ha hp
    rw [viewOf_eq hp,membersOf_eq hp hr] at hc
    obtain ⟨hshow,hconf⟩ := hc.inside p.id _ s rfl hs
    rw [ids_public] at hconf
    refine ⟨p,room,rfl,hr,⟨hshow.self,?_,?_⟩,hconf⟩
    · rw [hshow.participants,List.map_map]
      rfl
    · rw [hshow.tiles,ids_public]

theorem log_grows {es : List NetEvent} (h : Runs.exec (Net.step cfg) w es = some u)
    (c : ConnId) : w.log c <+: u.log c := by
  refine Runs.exec_invariant (I := fun u : Net => w.log c <+: u.log c) ?_ (List.prefix_refl _) h
  intro v e v' hv hstep
  obtain ⟨_,hl⟩ | ⟨ev,t,out,_,rfl⟩ := net_server hstep
  · rwa [hl]
  · exact hv.trans (List.prefix_append _ _)

/-- A log comes to a length by a step of the server, one message at a time and to an open
socket. -/
theorem log_reaches {e : NetEvent} {n : Nat} (hw : Presence cfg w) (h : w.step cfg e = some u)
    (hbefore : (w.log c).length < n) (hafter : n ≤ (u.log c).length) :
    ∃ ev, e = .server ev ∧ u.server.isOpen c ∧ (u.log c).length = n := by
  cases net_effect h with
  | requested | delivered | acted | left => exact absurd hafter (Nat.not_le.mpr hbefore)
  | served ev t out ht =>
    have htold := told_step hw.store ht c
    have hlog : (w.serve ev t out).log c =
        w.log c ++ (out.filter (fun m => m.ws = c)).map (fun m => ⟨m,t.membersOf c⟩) := rfl
    generalize hmine : out.filter (fun m => m.ws = c) = mine at htold hlog
    cases htold with
    | nothing =>
      rw [hlog,List.map_nil,List.append_nil] at hafter
      exact absurd hafter (Nat.not_le.mpr hbefore)
    | one m =>
      have hm : m ∈ out.filter (fun m => m.ws = c) := by simp [hmine]
      obtain ⟨hmem,hws⟩ := List.mem_filter.mp hm
      have ho := step_out_open ht hmem
      rw [of_decide_eq_true hws] at ho
      refine ⟨ev,rfl,ho,?_⟩
      rw [hlog] at hafter ⊢
      simp only [List.map_cons,List.map_nil,List.length_append,List.length_cons,
        List.length_nil] at hafter ⊢
      omega

end

/-- After any run, a client that has joined shows the room as the server had it when it sent the
last message that the client has handled: the members it had then, in the order they joined and
under their names, and a tile for each but the client's own. -/
theorem presence_agreement (cfg : Config) {es : List NetEvent} {w : Net}
    (hrun : Runs.exec (Net.step cfg) Net.init es = some w) {c : ConnId} {s : Session}
    (hjoined : (w.clients c).session = some s) :
    ∃ es₁ e es₂ v u p room, es = es₁ ++ .server e :: es₂ ∧
      Runs.exec (Net.step cfg) Net.init es₁ = some v ∧ v.step cfg (.server e) = some u ∧
      (v.log c).length < w.handled c ∧ u.log c = (w.log c).take (w.handled c) ∧
      u.server.participantOf c = some p ∧ u.server.rooms.get p.roomId = some room ∧
      (w.clients c).ShowsRoom p room := by
  have h := presence_run hrun
  have hc := h.follows c
  have hpos : 0 < w.handled c := by
    rw [Nat.pos_iff_ne_zero]
    intro hzero
    rw [hzero] at hc
    cases hl : (w.clients c).listening with
    | false => rw [hc.gone hl] at hjoined; cases hjoined
    | true => rw [(hc.outside rfl hl).1] at hjoined; cases hjoined
  have hinit : ¬w.handled c ≤ (Net.init.log c).length := Nat.not_le.mpr hpos
  obtain ⟨es₁,e,es₂,v,u,hes,hv,hstep,hrest,hbefore,hafter⟩ := Runs.exec_reaches
    (P := fun u : Net => w.handled c ≤ (u.log c).length) hinit (h.within c) hrun
  have hu := presence_step (presence_run hv) hstep
  obtain ⟨e,rfl,ho,hlen⟩ := log_reaches (presence_run hv) hstep (Nat.lt_of_not_le hbefore) hafter
  have htake : u.log c = (w.log c).take (w.handled c) := by
    rw [← hlen]
    exact List.prefix_iff_eq_take.mp (log_grows hrest c)
  rw [← htake,hu.current c (.inl ho)] at hc
  obtain ⟨p,room,hp,hr,hshow,_⟩ := hc.shows_room hu.store ho hjoined
  exact ⟨es₁,e,es₂,v,u,p,room,hes,hv,hstep,Nat.lt_of_not_le hbefore,htake,hp,hr,hshow⟩

def coupleJoins : List NetEvent :=
  [.server (.connection 0 0),.request 0 (js "room1") (js "Ann") (js "r0"),
    .server (.message 0 1 (js "a") (joinMessage (js "room1") (js "Ann") (js "r0"))),
    .deliver 0 [],.server (.connection 1 2),.request 1 (js "room1") (js "Bob") (js "r1"),
    .server (.message 1 3 (js "b") (joinMessage (js "room1") (js "Bob") (js "r1"))),
    .deliver 1 [],.deliver 0 []]

theorem presence_agreement_couple :
    ∃ w, Runs.exec (Net.step (defaultConfig [])) Net.init coupleJoins = some w ∧
      (w.clients 0).room.participants.entries =
        [(js "a",⟨js "a",js "Ann"⟩),(js "b",⟨js "b",js "Bob"⟩)] ∧
      (w.clients 0).tiles = [.self,.peer (js "b")] ∧
      ∃ es₁ e es₂ v u p room, coupleJoins = es₁ ++ .server e :: es₂ ∧
        Runs.exec (Net.step (defaultConfig [])) Net.init es₁ = some v ∧
        v.step (defaultConfig []) (.server e) = some u ∧ (v.log 0).length < w.handled 0 ∧
        u.log 0 = (w.log 0).take (w.handled 0) ∧ u.server.participantOf 0 = some p ∧
        u.server.rooms.get p.roomId = some room ∧ (w.clients 0).ShowsRoom p room := by
  have hrun : ((Runs.exec (Net.step (defaultConfig [])) Net.init coupleJoins).bind (fun w =>
      (w.clients 0).session.filter (fun _ => (w.clients 0).room.participants.entries =
        [(js "a",⟨js "a",js "Ann"⟩),(js "b",⟨js "b",js "Bob"⟩)] ∧
        (w.clients 0).tiles = [.self,.peer (js "b")]))).isSome := by decide +kernel
  obtain ⟨s,hs⟩ := Option.isSome_iff_exists.mp hrun
  obtain ⟨w,hw,hs⟩ := Option.bind_eq_some_iff.mp hs
  obtain ⟨hs,hshown⟩ := Option.filter_eq_some_iff.mp hs
  obtain ⟨hentries,htiles⟩ := of_decide_eq_true hshown
  exact ⟨w,hw,hentries,htiles,presence_agreement (defaultConfig []) hw hs⟩

end MaiaMeet
