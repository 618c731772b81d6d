import MaiaMeet.Server
set_option autoImplicit false

namespace MaiaMeet

@[simp] theorem take_participant (cfg : Config) (now : Nat) (conn : Connection) :
    (conn.take cfg now).participant = conn.participant := by
  unfold Connection.take; split <;> rfl

@[simp] theorem take_readyState (cfg : Config) (now : Nat) (conn : Connection) :
    (conn.take cfg now).readyState = conn.readyState := by
  unfold Connection.take; split <;> rfl

def Body.isReply : Body → Bool
  | .error _ _ | .pong | .roomCreated _ => true
  | _ => false

/-- All that handling one message can do. `s` is the state with the limiter already
charged and `conn` the charged connection. -/
inductive Outcome (cfg : Config) (s : Server) (c : ConnId) (conn : Connection) (now : Nat)
    (uuid : JsString) (data : Data) : Server → List Sent → Prop where
  | reply (body : Body) (requestId : Option JsString) (hb : body.isReply) :
      Outcome cfg s c conn now uuid data s (s.send c body requestId)
  | joined (m : Envelope) (roomId displayName : JsString) (ht : 0 ≤ conn.tokens)
      (hm : envelope data = .ok m) (hk : m.type = .roomJoin)
      (hp : conn.participant = none) (hj : joinRequest m.payload = some (roomId,displayName))
      (hsize : (s.roomOrNew roomId).size < cfg.maxParticipants) :
      Outcome cfg s c conn now uuid data (s.enter c conn ⟨uuid,displayName,roomId,c⟩)
        (let p : Participant := ⟨uuid,displayName,roomId,c⟩
         let t := s.enter c conn p
         let room := t.roomOrNew roomId
         t.send c (.roomJoined p.id roomId (room.values.map publicParticipant) cfg.rtcConfig)
            m.requestId ++
          t.broadcast room (.participantJoined (publicParticipant p)) (some p.id))
  | relayed (m : Envelope) (k : SignalType) (p target : Participant) (room : Room)
      (signal : Signal) (ht : 0 ≤ conn.tokens) (hm : envelope data = .ok m)
      (hk : m.type = .signal k) (hp : conn.participant = some p)
      (hr : s.rooms.get p.roomId = some room) (hd : targetOf room m.payload = some target)
      (hne : target.id ≠ p.id) (hv : validSignal m.payload k = some signal) :
      Outcome cfg s c conn now uuid data s (s.send target.ws (.signal signal p.id) none)
  | chatted (m : Envelope) (p : Participant) (room : Room) (text : JsString)
      (ht : 0 ≤ conn.tokens) (hm : envelope data = .ok m) (hk : m.type = .chatSend)
      (hp : conn.participant = some p) (hr : s.rooms.get p.roomId = some room)
      (hx : chatText m.payload = some text) :
      Outcome cfg s c conn now uuid data s
        (s.broadcast room (.chatMessage p.id p.displayName text now) none)

section
variable {cfg : Config} {s : Server} {c : ConnId} {conn : Connection} {now : Nat}
  {uuid : JsString} {data : Data} {m : Envelope}

theorem join_outcome (ht : 0 ≤ conn.tokens) (hm : envelope data = .ok m)
    (hk : m.type = .roomJoin) :
    Outcome cfg s c conn now uuid data (s.join cfg c conn uuid m.payload m.requestId).1
      (s.join cfg c conn uuid m.payload m.requestId).2 := by
  unfold Server.join
  split
  · exact .reply _ _ rfl
  · rename_i hp
    have hp : conn.participant = none := by simpa using hp
    split
    · exact .reply _ _ rfl
    · rename_i roomId displayName hj
      split
      · exact .reply _ _ rfl
      · rename_i hsize
        exact .joined m roomId displayName ht hm hk hp hj (by omega)

theorem act_outcome {p : Participant} (ht : 0 ≤ conn.tokens) (hm : envelope data = .ok m)
    (hp : conn.participant = some p) :
    Outcome cfg s c conn now uuid data s (s.act c p now m) := by
  unfold Server.act
  split
  · rename_i k hk
    split
    · exact .reply _ _ rfl
    · rename_i room hr
      unfold Server.relay
      split
      · exact .reply _ _ rfl
      · rename_i target hd
        obtain ⟨hd,hne⟩ := Option.filter_eq_some_iff.mp hd
        split
        · exact .reply _ _ rfl
        · rename_i signal hv
          exact .relayed m k p target room signal ht hm hk hp hr hd (by simpa using hne) hv
  · rename_i hk
    split
    · exact .reply _ _ rfl
    · rename_i text hx
      split
      · exact .reply _ _ rfl
      · rename_i room hr
        exact .chatted m p room text ht hm hk hp hr hx
  · exact .reply _ _ rfl

theorem dispatch_outcome (ht : 0 ≤ conn.tokens) (hm : envelope data = .ok m) :
    Outcome cfg s c conn now uuid data (s.dispatch cfg c conn now uuid m).1
      (s.dispatch cfg c conn now uuid m).2 := by
  unfold Server.dispatch
  split
  · exact .reply _ _ rfl
  · exact .reply _ _ rfl
  · rename_i hk
    exact join_outcome ht hm hk
  · split
    · exact .reply _ _ rfl
    · rename_i p hp
      exact act_outcome ht hm hp

end

theorem onMessage_outcome (cfg : Config) (s : Server) (c : ConnId) (conn : Connection)
    (now : Nat) (uuid : JsString) (data : Data) :
    Outcome cfg (s.put c (conn.take cfg now)) c (conn.take cfg now) now uuid data
      (s.onMessage cfg c conn now uuid data).1 (s.onMessage cfg c conn now uuid data).2 := by
  unfold Server.onMessage
  simp only
  split
  · exact .reply _ _ rfl
  · rename_i ht
    have ht : 0 ≤ (conn.take cfg now).tokens := by omega
    split
    · exact .reply _ _ rfl
    · rename_i m hm
      exact dispatch_outcome ht hm

def Server.charge (cfg : Config) (s : Server) (c : ConnId) (conn : Connection) (now : Nat)
    (uuid : JsString) : Server :=
  { s with uuids := uuid :: s.uuids }.put c (conn.take cfg now)

inductive Effect (cfg : Config) (s : Server) : ServerEvent → Server → List Sent → Prop where
  | connected (c : ConnId) (now : Nat) (h : s.connections c = none) :
      Effect cfg s (.connection c now) (s.put c ⟨none,cfg.rateLimitTokens,now,true,.opened⟩) []
  | handled (c : ConnId) (conn : Connection) (now : Nat) (uuid : JsString) (data : Data)
      (t : Server) (out : List Sent) (h : s.alive c = some conn) (hu : uuid ∉ s.uuids)
      (ho : Outcome cfg (s.charge cfg c conn now uuid) c (conn.take cfg now) now uuid data t out) :
      Effect cfg s (.message c now uuid data) t out
  | kept (e : ServerEvent) (c : ConnId) (conn conn' : Connection) (h : s.alive c = some conn)
      (hp : conn'.participant = conn.participant) (hr : conn'.readyState ≠ .closed)
      (ho : conn'.readyState = .opened → conn.readyState = .opened) (he : e.conn = c) :
      Effect cfg s e (s.put c conn') []
  | left (c : ConnId) (conn : Connection) (p : Participant) (room : Room)
      (h : s.alive c = some conn) (hp : conn.participant = some p)
      (hr : s.rooms.get p.roomId = some room) :
      Effect cfg s (.close c)
        { s.put c { conn with readyState := .closed } with
          rooms := if (room.delete p.id).size = 0
            then (s.rooms.set p.roomId (room.delete p.id)).delete p.roomId
            else s.rooms.set p.roomId (room.delete p.id) }
        ((s.put c { conn with readyState := .closed }).broadcast (room.delete p.id)
          (.participantLeft p.id) none)
  | closed (c : ConnId) (conn : Connection) (h : s.alive c = some conn)
      (hp : conn.participant = none) :
      Effect cfg s (.close c) (s.put c { conn with readyState := .closed }) []

theorem message_outcome {cfg : Config} {s t : Server} {c : ConnId} {now : Nat} {uuid : JsString} {data : Data}
    {out : List Sent} (h : s.step cfg (.message c now uuid data) = some (t,out)) :
    ∃ conn, s.alive c = some conn ∧ uuid ∉ s.uuids ∧
      Outcome cfg (s.charge cfg c conn now uuid) c (conn.take cfg now) now uuid data t out := by
  unfold Server.step at h
  split at h
  · rename_i he
    simp only [Server.handle,Option.bind_eq_bind,Option.bind_eq_some_iff,Option.pure_def,
      Option.some.injEq] at h
    obtain ⟨conn,hc,ht⟩ := h
    have hu : uuid ∉ s.uuids := by
      simp only [Server.enabled,Bool.and_eq_true,decide_eq_true_eq] at he
      exact he.2
    have ho := onMessage_outcome cfg { s with uuids := uuid :: s.uuids } c conn now uuid data
    rw [ht] at ho
    exact ⟨conn,hc,hu,ho⟩
  · cases h

theorem step_effect {cfg : Config} {s t : Server} {e : ServerEvent} {out : List Sent}
    (h : s.step cfg e = some (t,out)) : Effect cfg s e t out := by
  have hstep := h
  unfold Server.step at h
  split at h
  case isFalse => cases h
  case isTrue he =>
    cases e with
    | connection c now =>
      simp only [Server.handle,Option.some.injEq,Prod.mk.injEq] at h
      obtain ⟨rfl,rfl⟩ := h
      exact .connected c now (by simpa [Server.enabled] using he)
    | message c now uuid data =>
      obtain ⟨conn,hc,hu,ho⟩ := message_outcome hstep
      exact .handled c conn now uuid data t out hc hu ho
    | pong c =>
      simp only [Server.handle,Option.bind_eq_bind,Option.bind_eq_some_iff,Option.pure_def,
        Option.some.injEq,Prod.mk.injEq] at h
      obtain ⟨conn,hc,rfl,rfl⟩ := h
      exact .kept _ c conn _ hc rfl ((alive_eq_some_iff s c conn).mp hc).2 id rfl
    | heartbeat c =>
      simp only [Server.handle,Option.bind_eq_bind,Option.bind_eq_some_iff,Option.pure_def] at h
      obtain ⟨conn,hc,h⟩ := h
      split at h
      · simp only [Option.some.injEq,Prod.mk.injEq] at h
        obtain ⟨rfl,rfl⟩ := h
        exact .kept _ c conn _ hc rfl ((alive_eq_some_iff s c conn).mp hc).2 id rfl
      · simp only [Option.some.injEq,Prod.mk.injEq] at h
        obtain ⟨rfl,rfl⟩ := h
        exact .kept _ c conn _ hc rfl (by simp) (by simp) rfl
    | closing c =>
      simp only [Server.handle,Option.bind_eq_bind,Option.bind_eq_some_iff,Option.pure_def,
        Option.some.injEq,Prod.mk.injEq] at h
      obtain ⟨conn,hc,rfl,rfl⟩ := h
      exact .kept _ c conn _ hc rfl (by simp) (by simp) rfl
    | close c =>
      simp only [Server.handle,Option.bind_eq_bind,Option.bind_eq_some_iff] at h
      obtain ⟨conn,hc,h⟩ := h
      unfold Server.onClose at h
      split at h
      · rename_i hp
        simp only [Option.some.injEq,Prod.mk.injEq] at h
        obtain ⟨rfl,rfl⟩ := h
        exact .closed c conn hc hp
      · rename_i p hp
        simp only [Option.bind_eq_bind,Option.bind_eq_some_iff,Option.pure_def,
          Option.some.injEq,Prod.mk.injEq] at h
        obtain ⟨room,hr,rfl,rfl⟩ := h
        exact .left c conn p room hc hp hr

theorem mem_send {s : Server} {c : ConnId} {body : Body} {requestId : Option JsString}
    {m : Sent} : m ∈ s.send c body requestId ↔ s.isOpen c ∧ m = ⟨c,body,requestId⟩ := by
  unfold Server.send
  split <;> simp [*]

theorem mem_broadcast {s : Server} {room : Room} {body : Body} {except : Option JsString}
    {m : Sent} : m ∈ s.broadcast room body except ↔
      ∃ p ∈ room.values, some p.id ≠ except ∧ s.isOpen p.ws ∧ m = ⟨p.ws,body,none⟩ := by
  simp [Server.broadcast,mem_send,and_assoc]

theorem body_of_send {s : Server} {c : ConnId} {body : Body} {requestId : Option JsString}
    {m : Sent} (h : m ∈ s.send c body requestId) : m.body = body := by
  obtain ⟨_,rfl⟩ := mem_send.mp h
  rfl

theorem body_of_broadcast {s : Server} {room : Room} {body : Body} {except : Option JsString}
    {m : Sent} (h : m ∈ s.broadcast room body except) : m.body = body := by
  obtain ⟨_,_,_,_,rfl⟩ := mem_broadcast.mp h
  rfl

theorem step_out_open {cfg : Config} {s t : Server} {e : ServerEvent} {out : List Sent}
    (h : s.step cfg e = some (t,out)) {m : Sent} (hm : m ∈ out) : t.isOpen m.ws := by
  have hsend : ∀ {u : Server} {c body requestId}, m ∈ u.send c body requestId → u.isOpen m.ws :=
    fun hm => by obtain ⟨ho,rfl⟩ := mem_send.mp hm; exact ho
  have hbroadcast : ∀ {u : Server} {room body except}, m ∈ u.broadcast room body except →
      u.isOpen m.ws :=
    fun hm => by obtain ⟨_,_,_,ho,rfl⟩ := mem_broadcast.mp hm; exact ho
  cases step_effect h with
  | connected | kept | closed => cases hm
  | handled c conn now uuid data t out hc hu ho =>
    cases ho with
    | reply | relayed => exact hsend hm
    | joined =>
      rcases List.mem_append.mp hm with hm | hm
      · exact hsend hm
      · exact hbroadcast hm
    | chatted => exact hbroadcast hm
  | left => exact hbroadcast (u := Server.put _ _ _) hm

end MaiaMeet
