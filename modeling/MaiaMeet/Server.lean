import MaiaMeet.Config
import MaiaMeet.OrderedMap
import MaiaMeet.Runs
set_option autoImplicit false

/-! The signaling server of server.js: the handlers of one WebSocket connection, over
the state they share. A handler runs to its end before the next event. -/

namespace MaiaMeet

abbrev ConnId := Nat

structure Participant where
  id : JsString
  displayName : JsString
  roomId : JsString
  ws : ConnId
  deriving DecidableEq, Repr

structure PublicParticipant where
  id : JsString
  displayName : JsString
  deriving DecidableEq, Repr

def publicParticipant (p : Participant) : PublicParticipant := ⟨p.id,p.displayName⟩

abbrev Room := OrderedMap JsString Participant

structure Candidate where
  candidate : JsString
  sdpMid : Nullable JsString
  sdpMLineIndex : Nullable Nat
  deriving DecidableEq, Repr

/-- What a webrtc.offer, webrtc.answer or webrtc.iceCandidate is about. -/
inductive Signal where
  | offer : JsString → Signal
  | answer : JsString → Signal
  | iceCandidate : Candidate → Signal
  deriving DecidableEq, Repr

inductive SignalType where
  | offer | answer | iceCandidate
  deriving DecidableEq, Repr

def Signal.type : Signal → SignalType
  | .offer _ => .offer
  | .answer _ => .answer
  | .iceCandidate _ => .iceCandidate

/-- The type of a client's message, as the handler compares it. -/
inductive ClientType where
  | ping | roomCreate | roomJoin
  | signal : SignalType → ClientType
  | chatSend | unknown
  deriving DecidableEq, Repr

def ClientType.ofString (t : JsString) : ClientType :=
  if t = js "ping" then .ping
  else if t = js "room.create" then .roomCreate
  else if t = js "room.join" then .roomJoin
  else if t = js "webrtc.offer" then .signal .offer
  else if t = js "webrtc.answer" then .signal .answer
  else if t = js "webrtc.iceCandidate" then .signal .iceCandidate
  else if t = js "chat.send" then .chatSend
  else .unknown

inductive Body where
  | error : Nat → JsString → Body
  | pong : Body
  | roomCreated : JsString → Body
  | roomJoined (participantId roomId : JsString) (participants : List PublicParticipant)
      (rtcConfig : JsString) : Body
  | participantJoined : PublicParticipant → Body
  | participantLeft : JsString → Body
  | signal (signal : Signal) (participantId : JsString) : Body
  | chatMessage (participantId displayName text : JsString) (timestamp : Nat) : Body
  deriving DecidableEq, Repr

structure Sent where
  ws : ConnId
  body : Body
  requestId : Option JsString
  deriving DecidableEq, Repr

inductive ReadyState where
  | connecting | opened | closing | closed
  deriving DecidableEq, Repr

/-- The closure variables of the connection handler, and its socket's readyState. -/
structure Connection where
  participant : Option Participant
  tokens : Int
  lastRefill : Nat
  isAlive : Bool
  readyState : ReadyState
  deriving DecidableEq, Repr

/-- `uuids` is the state of the random source: all that randomUUID has returned. -/
structure Server where
  rooms : OrderedMap JsString Room
  connections : ConnId → Option Connection
  uuids : List JsString

def Server.init : Server := ⟨OrderedMap.empty,fun _ => none,[]⟩

def Server.put (s : Server) (c : ConnId) (conn : Connection) : Server :=
  { s with connections := Function.update s.connections c (some conn) }

@[simp] theorem put_rooms (s : Server) (c : ConnId) (conn : Connection) :
    (s.put c conn).rooms = s.rooms := rfl
@[simp] theorem put_connections_self (s : Server) (c : ConnId) (conn : Connection) :
    (s.put c conn).connections c = some conn := by simp [Server.put]
theorem put_connections_ne (s : Server) {c d : ConnId} (conn : Connection) (h : d ≠ c) :
    (s.put c conn).connections d = s.connections d := by simp [Server.put,h]

/-- The connection while its events can still come: none comes after `close`. -/
def Server.alive (s : Server) (c : ConnId) : Option Connection :=
  (s.connections c).filter (fun conn => conn.readyState ≠ .closed)

theorem alive_eq_some_iff (s : Server) (c : ConnId) (conn : Connection) :
    s.alive c = some conn ↔ s.connections c = some conn ∧ conn.readyState ≠ .closed := by
  simp [Server.alive,Option.filter_eq_some_iff]

/-- `ws.readyState === WebSocket.OPEN` -/
def Server.isOpen (s : Server) (c : ConnId) : Bool :=
  (s.connections c).any (fun conn => conn.readyState = .opened)

def Server.send (s : Server) (c : ConnId) (body : Body) (requestId : Option JsString) :
    List Sent :=
  if s.isOpen c then [⟨c,body,requestId⟩] else []

def Server.broadcast (s : Server) (room : Room) (body : Body) (except : Option JsString) :
    List Sent :=
  (room.values.filter (fun p => some p.id ≠ except)).flatMap (fun p => s.send p.ws body none)

def Server.fail (s : Server) (c : ConnId) (code : Nat) (message : String)
    (requestId : Option JsString) : List Sent :=
  s.send c (.error code (js message)) requestId

/-- The refill and the decrement at the head of the message handler. -/
def Connection.take (cfg : Config) (now : Nat) (conn : Connection) : Connection :=
  let conn := if conn.lastRefill + cfg.rateLimitInterval ≤ now then
    { conn with tokens := cfg.rateLimitTokens, lastRefill := now } else conn
  { conn with tokens := conn.tokens - 1 }

structure Envelope where
  type : ClientType
  payload : Json
  requestId : Option JsString

/-- The error is the message of the 400 answer: a throwing `JSON.parse` ends in the
catch branch, which words it differently. -/
def envelope : Data → Except String Envelope
  | .binary => .error "Invalid message format"
  | .text none => .error "Invalid message"
  | .text (some msg) =>
    match msg.get (js "version"), Json.string? (msg.get (js "type")), msg.get (js "payload") with
    | some (.int 1), some type, some (.obj fields) =>
      .ok ⟨.ofString type,.obj fields,Json.string? (msg.get (js "requestId"))⟩
    | _, _, _ => .error "Invalid message format"

def joinRequest (payload : Json) : Option (JsString × JsString) :=
  match Json.string? (payload.get (js "roomId")),
    Json.string? (payload.get (js "displayName")) with
  | some roomId, some displayName =>
    if (3 ≤ roomId.length ∧ roomId.length ≤ 32 ∧ roomId.all isAlnum) ∧
        trim displayName ≠ [] ∧ displayName.length ≤ 50 then
      some (roomId,trim displayName) else none
  | _, _ => none

/-- `v == null || typeof v === 'string'` -/
def nullableString : Option Json → Option (Nullable JsString)
  | none => some .undefined
  | some .null => some .null
  | some (.str s) => some (.value s)
  | _ => none

/-- `v == null || (Number.isInteger(v) && v >= 0)` -/
def nullableIndex : Option Json → Option (Nullable Nat)
  | none => some .undefined
  | some .null => some .null
  | some (.int z) => if 0 ≤ z then some (.value z.toNat) else none
  | _ => none

def validCandidate (payload : Json) : Option Candidate := do
  let candidate ← Json.string? (payload.get (js "candidate"))
  if candidate.length > 4096 then none else do
    let sdpMid ← nullableString (payload.get (js "sdpMid"))
    let sdpMLineIndex ← nullableIndex (payload.get (js "sdpMLineIndex"))
    pure ⟨candidate,sdpMid,sdpMLineIndex⟩

def validSdp (payload : Json) : Option JsString := do
  let sdp ← Json.string? (payload.get (js "sdp"))
  if js "v=0" <+: sdp then pure sdp else none

def validSignal (payload : Json) : SignalType → Option Signal
  | .offer => (validSdp payload).map .offer
  | .answer => (validSdp payload).map .answer
  | .iceCandidate => (validCandidate payload).map .iceCandidate

def SignalType.failure : SignalType → String
  | .offer | .answer => "Invalid SDP"
  | .iceCandidate => "Invalid ICE candidate"

def chatText (payload : Json) : Option JsString := do
  let text ← Json.string? (payload.get (js "text"))
  if trim text ≠ [] ∧ text.length ≤ 4000 then pure (trim text) else none

/-- `rooms.get(roomId) || new Map()` -/
def Server.roomOrNew (s : Server) (roomId : JsString) : Room :=
  (s.rooms.get roomId).getD OrderedMap.empty

def Server.enter (s : Server) (c : ConnId) (conn : Connection) (p : Participant) : Server :=
  { s.put c { conn with participant := some p } with
    rooms := s.rooms.set p.roomId ((s.roomOrNew p.roomId).set p.id p) }

def Server.join (cfg : Config) (s : Server) (c : ConnId) (conn : Connection)
    (uuid : JsString) (payload : Json) (requestId : Option JsString) : Server × List Sent :=
  if conn.participant.isSome then (s,s.fail c 409 "Already joined a room" requestId)
  else match joinRequest payload with
  | none => (s,s.fail c 400 "Invalid room ID or display name" requestId)
  | some (roomId,displayName) =>
    if (s.roomOrNew roomId).size ≥ cfg.maxParticipants then
      (s,s.fail c 409 "Room is full" requestId)
    else
      let p : Participant := ⟨uuid,displayName,roomId,c⟩
      let t := s.enter c conn p
      let room := t.roomOrNew roomId
      (t,t.send c (.roomJoined p.id roomId (room.values.map publicParticipant) cfg.rtcConfig)
            requestId ++
          t.broadcast room (.participantJoined (publicParticipant p)) (some p.id))

/-- `room.get(payload.targetId)`: a key of another type than string is never found. -/
def targetOf (room : Room) (payload : Json) : Option Participant :=
  (Json.string? (payload.get (js "targetId"))).bind room.get

def Server.relay (s : Server) (c : ConnId) (p : Participant) (room : Room) (k : SignalType)
    (payload : Json) (requestId : Option JsString) : List Sent :=
  match (targetOf room payload).filter (fun target => target.id ≠ p.id) with
  | none => s.fail c 404 "Participant not in this room" requestId
  | some target =>
    match validSignal payload k with
    | none => s.fail c 400 k.failure requestId
    | some signal => s.send target.ws (.signal signal p.id) none

/-- What a joined connection may do. A missing room is a TypeError in the first two
branches, answered by the catch branch. -/
def Server.act (s : Server) (c : ConnId) (p : Participant) (now : Nat) (m : Envelope) :
    List Sent :=
  match m.type with
  | .signal k =>
    match s.rooms.get p.roomId with
    | none => s.fail c 400 "Invalid message" m.requestId
    | some room => s.relay c p room k m.payload m.requestId
  | .chatSend =>
    match chatText m.payload with
    | none => s.fail c 400 "Invalid chat message" m.requestId
    | some text =>
      match s.rooms.get p.roomId with
      | none => s.fail c 400 "Invalid message" m.requestId
      | some room => s.broadcast room (.chatMessage p.id p.displayName text now) none
  | _ => s.fail c 400 "Unknown message type" m.requestId

def Server.dispatch (cfg : Config) (s : Server) (c : ConnId) (conn : Connection) (now : Nat)
    (uuid : JsString) (m : Envelope) : Server × List Sent :=
  match m.type with
  | .ping => (s,s.send c .pong m.requestId)
  | .roomCreate => (s,s.send c (.roomCreated (uuid.filter (· ≠ 45))) m.requestId)
  | .roomJoin => s.join cfg c conn uuid m.payload m.requestId
  | _ =>
    match conn.participant with
    | none => (s,s.fail c 403 "Join a room first" m.requestId)
    | some p => (s,s.act c p now m)

def Server.onMessage (cfg : Config) (s : Server) (c : ConnId) (conn : Connection) (now : Nat)
    (uuid : JsString) (data : Data) : Server × List Sent :=
  let conn := conn.take cfg now
  let s := s.put c conn
  if conn.tokens < 0 then (s,s.fail c 429 "Rate limit exceeded" none)
  else match envelope data with
  | .error message => (s,s.fail c 400 message none)
  | .ok m => s.dispatch cfg c conn now uuid m

/-- The close handler stands outside the try block: `none` is an uncaught exception,
which ends the process. -/
def Server.onClose (s : Server) (conn : Connection) : Option (Server × List Sent) :=
  match conn.participant with
  | none => some (s,[])
  | some p => do
    let room ← s.rooms.get p.roomId
    let room := room.delete p.id
    let rooms := s.rooms.set p.roomId room
    pure ({ s with rooms := if room.size = 0 then rooms.delete p.roomId else rooms },
      s.broadcast room (.participantLeft p.id) none)

inductive ServerEvent where
  | connection (c : ConnId) (now : Nat)
  /-- `uuid` is what randomUUID returns if the handler calls it. -/
  | message (c : ConnId) (now : Nat) (uuid : JsString) (data : Data)
  | pong (c : ConnId)
  /-- One socket's part of the heartbeat timer. -/
  | heartbeat (c : ConnId)
  /-- The socket stops being OPEN, by a close frame or a network error. -/
  | closing (c : ConnId)
  | close (c : ConnId)
  deriving Repr

def ServerEvent.conn : ServerEvent → ConnId
  | .connection c _ | .message c _ _ _ | .pong c | .heartbeat c | .closing c | .close c => c

/-- What the ws library and randomUUID promise: one connection event and one close for
each socket, nothing after the close, and fresh identifiers. -/
def Server.enabled (s : Server) : ServerEvent → Bool
  | .connection c _ => (s.connections c).isNone
  | .message c _ uuid _ => (s.alive c).isSome && decide (uuid ∉ s.uuids)
  | .pong c | .heartbeat c | .closing c | .close c => (s.alive c).isSome

/-- `none` is an uncaught exception (or an event of no connection). -/
def Server.handle (cfg : Config) (s : Server) : ServerEvent → Option (Server × List Sent)
  | .connection c now => some (s.put c ⟨none,cfg.rateLimitTokens,now,true,.opened⟩,[])
  | .message c now uuid data => do
    let conn ← s.alive c
    pure ({ s with uuids := uuid :: s.uuids }.onMessage cfg c conn now uuid data)
  | .pong c => do
    let conn ← s.alive c
    pure (s.put c { conn with isAlive := true },[])
  | .heartbeat c => do
    let conn ← s.alive c
    if conn.isAlive then pure (s.put c { conn with isAlive := false },[])
    else pure (s.put c { conn with readyState := .closing },[])
  | .closing c => do
    let conn ← s.alive c
    pure (s.put c { conn with readyState := .closing },[])
  | .close c => do
    let conn ← s.alive c
    (s.put c { conn with readyState := .closed }).onClose conn

def Server.step (cfg : Config) (s : Server) (e : ServerEvent) : Option (Server × List Sent) :=
  if s.enabled e then s.handle cfg e else none

def Server.advance (cfg : Config) (w : Server × List Sent) (e : ServerEvent) :
    Option (Server × List Sent) :=
  (w.1.step cfg e).map (fun r => (r.1,w.2 ++ r.2))

def Server.run (cfg : Config) (es : List ServerEvent) : Option (Server × List Sent) :=
  Runs.exec (Server.advance cfg) (Server.init,[]) es

theorem advance_eq_some {cfg : Config} {w v : Server × List Sent} {e : ServerEvent} :
    Server.advance cfg w e = some v ↔
      ∃ out, w.1.step cfg e = some (v.1,out) ∧ v.2 = w.2 ++ out := by
  obtain ⟨t,log⟩ := v
  simp only [Server.advance,Option.map_eq_some_iff,Prod.exists,Prod.mk.injEq]
  constructor
  · rintro ⟨u,out,h,rfl,rfl⟩; exact ⟨out,h,rfl⟩
  · rintro ⟨out,h,rfl⟩; exact ⟨t,out,h,rfl,rfl⟩

end MaiaMeet
