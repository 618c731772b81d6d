import MaiaMeet.RoomStore
import MaiaMeet.Session
set_option autoImplicit false

/-! The browser side of one connection: RoomState, the tiles of the grid and the handlers
of app.js, and the network of all clients with the server. -/

namespace MaiaMeet

/-- A tile of the video grid. A participant's id is a UUID, so never the word local. -/
inductive Tile where
  | self
  | peer (id : JsString)
  deriving DecidableEq, Repr

structure RoomState where
  localParticipantId : Option JsString
  participants : OrderedMap JsString PublicParticipant
  deriving DecidableEq, Repr

def RoomState.empty : RoomState := ⟨none,OrderedMap.empty⟩

/-- `pending` is the room.join request whose promise has not settled; a client is listening
until it closes its socket. -/
structure Client where
  room : RoomState
  tiles : List Tile
  session : Option Session
  pending : Option JsString
  listening : Bool
  deriving DecidableEq, Repr

namespace Client

/-- After onJoinRoom has shown the room view. -/
def new : Client := ⟨RoomState.empty,[.self],none,none,true⟩

/-- RoomState.addParticipant and the participantAdded handler. -/
def addParticipant (c : Client) (p : PublicParticipant) : Client :=
  { c with
    room := { c.room with participants := c.room.participants.set p.id p }
    tiles := if some p.id ≠ c.room.localParticipantId ∧ Tile.peer p.id ∉ c.tiles
      then c.tiles ++ [.peer p.id] else c.tiles }

/-- RoomState.removeParticipant and the participantRemoved handler. -/
def removeParticipant (c : Client) (id : JsString) : Client :=
  if c.room.participants.has id then
    { c with
      room := { c.room with participants := c.room.participants.delete id }
      tiles := c.tiles.erase (.peer id) }
  else c

def leaveRoom (c : Client) : Client :=
  { c with room := RoomState.empty, tiles := [], session := none, listening := false }

def onRemoteTrack (c : Client) (id : JsString) : Client :=
  if Tile.peer id ∈ c.tiles then c else { c with tiles := c.tiles ++ [.peer id] }

/-- The listeners of setupSignalingHandlers and of the session. -/
def emit (c : Client) : Body → Client
  | .participantJoined p => c.addParticipant p
  | .participantLeft id =>
    { c with session := c.session.map (fun s : Session => s.removePeer id) }.removeParticipant id
  | .signal signal id =>
    { c with session := c.session.map (fun s : Session =>
        if s.closed then s else s.enqueue id (.handle signal)) }
  | _ => c

/-- What follows `await signaling.sendRequest('room.join')` in onJoinRoom; `stream` holds
the tracks of devices.localStream. -/
def onJoined (c : Client) (stream : Stream) (participantId : JsString)
    (participants : List PublicParticipant) : Client :=
  let c := { c with room := { c.room with localParticipantId := some participantId } }
  { participants.foldl addParticipant c with
    session := some (Session.start stream
      ((participants.filter (fun p => p.id ≠ participantId)).map PublicParticipant.id)) }

/-- SignalingClient.handleMessage and the continuation of the request it settles, which runs
before the next message. Any reply but room.joined makes onJoinRoom throw. -/
def handleMessage (c : Client) (stream : Stream) (m : Sent) : Client :=
  if c.pending.isSome ∧ m.requestId = c.pending then
    let c := { c with pending := none }.emit m.body
    match m.body with
    | .roomJoined participantId _ participants _ => c.onJoined stream participantId participants
    | _ => c.leaveRoom
  else c.emit m.body

end Client

inductive ClientMessage where
  | join (roomId displayName requestId : JsString)
  | signal (targetId : JsString) (signal : Signal)
  deriving DecidableEq, Repr

def ClientMessage.data : ClientMessage → Data
  | .join roomId displayName requestId => joinMessage roomId displayName requestId
  | .signal targetId s => clientMessage (.signal s.type) (s.request targetId) none

structure Entry where
  message : Sent
  members : List PublicParticipant
  deriving DecidableEq, Repr

/-- The room map a connection belongs to, as the server shows it. -/
def Server.membersOf (s : Server) (c : ConnId) : List PublicParticipant :=
  (s.participantOf c).elim [] (fun p => (s.roomOrNew p.roomId).values.map publicParticipant)

/-- The server, the clients, and the messages between them: `log c` is all that was sent to
`c`, of which the client has handled the first `handled c`; `sent c` is all it sent, of which
the server has received the first `received c`. -/
structure Net where
  server : Server
  log : ConnId → List Entry
  handled : ConnId → Nat
  clients : ConnId → Client
  sent : ConnId → List ClientMessage
  received : ConnId → Nat

def Net.init : Net :=
  ⟨Server.init,fun _ => [],fun _ => 0,fun _ => Client.new,fun _ => [],fun _ => 0⟩

inductive NetEvent where
  | server (e : ServerEvent)
  /-- `signaling.sendRequest('room.join', …)` -/
  | request (c : ConnId) (roomId displayName requestId : JsString)
  | deliver (c : ConnId) (stream : Stream)
  | session (c : ConnId) (e : SessionEvent)
  /-- The user leaves, the request times out or the socket is lost. -/
  | leave (c : ConnId)

def SessionEvent.isInternal : SessionEvent → Bool
  | .signal _ _ | .removePeer _ | .close => false
  | _ => true

def Output.messages : Output → List ClientMessage
  | .send targetId signal => [.signal targetId signal]
  | _ => []

def Client.output (c : Client) : Output → Client
  | .remoteTrack id => c.onRemoteTrack id
  | _ => c

namespace Net

def setClient (w : Net) (c : ConnId) (client : Client) : Net :=
  { w with clients := Function.update w.clients c client }

def send (w : Net) (c : ConnId) (messages : List ClientMessage) : Net :=
  { w with sent := Function.update w.sent c (w.sent c ++ messages) }

/-- What the server sent goes to the logs, with the rooms as they then are. -/
def serve (w : Net) (e : ServerEvent) (t : Server) (out : List Sent) : Net :=
  { w with
    server := t
    log := fun c => w.log c ++ (out.filter (fun m => m.ws = c)).map (fun m => ⟨m,t.membersOf c⟩)
    received := match e with
      | .message c _ _ _ => Function.update w.received c (w.received c + 1)
      | _ => w.received }

def output (w : Net) (c : ConnId) (s : Session) (out : List Output) : Net :=
  (w.setClient c (out.foldl Client.output { w.clients c with session := some s })).send c
    (out.flatMap Output.messages)

def step (cfg : Config) (w : Net) : NetEvent → Option Net
  | .server e => (w.server.step cfg e).map (fun r => w.serve e r.1 r.2)
  | .request c roomId displayName requestId =>
    let client := w.clients c
    if client.listening ∧ client.pending = none ∧ client.session = none then
      some ((w.setClient c { client with pending := some requestId }).send c
        [.join roomId displayName requestId])
    else none
  | .deliver c stream => do
    let entry ← (w.log c)[w.handled c]?
    if (w.clients c).listening then
      some { w.setClient c ((w.clients c).handleMessage stream entry.message) with
        handled := Function.update w.handled c (w.handled c + 1) }
    else none
  | .session c e => do
    let s ← (w.clients c).session
    if e.isInternal then (s.step e).map (fun r => w.output c r.1 r.2) else none
  | .leave c => some (w.setClient c (w.clients c).leaveRoom)

end Net

inductive NetEffect (cfg : Config) (w : Net) : NetEvent → Net → Prop where
  | served (e : ServerEvent) (t : Server) (out : List Sent)
      (h : w.server.step cfg e = some (t,out)) : NetEffect cfg w (.server e) (w.serve e t out)
  | requested (c : ConnId) (roomId displayName requestId : JsString)
      (hl : (w.clients c).listening) (hp : (w.clients c).pending = none)
      (hs : (w.clients c).session = none) :
      NetEffect cfg w (.request c roomId displayName requestId)
        ((w.setClient c { w.clients c with pending := some requestId }).send c
          [.join roomId displayName requestId])
  | delivered (c : ConnId) (stream : Stream) (entry : Entry)
      (he : (w.log c)[w.handled c]? = some entry) (hl : (w.clients c).listening) :
      NetEffect cfg w (.deliver c stream)
        { w.setClient c ((w.clients c).handleMessage stream entry.message) with
          handled := Function.update w.handled c (w.handled c + 1) }
  | acted (c : ConnId) (e : SessionEvent) (s t : Session) (out : List Output)
      (hs : (w.clients c).session = some s) (hi : e.isInternal) (h : s.step e = some (t,out)) :
      NetEffect cfg w (.session c e) (w.output c t out)
  | left (c : ConnId) : NetEffect cfg w (.leave c) (w.setClient c (w.clients c).leaveRoom)

theorem net_effect {cfg : Config} {w u : Net} {e : NetEvent} (h : w.step cfg e = some u) :
    NetEffect cfg w e u := by
  cases e with
  | server e =>
    obtain ⟨⟨t,out⟩,ht,rfl⟩ := Option.map_eq_some_iff.mp h
    exact .served e t out ht
  | request c roomId displayName requestId =>
    simp only [Net.step] at h
    split at h
    · rename_i hc
      cases h
      exact .requested c roomId displayName requestId hc.1 hc.2.1 hc.2.2
    · cases h
  | deliver c stream =>
    obtain ⟨entry,he,h⟩ := Option.bind_eq_some_iff.mp h
    split at h
    · rename_i hl
      cases h
      exact .delivered c stream entry he hl
    · cases h
  | session c e =>
    obtain ⟨s,hs,h⟩ := Option.bind_eq_some_iff.mp h
    split at h
    · rename_i hi
      obtain ⟨⟨t,out⟩,ht,rfl⟩ := Option.map_eq_some_iff.mp h
      exact .acted c e s t out hs hi ht
    · cases h
  | leave c => cases h; exact .left c

theorem net_server {cfg : Config} {w u : Net} {e : NetEvent} (h : w.step cfg e = some u) :
    (u.server = w.server ∧ u.log = w.log) ∨
      ∃ ev t out, w.server.step cfg ev = some (t,out) ∧ u = w.serve ev t out := by
  cases net_effect h with
  | served ev t out ht => exact .inr ⟨ev,t,out,ht,rfl⟩
  | requested | delivered | acted | left => exact .inl ⟨rfl,rfl⟩

end MaiaMeet
