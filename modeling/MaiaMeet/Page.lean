import MaiaMeet.Client
import MaiaMeet.Devices
set_option autoImplicit false

/-! app.js over any number of join attempts, each with a SignalingClient of its own. The
continuation of a promise runs in the turn of the event that settles it. -/

namespace MaiaMeet

/-- `connecting` as long as the promise of connect() has not settled, and so its timer runs. -/
structure SignalingClient where
  readyState : ReadyState
  isIntentionalClose : Bool
  connecting : Bool
  pendingRequests : List JsString
  deriving DecidableEq, Repr

namespace SignalingClient

/-- The constructor and connect(), which onJoinRoom calls in one turn. -/
def new : SignalingClient := ⟨.connecting,false,true,[]⟩

def disconnect (c : SignalingClient) : SignalingClient :=
  { c with
    isIntentionalClose := true
    readyState := if c.readyState = .connecting ∨ c.readyState = .opened then .closing
      else c.readyState }

def waiting (c : SignalingClient) : Bool := c.connecting || !c.pendingRequests.isEmpty

end SignalingClient

inductive PageView where
  | lobby | preview | room
  deriving DecidableEq, Repr

/-- The variables of app.js. `clients` are the SignalingClients of all attempts, the last
of which is in the variable `signaling`. -/
structure Page where
  clients : List SignalingClient
  webrtc : Option Session
  room : RoomState
  tiles : List Tile
  devices : Devices
  view : PageView
  deriving DecidableEq, Repr

inductive PageEvent where
  | preview (viewer : Bool)
  | back
  | join (withoutDevices : Bool)
  | leave
  /-- The events of the socket of attempt `i` and its timers. `requestId` is for the
  room.join request that may follow. -/
  | opened (i : Nat) (requestId : JsString)
  | message (i : Nat) (m : Sent)
  | error (i : Nat)
  | close (i : Nat)
  | connectTimeout (i : Nat)
  | requestTimeout (i : Nat) (requestId : JsString)
  | half (n : Nat) (kind : Kind) (granted : Bool)
  | session (e : SessionEvent)
  deriving DecidableEq, Repr

namespace Page

def init : Page := ⟨[],none,RoomState.empty,[],Devices.init,.lobby⟩

def asClient (p : Page) : Client := ⟨p.room,p.tiles,p.webrtc,none,true⟩

def withClient (p : Page) (c : Client) : Page :=
  { p with room := c.room, tiles := c.tiles, webrtc := c.session }

def setAt (p : Page) (i : Nat) (c : SignalingClient) : Page :=
  { p with clients := p.clients.set i c }

/-- The index of the client in the variable `signaling`. -/
def current (p : Page) : Nat := p.clients.length - 1

def leaveRoom (p : Page) : Page where
  clients := p.clients.modify p.current SignalingClient.disconnect
  webrtc := none
  room := RoomState.empty
  tiles := []
  devices := p.devices.stopLocalPreview.stopScreenShare
  view := .lobby

/-- Up to the await of connect(). -/
def onJoinRoom (p : Page) : Page :=
  { p with
    clients := p.clients ++ [.new]
    tiles := p.tiles ++ [.self]
    devices := p.devices.cancelPendingCapture
    view := .room }

/-- `signaling.sendRequest('room.join', …)`: a socket that is not open rejects at once. -/
def sendRequest (p : Page) (requestId : JsString) : Page :=
  match p.clients[p.current]? with
  | none => p.leaveRoom
  | some c =>
    if c.readyState = .opened then
      p.setAt p.current { c with pendingRequests := c.pendingRequests ++ [requestId] }
    else p.leaveRoom

def handleMessage (p : Page) (i : Nat) (c : SignalingClient) (m : Sent) : Page :=
  match m.requestId with
  | none => p.withClient (p.asClient.emit m.body)
  | some requestId =>
    if requestId ∈ c.pendingRequests then
      let p := p.setAt i { c with pendingRequests := c.pendingRequests.erase requestId }
      let p := p.withClient (p.asClient.emit m.body)
      match m.body with
      | .roomJoined participantId _ participants _ =>
        p.withClient (p.asClient.onJoined p.devices.localStream participantId participants)
      | _ => p.leaveRoom
    else p.withClient (p.asClient.emit m.body)

def onclose (p : Page) (i : Nat) (c : SignalingClient) : Page :=
  let p := p.setAt i { c with readyState := .closed, connecting := false, pendingRequests := [] }
  let p := if c.isIntentionalClose then p else p.leaveRoom
  if c.waiting then p.leaveRoom else p

def step (p : Page) : PageEvent → Option Page
  | .preview viewer =>
    if p.view = .lobby then some { p with
      devices := if viewer then p.devices.stopLocalPreview else p.devices.getLocalStream
      view := .preview }
    else none
  | .back =>
    if p.view = .preview then some { p with devices := p.devices.stopLocalPreview, view := .lobby }
    else none
  | .join withoutDevices =>
    if p.view = .preview then some (if withoutDevices
      then { p with devices := p.devices.stopLocalPreview }.onJoinRoom else p.onJoinRoom)
    else none
  | .leave => if p.view = .room then some p.leaveRoom else none
  | .opened i requestId => do
    let c ← p.clients[i]?
    if c.readyState = .connecting then
      let p := p.setAt i { c with readyState := .opened, connecting := false }
      some (if c.connecting then p.sendRequest requestId else p)
    else none
  | .message i m => do
    let c ← p.clients[i]?
    if c.readyState = .opened then some (p.handleMessage i c m) else none
  | .error i => do
    let c ← p.clients[i]?
    if c.readyState = .closed then none
    else
      let p := p.setAt i { c with connecting := false }
      some (if c.connecting then p.leaveRoom else p)
  | .close i => do
    let c ← p.clients[i]?
    if c.readyState = .closed then none else some (p.onclose i c)
  | .connectTimeout i => do
    let c ← p.clients[i]?
    if c.connecting then
      some (p.setAt i { c with connecting := false }.disconnect).leaveRoom
    else none
  | .requestTimeout i requestId => do
    let c ← p.clients[i]?
    if requestId ∈ c.pendingRequests then
      some (p.setAt i { c with
        pendingRequests := c.pendingRequests.erase requestId }).leaveRoom
    else none
  | .half n kind granted =>
    (p.devices.half n kind granted).map (fun d => { p with devices := d })
  | .session e => do
    let s ← p.webrtc
    if e.isInternal then
      (s.step e).map (fun r =>
        p.withClient (r.2.foldl Client.output { p.asClient with session := some r.1 }))
    else none

end Page

end MaiaMeet
