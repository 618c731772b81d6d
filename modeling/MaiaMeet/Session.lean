import MaiaMeet.Media
import MaiaMeet.Server
set_option autoImplicit false

/-! WebRtcSession of webrtc.js. A browser call stands between two turns of an operation:
the event that settles it runs the operation on to its next call. -/

namespace MaiaMeet

inductive Owner where
  | operation
  | replace (number : Nat)
  deriving DecidableEq, Repr

/-- A transceiver's receiver kind and its sender's track. `calls` are the sender's
replaceTrack calls still to take effect. -/
structure Transceiver where
  kind : Kind
  track : Option Track
  calls : List (Owner × Option Track)
  deriving DecidableEq, Repr

/-- An RTCPeerConnection and the candidates kept for it. `ice` is what addIceCandidate
has taken. -/
structure Peer where
  transceivers : List Transceiver
  localDescription : Option JsString
  remoteDescription : Option JsString
  candidates : List Candidate
  ice : List Candidate
  deriving DecidableEq, Repr

def Peer.new : Peer := ⟨[],none,none,[],[]⟩

/-- What `enqueue` is given: the operation of `start`, or `handle` of a message. -/
inductive Operation where
  | offer
  | handle (signal : Signal)
  deriving DecidableEq, Repr

inductive Await where
  | createOffer | setLocalOffer
  | addIceCandidate (candidate : Candidate)
  | setRemoteDescription (offer : Bool) (sdp : JsString)
  | flush (offer : Bool) (candidate : Candidate) (rest : List Candidate)
  | replaceTrack (index : Nat)
  | createAnswer | setLocalAnswer
  deriving DecidableEq, Repr

structure Queue where
  running : Option Await
  waiting : List Operation
  deriving DecidableEq, Repr

inductive Output where
  | send (targetId : JsString) (signal : Signal)
  | remoteTrack (id : JsString)
  | error
  | replaced (number : Nat)
  | replaceFailed (number : Nat)
  deriving DecidableEq, Repr

/-- What a turn of an operation leaves: the peer, the next call (none at the
operation's end), and what it sent. -/
structure Turn where
  peer : Peer
  awaits : Option Await
  out : List Output

namespace Peer

/-- The transceiver loop of `handle` from `index` on, up to its next await. -/
def assign (stream : Stream) (peer : Peer) (index : Nat) : Turn :=
  match peer.transceivers[index]? with
  | none => ⟨peer,some .createAnswer,[]⟩
  | some t =>
    ⟨{ peer with
        transceivers := peer.transceivers.set index
          { t with calls := t.calls ++ [(.operation,stream.ofKind t.kind)] } },
      some (.replaceTrack index),[]⟩

def flush (stream : Stream) (peer : Peer) (offer : Bool) : List Candidate → Turn
  | c :: rest => ⟨peer,some (.flush offer c rest),[]⟩
  | [] => if offer then peer.assign stream 0 else ⟨peer,none,[]⟩

def perform (stream : Stream) (peer : Peer) : Operation → Turn
  | .offer =>
    let added := [Kind.audio,Kind.video].map (fun k => ⟨k,stream.ofKind k,[]⟩)
    ⟨{ peer with transceivers := peer.transceivers ++ added },some .createOffer,[]⟩
  | .handle (.iceCandidate c) =>
    if peer.remoteDescription.isSome then ⟨peer,some (.addIceCandidate c),[]⟩
    else ⟨{ peer with candidates := peer.candidates ++ [c] },none,[]⟩
  | .handle (.offer sdp) => ⟨peer,some (.setRemoteDescription true sdp),[]⟩
  | .handle (.answer sdp) => ⟨peer,some (.setRemoteDescription false sdp),[]⟩

/-- An operation from a settled await to the next. `sdp` is the local description the
browser made, `kinds` the transceivers an applied offer created. -/
def resume (stream : Stream) (peer : Peer) (id : JsString) (sdp : JsString) (kinds : List Kind) :
    Await → Turn
  | .createOffer => ⟨peer,some .setLocalOffer,[]⟩
  | .setLocalOffer =>
    ⟨{ peer with localDescription := some sdp },none,[.send id (.offer sdp)]⟩
  | .addIceCandidate c => ⟨{ peer with ice := peer.ice ++ [c] },none,[]⟩
  | .setRemoteDescription offer remote =>
    let created := if offer then kinds.map (fun k => ⟨k,none,[]⟩) else []
    flush stream { peer with
      remoteDescription := some remote
      transceivers := peer.transceivers ++ created
      candidates := [] } offer peer.candidates
  | .flush offer c rest => flush stream { peer with ice := peer.ice ++ [c] } offer rest
  | .replaceTrack index => peer.assign stream (index + 1)
  | .createAnswer => ⟨peer,some .setLocalAnswer,[]⟩
  | .setLocalAnswer =>
    ⟨{ peer with localDescription := some sdp },none,[.send id (.answer sdp)]⟩

end Peer

/-- A call of session.replaceTrack and the peers whose sender it still awaits. -/
structure Replace where
  number : Nat
  oldTrack : Option Track
  newTrack : Option Track
  waiting : List JsString
  deriving DecidableEq, Repr

/-- `newTrack?.kind || oldTrack?.kind` -/
def Replace.kind (r : Replace) : Option Kind :=
  match r.newTrack with
  | some t => some t.kind
  | none => r.oldTrack.map Track.kind

structure Session where
  peers : OrderedMap JsString Peer
  queues : OrderedMap JsString Queue
  departed : List JsString
  localStream : Stream
  replaces : List Replace
  nextReplace : Nat
  closed : Bool
  deriving DecidableEq, Repr

namespace Session

def queue (s : Session) (id : JsString) : Queue := (s.queues.get id).getD ⟨none,[]⟩

def enqueue (s : Session) (id : JsString) (operation : Operation) : Session :=
  let q := s.queue id
  { s with queues := s.queues.set id { q with waiting := q.waiting ++ [operation] } }

/-- The constructor and `start`, which a page calls in one turn. -/
def start (localStream : Stream) (participants : List JsString) : Session :=
  participants.foldl (fun s id => s.enqueue id .offer)
    ⟨OrderedMap.empty,OrderedMap.empty,[],localStream,[],0,false⟩

/-- `!this.closed && !this.departed.has(id)` -/
def accepts (s : Session) (id : JsString) : Bool := !s.closed && !s.departed.contains id

def after (s : Session) (id : JsString) (waiting : List Operation) (turn : Turn) :
    Session × List Output :=
  ({ s with
      peers := s.peers.set id turn.peer
      queues := s.queues.set id ⟨turn.awaits,waiting⟩ },turn.out)

def failed (s : Session) (id : JsString) : Session × List Output :=
  ({ s with queues := s.queues.set id ⟨none,(s.queue id).waiting⟩ },[.error])

def callOnSender (n : Nat) (track : Option Track) (kind : Option Kind) (peer : Peer) : Peer :=
  match peer.transceivers.findIdx? (fun t => some t.kind = kind) with
  | none => peer
  | some i => { peer with transceivers :=
      peer.transceivers.modify i (fun t => { t with calls := t.calls ++ [(.replace n,track)] }) }

def senders (s : Session) (kind : Option Kind) : List JsString :=
  (s.peers.entries.filter (fun e => e.2.transceivers.any (fun t => some t.kind = kind))).map
    Prod.fst

def replaceTrack (s : Session) (oldTrack newTrack : Option Track) : Session :=
  let r : Replace := ⟨s.nextReplace,oldTrack,newTrack,[]⟩
  { s with
    peers := s.peers.mapValues (callOnSender s.nextReplace newTrack r.kind)
    replaces := s.replaces ++ [{ r with waiting := s.senders r.kind }]
    nextReplace := s.nextReplace + 1 }

/-- One sender's promise of replaceTrack number `n` settles: the first rejection rejects
`Promise.all`. -/
def answered (s : Session) (n : Nat) (id : JsString) (ok : Bool) : Session × List Output :=
  if ok then
    ({ s with replaces := s.replaces.map (fun r =>
        if r.number = n then { r with waiting := r.waiting.filter (· ≠ id) } else r) },[])
  else
    ({ s with replaces := s.replaces.filter (fun r => r.number ≠ n) },
      if s.replaces.any (fun r => r.number = n) then [.replaceFailed n] else [])

def publish (s : Session) (r : Replace) : Session :=
  let removed := r.oldTrack.elim s.localStream s.localStream.removeTrack
  { s with
    localStream := r.newTrack.elim removed removed.addTrack
    replaces := s.replaces.filter (fun q => q.number ≠ r.number) }

def removePeer (s : Session) (id : JsString) : Session :=
  { s with
    departed := id :: s.departed
    peers := s.peers.delete id
    queues := s.queues.delete id }

def close (s : Session) : Session :=
  { s with closed := true, peers := OrderedMap.empty, queues := OrderedMap.empty }

end Session

inductive SessionEvent where
  /-- The handler of a webrtc message. -/
  | signal (participantId : JsString) (signal : Signal)
  /-- The peer's next operation runs to its first await. -/
  | next (id : JsString)
  | settle (id : JsString) (sdp : JsString) (kinds : List Kind)
  | reject (id : JsString)
  /-- The oldest replaceTrack call of a sender settles. -/
  | sender (id : JsString) (index : Nat) (ok : Bool)
  /-- A call on the sender of a removed peer settles. -/
  | orphan (number : Nat) (id : JsString) (ok : Bool)
  | candidate (id : JsString) (candidate : Candidate)
  | track (id : JsString)
  | connectionFailed (id : JsString)
  | replaceTrack (oldTrack newTrack : Option Track)
  | replaced (number : Nat)
  | removePeer (id : JsString)
  | close
  deriving DecidableEq, Repr

namespace Session

/-- `none`: the event cannot happen in this state. -/
def step (s : Session) : SessionEvent → Option (Session × List Output)
  | .signal id signal => some (if s.closed then s else s.enqueue id (.handle signal),[])
  | .next id =>
    match s.queue id with
    | ⟨none,operation :: waiting⟩ =>
      if s.accepts id then
        some (s.after id waiting
          (((s.peers.get id).getD Peer.new).perform s.localStream operation))
      else some ({ s with queues := s.queues.set id ⟨none,waiting⟩ },[])
    | _ => none
  | .settle id sdp kinds =>
    match s.peers.get id, (s.queue id).running with
    | some _, some (.replaceTrack _) => none
    | some peer, some await =>
      some (s.after id (s.queue id).waiting (peer.resume s.localStream id sdp kinds await))
    | _, _ => none
  | .reject id =>
    match s.peers.get id, (s.queue id).running with
    | some _, some (.replaceTrack _) => none
    | some _, some _ => some (s.failed id)
    | _, _ => none
  | .sender id index ok => do
    let peer ← s.peers.get id
    let t ← peer.transceivers[index]?
    match t.calls with
    | [] => none
    | (owner,track) :: calls =>
      let t := { t with track := if ok then track else t.track, calls := calls }
      let peer := { peer with transceivers := peer.transceivers.set index t }
      match owner with
      | .replace n => some ({ s with peers := s.peers.set id peer }.answered n id ok)
      | .operation =>
        if (s.queue id).running = some (.replaceTrack index) then
          some (s.after id (s.queue id).waiting
            (if ok then peer.assign s.localStream (index + 1) else ⟨peer,none,[.error]⟩))
        else none
  | .orphan n id ok =>
    if s.replaces.any (fun r => r.number = n && r.waiting.contains id) && !s.peers.has id then
      some (s.answered n id ok)
    else none
  | .candidate id candidate =>
    match s.peers.get id with
    | some ⟨_,some _,_,_,_⟩ => some (s,[.send id (.iceCandidate candidate)])
    | _ => none
  | .track id => if s.peers.has id then some (s,[.remoteTrack id]) else none
  | .connectionFailed id => if s.peers.has id then some (s,[.error]) else none
  | .replaceTrack oldTrack newTrack => some (s.replaceTrack oldTrack newTrack,[])
  | .replaced n => do
    let r ← s.replaces.find? (fun r => r.number = n)
    if r.waiting = [] then some (s.publish r,[.replaced n]) else none
  | .removePeer id => some (s.removePeer id,[])
  | .close => some (s.close,[])

def advance (s : Session) (e : SessionEvent) : Option Session := (s.step e).map Prod.fst

end Session

end MaiaMeet
