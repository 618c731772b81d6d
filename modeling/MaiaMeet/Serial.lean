import MaiaMeet.Exchange
import MaiaMeet.Line
set_option autoImplicit false

/-! The operations of a session over its whole life: `start` may come at any time, and an
operation whose peer is removed goes on with the connection it holds. -/

namespace MaiaMeet

/-- An operation whose peer has left or whose session is closed, at its call. -/
structure Suspended where
  peer : Peer
  await : Await
  deriving DecidableEq, Repr

structure Serial where
  session : Session
  started : Bool
  suspended : JsString → List Suspended

def Serial.init : Serial := ⟨Session.start [] [],false,fun _ => []⟩

inductive SerialEvent where
  | session (e : SessionEvent)
  | start (localStream : Stream) (participants : List JsString)
  /-- The call of a suspended operation settles. -/
  | late (id : JsString) (index : Nat) (ok : Bool) (sdp : JsString) (kinds : List Kind)
  deriving Repr

def Peer.applied (peer : Peer) (kinds : List Kind) : Await → Peer
  | .setRemoteDescription offer remote =>
    { peer with
      remoteDescription := some remote
      transceivers := peer.transceivers ++
        if offer then kinds.map (fun k => ⟨k,none,[]⟩) else []
      candidates := [] }
  | .flush _ c _ => { peer with ice := peer.ice ++ [c] }
  | _ => peer

namespace Serial

/-- `this.localStream.getTracks()` throws while there is no stream. -/
def throws (s : Serial) (turn : Turn) : Bool :=
  !s.started && turn.awaits.any (fun a => match a with | .replaceTrack _ => true | _ => false)

def turn (s : Serial) (id sdp : JsString) (kinds : List Kind) (peer : Peer) (await : Await) :
    Turn :=
  let turn := peer.resume s.session.localStream id sdp kinds await
  if s.throws turn then ⟨peer.applied kinds await,none,[.error]⟩ else turn

def running (s : Serial) (id : JsString) : List Suspended :=
  match s.session.peers.get id, (s.session.queue id).running with
  | some peer, some await => [⟨peer,await⟩]
  | _, _ => []

def detach (s : Serial) (e : SessionEvent) (id : JsString) : List Suspended :=
  match e with
  | .removePeer j => if j = id then s.running id else []
  | .close => s.running id
  | _ => []

/-- The catch of `enqueue`: `if (!this.closed && !this.departed.has(id))` -/
def report (s : Serial) (id : JsString) (out : List Output) : List Output :=
  out.filter (fun o => o ≠ .error ∨ s.session.accepts id)

def step (s : Serial) : SerialEvent → Option (Serial × List Output)
  | .session (.settle id sdp kinds) =>
    match s.session.peers.get id, (s.session.queue id).running with
    | some _, some (.replaceTrack _) => none
    | some peer, some await =>
      let r := s.session.after id (s.session.queue id).waiting (s.turn id sdp kinds peer await)
      some ({ s with session := r.1 },s.report id r.2)
    | _, _ => none
  | .session e => do
    let (t,out) ← s.session.step e
    pure (⟨t,s.started,fun id => s.suspended id ++ s.detach e id⟩,out)
  | .start localStream participants =>
    some ({ s with
      session := participants.foldl (fun t id => t.enqueue id .offer)
        { s.session with localStream := localStream }
      started := true },[])
  | .late id index ok sdp kinds => do
    let x ← (s.suspended id)[index]?
    let turn := if ok then s.turn id sdp kinds x.peer x.await else ⟨x.peer,none,[.error]⟩
    let rest := match turn.awaits with
      | some await => (s.suspended id).set index ⟨turn.peer,await⟩
      | none => (s.suspended id).eraseIdx index
    pure ({ s with suspended := Function.update s.suspended id rest },s.report id turn.out)

def advance (s : Serial) (e : SerialEvent) : Option Serial := (s.step e).map Prod.fst

end Serial

namespace Serial

def enqueued (id : JsString) (s : Serial) : SerialEvent → List Operation
  | .session (.signal j sg) => if j = id ∧ s.session.closed = false then [.handle sg] else []
  | .start _ participants => List.replicate (participants.count id) .offer
  | _ => []

def begun (id : JsString) (s : Serial) : SerialEvent → List Operation
  | .session (.next j) =>
    match s.session.queue j with
    | ⟨none,operation :: _⟩ => if j = id ∧ s.session.accepts j then [operation] else []
    | _ => []
  | _ => []

def received (id : JsString) (s : Serial) (e : SerialEvent) : List Candidate :=
  (s.enqueued id e).flatMap (fun operation => operation.heard.flatMap Signal.candidates)

def turnOf (id : JsString) (s : Serial) : SerialEvent → Option Turn
  | .session (.next j) =>
    match s.session.queue j with
    | ⟨none,operation :: _⟩ =>
      if j = id ∧ s.session.accepts j then
        some ((s.session.peer j).perform s.session.localStream operation) else none
    | _ => none
  | .session (.settle j sdp kinds) =>
    match (s.session.queue j).running with
    | some await => if j = id then some (s.turn j sdp kinds (s.session.peer j) await) else none
    | none => none
  | .late j index true sdp kinds =>
    ((s.suspended j)[index]?.filter (fun _ => j = id)).map (fun x =>
      s.turn j sdp kinds x.peer x.await)
  | _ => none

def called (id : JsString) (s : Serial) (e : SerialEvent) : List Candidate :=
  (s.turnOf id e).elim [] Turn.calls

def active (s : Serial) (id : JsString) : Nat :=
  (s.session.queue id).running.toList.length + (s.suspended id).length

def fails (s : Serial) : SerialEvent → Option JsString
  | .session (.reject id) => some id
  | .session (.sender id index false) =>
    if s.session.callOwner id index = some .operation then some id else none
  | .session (.settle id sdp kinds) =>
    match (s.session.queue id).running with
    | some await =>
      if s.throws ((s.session.peer id).resume s.session.localStream id sdp kinds await) then
        some id else none
    | none => none
  | _ => none

end Serial

def SerialEvent.about (id : JsString) : SerialEvent → Bool
  | .session (.next j) | .session (.settle j _ _) | .session (.reject j)
  | .session (.sender j _ _) | .session (.connectionFailed j) | .late j _ _ _ _ => j = id
  | _ => false

def Await.rest : Await → List Candidate
  | .flush _ _ rest => rest
  | _ => []

def backlog (peer : Peer) (running : Option Await) : List Candidate :=
  running.elim [] Await.rest ++ peer.candidates

structure Kept (peer : Peer) (running : Option Await) : Prop where
  buffer : peer.remoteDescription.isSome → peer.candidates = []
  remote : running.elim [] Await.calls ≠ [] → peer.remoteDescription.isSome

section
variable {peer : Peer} {stream : Stream} {await : Await}

theorem kept_new : Kept Peer.new none := ⟨fun _ => rfl,fun h => absurd rfl h⟩

theorem Kept.quiet {running : Option Await} (h : Kept peer running)
    (transceivers : List Transceiver) :
    Kept { peer with transceivers := transceivers } none := ⟨h.buffer,fun hn => absurd rfl hn⟩

theorem backlog_quiet (peer : Peer) (running : Option Await) (transceivers : List Transceiver) :
    (backlog { peer with transceivers := transceivers } none).Sublist (backlog peer running) :=
  List.sublist_append_right _ _

structure TurnKept (turn : Turn) (hand : List Candidate) : Prop where
  kept : Kept turn.peer turn.awaits
  order : (turn.calls ++ backlog turn.peer turn.awaits).Sublist hand

theorem turnKept_assign {hand : List Candidate}
    (hb : peer.remoteDescription.isSome → peer.candidates = [])
    (hh : peer.candidates.Sublist hand) (index : Nat) :
    TurnKept (peer.assign stream index) hand := by
  unfold Peer.assign
  split
  · exact ⟨⟨hb,fun h => absurd rfl h⟩,hh⟩
  · exact ⟨⟨hb,fun h => absurd rfl h⟩,hh⟩

theorem turnKept_flush {offer : Bool} {rest : List Candidate}
    (hr : peer.remoteDescription.isSome) (hc : peer.candidates = []) :
    TurnKept (peer.flush stream offer rest) rest := by
  cases rest with
  | cons c rest =>
    refine ⟨⟨fun _ => hc,fun _ => hr⟩,?_⟩
    simp [Peer.flush,Turn.calls,Await.calls,backlog,Await.rest,hc]
  | nil =>
    unfold Peer.flush
    cases offer with
    | true => exact turnKept_assign (fun _ => hc) (by rw [hc]) 0
    | false => exact ⟨⟨fun _ => hc,fun h => absurd rfl h⟩,by simp [Turn.calls,backlog,hc]⟩

theorem turnKept_perform (h : Kept peer none) (operation : Operation) :
    TurnKept (peer.perform stream operation)
      (backlog peer none ++ operation.heard.flatMap Signal.candidates) := by
  have hb := h.buffer
  cases operation with
  | offer => exact ⟨⟨hb,fun h => absurd rfl h⟩,by simp [Peer.perform,Turn.calls,Await.calls,
      backlog,Await.rest,Operation.heard]⟩
  | handle signal =>
    cases signal with
    | offer sdp | answer sdp =>
      exact ⟨⟨hb,fun h => absurd rfl h⟩,by simp [Peer.perform,Turn.calls,Await.calls,backlog,
        Await.rest,Operation.heard,Signal.candidates]⟩
    | iceCandidate c =>
      by_cases hr : peer.remoteDescription.isSome
      · have hadded : peer.perform stream (.handle (.iceCandidate c)) =
            ⟨peer,some (.addIceCandidate c),[]⟩ := by simp [Peer.perform,hr]
        rw [hadded]
        exact ⟨⟨hb,fun _ => hr⟩,by simp [Turn.calls,Await.calls,backlog,Await.rest,
          Operation.heard,Signal.candidates,hb hr]⟩
      · have hkept : peer.perform stream (.handle (.iceCandidate c)) =
            ⟨{ peer with candidates := peer.candidates ++ [c] },none,[]⟩ := by
          simp [Peer.perform,hr]
        rw [hkept]
        exact ⟨⟨fun hn => absurd hn hr,fun h => absurd rfl h⟩,by simp [Turn.calls,backlog,
          Operation.heard,Signal.candidates]⟩

theorem turnKept_resume (h : Kept peer (some await)) (id sdp : JsString) (kinds : List Kind) :
    TurnKept (peer.resume stream id sdp kinds await) (backlog peer (some await)) := by
  have hb := h.buffer
  cases await with
  | createOffer | createAnswer =>
    exact ⟨⟨hb,fun h => absurd rfl h⟩,by simp [Peer.resume,Turn.calls,Await.calls,backlog,Await.rest]⟩
  | setLocalOffer | setLocalAnswer | addIceCandidate c =>
    exact ⟨⟨hb,fun h => absurd rfl h⟩,by simp [Peer.resume,Turn.calls,backlog,Await.rest]⟩
  | setRemoteDescription offer remote => exact turnKept_flush rfl rfl
  | flush offer c rest =>
    have hr : peer.remoteDescription.isSome := h.remote (by simp [Await.calls])
    have hhand : backlog peer (some (.flush offer c rest)) = rest := by
      simp [backlog,Await.rest,hb hr]
    rw [hhand]
    let next : Peer := { peer with ice := peer.ice ++ [c] }
    have hflush : TurnKept (next.flush stream offer rest) rest := turnKept_flush hr (hb hr)
    exact hflush
  | replaceTrack index => exact turnKept_assign hb (List.Sublist.refl _) (index + 1)

theorem turnKept_turn (s : Serial) (h : Kept peer (some await)) (id sdp : JsString)
    (kinds : List Kind) :
    TurnKept (s.turn id sdp kinds peer await) (backlog peer (some await)) := by
  unfold Serial.turn
  simp only
  split
  · have hb := h.buffer
    cases await with
    | setRemoteDescription offer remote =>
      exact ⟨⟨fun _ => rfl,fun h => absurd rfl h⟩,by simp [Peer.applied,Turn.calls,backlog]⟩
    | flush offer c rest =>
      refine ⟨⟨hb,fun h => absurd rfl h⟩,?_⟩
      simp [Peer.applied,Turn.calls,backlog]
    | _ =>
      exact ⟨⟨hb,fun h => absurd rfl h⟩,by simp [Peer.applied,Turn.calls,backlog]⟩
  · exact turnKept_resume h id sdp kinds

end

/-- How the operations of one peer stand to what was enqueued for it, and its candidates to
what was received. -/
inductive InOrder (s : Serial) (id : JsString) (enqueued begun : List Operation)
    (received called : List Candidate) : Prop where
  | accepted (ha : s.session.accepts id) (hs : s.suspended id = [])
      (ho : enqueued = begun ++ (s.session.queue id).waiting)
      (hk : Kept (s.session.peer id) (s.session.queue id).running)
      (hc : (called ++ (backlog (s.session.peer id) (s.session.queue id).running ++
        (s.session.queue id).heard.flatMap Signal.candidates)).Sublist received)
  | gone (ha : s.session.accepts id = false) (hp : s.session.peers.get id = none)
      (hq : (s.session.queue id).running = none) (hl : (s.suspended id).length ≤ 1)
      (ho : begun <+: enqueued) (hk : ∀ x ∈ s.suspended id, Kept x.peer (some x.await))
      (hc : (called ++ (s.suspended id).flatMap (fun x => backlog x.peer (some x.await))).Sublist
        received)

section
variable {s t : Serial} {id : JsString} {enqueued begun : List Operation}
  {received called : List Candidate}

theorem inOrder_init (id : JsString) : InOrder Serial.init id [] [] [] [] :=
  .accepted rfl rfl rfl kept_new (List.Sublist.refl _)

theorem InOrder.active_le (h : InOrder s id enqueued begun received called) :
    s.active id ≤ 1 := by
  cases h with
  | accepted ha hs => cases hr : (s.session.queue id).running <;> simp [Serial.active,hs,hr]
  | gone ha hp hq hl => simpa [Serial.active,hq] using hl

/-- The operations cut off by a removal go on from where they are. -/
theorem mem_running {x : Suspended} (hx : x ∈ s.running id) :
    x.peer = s.session.peer id ∧ (s.session.queue id).running = some x.await := by
  unfold Serial.running at hx
  split at hx
  · rename_i peer await hp hr
    rw [List.mem_singleton] at hx
    subst hx
    exact ⟨(peer_of_get hp).symm,hr⟩
  · cases hx

theorem running_length (s : Serial) (id : JsString) : (s.running id).length ≤ 1 := by
  unfold Serial.running
  split <;> simp

theorem running_backlog (s : Serial) (id : JsString) :
    ((s.running id).flatMap (fun x => backlog x.peer (some x.await))).Sublist
      (backlog (s.session.peer id) (s.session.queue id).running) := by
  unfold Serial.running
  split
  · rename_i peer await hp hr
    rw [peer_of_get hp,hr]
    simp
  · exact List.nil_sublist _

/-- Once the peer is gone, nothing of its queue comes to life again. -/
theorem begun_of_gone (ha : s.session.accepts id = false) (e : SerialEvent) :
    s.begun id e = [] := by
  cases e with
  | session e =>
    cases e with
    | next j =>
      simp only [Serial.begun]
      split
      · rw [if_neg]
        rintro ⟨rfl,hj⟩
        rw [ha] at hj
        cases hj
      · rfl
    | _ => rfl
  | _ => rfl

theorem turnOf_of_gone (ha : s.session.accepts id = false)
    (hq : (s.session.queue id).running = none) (e : SessionEvent) :
    s.turnOf id (.session e) = none := by
  cases e with
  | next j =>
    simp only [Serial.turnOf]
    split
    · rw [if_neg]
      rintro ⟨rfl,hj⟩
      rw [ha] at hj
      cases hj
    · rfl
  | settle j sdp kinds =>
    simp only [Serial.turnOf]
    split
    · rename_i await hr
      rw [if_neg]
      rintro rfl
      rw [hq] at hr
      cases hr
    · rfl
  | _ => rfl

theorem running_of_gone {u : Session} {e : SessionEvent} {out : List Output}
    (h : s.session.step e = some (u,out)) (ha : s.session.accepts id = false)
    (hq : (s.session.queue id).running = none) : (u.queue id).running = none := by
  have heffect := line_effect h id
  generalize u.peer id = peer at heffect
  generalize u.queue id = queue at heffect
  have hnone : ∀ await, (s.session.queue id).running ≠ some await := by simp [hq]
  cases heffect with
  | same | unheard | heard => exact hq
  | begun operation waiting hqueue hyes =>
    rw [ha] at hyes
    cases hyes
  | skipped | removed | ended => rfl
  | resumed sdp kinds await hhas hr => exact absurd hr (hnone await)
  | rejected | unassigned => rfl
  | assigned index transceivers hhas hr => exact absurd hr (hnone _)

theorem step_session {e : SessionEvent} {out : List Output}
    (hne : ∀ id sdp kinds, e ≠ .settle id sdp kinds)
    (h : s.step (.session e) = some (t,out)) : ∃ u, s.session.step e = some (u,out) ∧
      t = ⟨u,s.started,fun id => s.suspended id ++ s.detach e id⟩ := by
  unfold Serial.step at h
  split at h
  · rename_i id sdp kinds he
    exact absurd (SerialEvent.session.inj he) (hne id sdp kinds)
  · rename_i he
    cases he
    simp only [Option.bind_eq_bind,Option.bind_eq_some_iff,Prod.exists,Option.pure_def,
      Option.some.injEq,Prod.mk.injEq] at h
    obtain ⟨u,o,hu,ht,rfl⟩ := h
    exact ⟨u,hu,ht.symm⟩
  · rename_i he
    cases he
  · rename_i he
    cases he

theorem step_settle {j sdp : JsString} {kinds : List Kind} {out : List Output}
    (h : s.step (.session (.settle j sdp kinds)) = some (t,out)) :
    ∃ await, s.session.peers.has j ∧ (s.session.queue j).running = some await ∧
      (∀ i, await ≠ .replaceTrack i) ∧
      t = { s with session := (s.session.after j (s.session.queue j).waiting
        (s.turn j sdp kinds (s.session.peer j) await)).1 } ∧
      out = s.report j (s.turn j sdp kinds (s.session.peer j) await).out := by
  simp only [Serial.step] at h
  split at h
  · cases h
  · rename_i peer await hne hp hr
    simp only [Option.some.injEq,Prod.mk.injEq] at h
    obtain ⟨rfl,rfl⟩ := h
    refine ⟨await,by simp [OrderedMap.has,hp],hr,fun i hi => hne i hi,?_,?_⟩
    · rw [peer_of_get hp]
    · rw [peer_of_get hp]
      rfl
  · cases h

def Serial.lateTurn (s : Serial) (id : JsString) (ok : Bool) (sdp : JsString)
    (kinds : List Kind) (x : Suspended) : Turn :=
  if ok then s.turn id sdp kinds x.peer x.await else ⟨x.peer,none,[.error]⟩

theorem step_late {j sdp : JsString} {index : Nat} {ok : Bool} {kinds : List Kind}
    {out : List Output} (h : s.step (.late j index ok sdp kinds) = some (t,out)) :
    ∃ x, (s.suspended j)[index]? = some x ∧ t.session = s.session ∧
      (∀ i, i ≠ j → t.suspended i = s.suspended i) ∧
      t.suspended j = (match (s.lateTurn j ok sdp kinds x).awaits with
        | some await =>
          (s.suspended j).set index ⟨(s.lateTurn j ok sdp kinds x).peer,await⟩
        | none => (s.suspended j).eraseIdx index) ∧
      out = s.report j (s.lateTurn j ok sdp kinds x).out := by
  simp only [Serial.step,Option.bind_eq_bind,Option.bind_eq_some_iff,Option.pure_def,
    Option.some.injEq,Prod.mk.injEq] at h
  obtain ⟨x,hx,rfl,rfl⟩ := h
  refine ⟨x,hx,rfl,fun i hi => ?_,?_,rfl⟩
  · simp [Function.update_of_ne hi]
  · simp only [Function.update_self]
    rfl

theorem inOrder_accepted (hn : t.session.accepts id)
    (hs : t.suspended id = []) {peer : Peer} {queue : Queue} (hpeer : t.session.peer id = peer)
    (hqueue : t.session.queue id = queue) (ho : enqueued = begun ++ queue.waiting)
    (hk : Kept peer queue.running)
    (hc : (called ++ (backlog peer queue.running ++
      queue.heard.flatMap Signal.candidates)).Sublist received) :
    InOrder t id enqueued begun received called := by
  subst hpeer
  subst hqueue
  exact .accepted hn hs ho hk hc

theorem inOrder_turn (hn : t.session.accepts id) (hs : t.suspended id = []) {turn : Turn}
    {waiting : List Operation} {hand : List Candidate} (hpeer : t.session.peer id = turn.peer)
    (hqueue : t.session.queue id = ⟨turn.awaits,waiting⟩) (hk : TurnKept turn hand)
    (ho : enqueued = begun ++ waiting)
    (hc : (called ++ (hand ++ (waiting.flatMap Operation.heard).flatMap
      Signal.candidates)).Sublist received) :
    InOrder t id enqueued begun received (called ++ turn.calls) := by
  refine inOrder_accepted hn hs hpeer hqueue ho hk.kept (List.Sublist.trans ?_ hc)
  rw [List.append_assoc,← List.append_assoc turn.calls]
  exact (List.Sublist.refl called).append (hk.order.append (List.Sublist.refl _))

theorem inOrder_settle (h : InOrder s id enqueued begun received called) {j sdp : JsString}
    {kinds : List Kind} {out : List Output}
    (hstep : s.step (.session (.settle j sdp kinds)) = some (t,out)) :
    InOrder t id enqueued begun received
      (called ++ s.called id (.session (.settle j sdp kinds))) := by
  obtain ⟨await,hhas,hr,hne,ht,_⟩ := step_settle hstep
  have hpeer := peer_after s.session j id (s.session.queue j).waiting
    (s.turn j sdp kinds (s.session.peer j) await)
  have hqueue := Session.queue_after s.session j id (s.session.queue j).waiting
    (s.turn j sdp kinds (s.session.peer j) await)
  have hget := Session.peers_after s.session j id (s.session.queue j).waiting
    (s.turn j sdp kinds (s.session.peer j) await)
  have haccepts : t.session.accepts id = s.session.accepts id := by rw [ht]; rfl
  have hsuspended : t.suspended id = s.suspended id := by rw [ht]
  have hsession : t.session = (s.session.after j (s.session.queue j).waiting
      (s.turn j sdp kinds (s.session.peer j) await)).1 := by rw [ht]
  rw [← hsession] at hpeer hqueue hget
  by_cases hj : id = j
  · subst hj
    rw [if_pos rfl] at hpeer hqueue
    have hcalled : s.called id (.session (.settle id sdp kinds)) =
        (s.turn id sdp kinds (s.session.peer id) await).calls := by
      simp [Serial.called,Serial.turnOf,hr]
    rw [hcalled]
    cases h with
    | accepted ha hs ho hk hc =>
      rw [hr] at hk hc
      exact inOrder_turn (haccepts.trans ha) (hsuspended.trans hs) hpeer hqueue
        (turnKept_turn s hk id sdp kinds) ho hc
    | gone ha hp hq => rw [hq] at hr; cases hr
  · rw [if_neg hj] at hpeer hqueue
    have hcalled : s.called id (.session (.settle j sdp kinds)) = [] := by
      simp [Serial.called,Serial.turnOf,hr,Ne.symm hj]
    rw [hcalled,List.append_nil]
    cases h with
    | accepted ha hs ho hk hc =>
      exact inOrder_accepted (haccepts.trans ha) (hsuspended.trans hs) hpeer hqueue ho hk hc
    | gone ha hp hq hl ho hk hc =>
      rw [if_neg hj] at hget
      rw [← hsuspended] at hl hk hc
      exact .gone (haccepts.trans ha) (hget.trans hp) (by rw [hqueue]; exact hq) hl ho hk hc

theorem inOrder_late (h : InOrder s id enqueued begun received called) {j sdp : JsString}
    {index : Nat} {ok : Bool} {kinds : List Kind} {out : List Output}
    (hstep : s.step (.late j index ok sdp kinds) = some (t,out)) :
    InOrder t id enqueued begun received
      (called ++ s.called id (.late j index ok sdp kinds)) := by
  obtain ⟨x,hx,hsession,hother,hself,_⟩ := step_late hstep
  by_cases hj : j = id
  · subst hj
    cases h with
    | accepted ha hs => simp [hs] at hx
    | gone ha hp hq hl ho hk hc =>
      obtain ⟨y,hy⟩ : ∃ y, s.suspended j = [y] := by
        have hpos := (List.getElem?_eq_some_iff.mp hx).1
        exact List.length_eq_one_iff.mp (by omega)
      rw [hy] at hx hself hk hc
      have hindex : index = 0 := by
        have := (List.getElem?_eq_some_iff.mp hx).1
        simpa using this
      subst hindex
      simp only [List.getElem?_cons_zero,Option.some.injEq] at hx
      subst hx
      have hturn : TurnKept (s.lateTurn j ok sdp kinds y) (backlog y.peer (some y.await)) ∧
          s.called j (.late j 0 ok sdp kinds) = (s.lateTurn j ok sdp kinds y).calls := by
        cases ok with
        | true =>
          refine ⟨turnKept_turn s (hk y (List.mem_singleton_self y)) j sdp kinds,?_⟩
          simp [Serial.called,Serial.turnOf,hy,Serial.lateTurn,Option.filter_some]
        | false =>
          refine ⟨⟨(hk y (List.mem_singleton_self y)).quiet y.peer.transceivers,?_⟩,rfl⟩
          simp [Serial.lateTurn,Turn.calls,backlog]
      obtain ⟨hturn,hcalled⟩ := hturn
      rw [hcalled]
      rw [List.flatMap_singleton] at hc
      have horder := ((List.Sublist.refl called).append hturn.order).trans hc
      rw [← List.append_assoc] at horder
      cases haw : (s.lateTurn j ok sdp kinds y).awaits with
      | none =>
        rw [haw] at hself horder
        have hnil : t.suspended j = [] := by simpa using hself
        refine .gone (hsession ▸ ha) (hsession ▸ hp) (hsession ▸ hq) (by simp [hnil]) ho
          (by simp [hnil]) ?_
        rw [hnil,List.flatMap_nil,List.append_nil]
        exact (List.sublist_append_left _ _).trans horder
      | some await =>
        rw [haw] at hself horder
        have hone : t.suspended j = [⟨(s.lateTurn j ok sdp kinds y).peer,await⟩] := by
          simpa using hself
        refine .gone (hsession ▸ ha) (hsession ▸ hp) (hsession ▸ hq) (by simp [hone]) ho ?_ ?_
        · rw [hone]
          intro z hz
          rw [List.mem_singleton.mp hz]
          have hkept := hturn.kept
          rw [haw] at hkept
          exact hkept
        · rw [hone,List.flatMap_singleton]
          exact horder
  · have hcalled : s.called id (.late j index ok sdp kinds) = [] := by
      cases ok with
      | true => simp [Serial.called,Serial.turnOf,hj]
      | false => rfl
    have hsuspended : t.suspended id = s.suspended id := hother id (Ne.symm hj)
    rw [hcalled,List.append_nil]
    cases h with
    | accepted ha hs ho hk hc =>
      rw [← hsession] at ha ho hk hc
      exact .accepted ha (hsuspended.trans hs) ho hk hc
    | gone ha hp hq hl ho hk hc =>
      rw [← hsession] at ha hp hq
      rw [← hsuspended] at hl hk hc
      exact .gone ha hp hq hl ho hk hc

@[simp] theorem assign_calls (peer : Peer) (stream : Stream) (index : Nat) :
    (peer.assign stream index).calls = [] := by
  unfold Peer.assign
  split <;> rfl

theorem quiet_event {e : SessionEvent} (he : e.turnOf ≠ some id) :
    s.enqueued id (.session e) = [] ∧ s.begun id (.session e) = [] ∧
      s.called id (.session e) = [] := by
  cases e with
  | signal j sg =>
    have hj : j ≠ id := fun hj => he (by rw [hj]; rfl)
    exact ⟨by simp [Serial.enqueued,hj],rfl,rfl⟩
  | next j =>
    have hj : j ≠ id := fun hj => he (by rw [hj]; rfl)
    refine ⟨rfl,?_,?_⟩
    · simp only [Serial.begun,hj,false_and,if_false]
      split <;> rfl
    · simp only [Serial.called,Serial.turnOf,hj,false_and,if_false]
      split <;> rfl
  | settle j sdp kinds =>
    have hj : j ≠ id := fun hj => he (by rw [hj]; rfl)
    refine ⟨rfl,rfl,?_⟩
    simp only [Serial.called,Serial.turnOf,hj,if_false]
    split <;> rfl
  | _ => exact ⟨rfl,rfl,rfl⟩

theorem inOrder_line (ha : s.session.accepts id)
    (ho : enqueued = begun ++ (s.session.queue id).waiting)
    (hk : Kept (s.session.peer id) (s.session.queue id).running)
    (hc : (called ++ (backlog (s.session.peer id) (s.session.queue id).running ++
      (s.session.queue id).heard.flatMap Signal.candidates)).Sublist received)
    {e : SessionEvent} (hne : ∀ id sdp kinds, e ≠ .settle id sdp kinds)
    (heffect : LineEffect s.session id e (t.session.peer id) (t.session.queue id))
    (hyes : t.session.accepts id) (hs : t.suspended id = [])
    (hgone : ¬ (e = .close ∨ e = .removePeer id)) :
    InOrder t id (enqueued ++ s.enqueued id (.session e)) (begun ++ s.begun id (.session e))
      (received ++ s.received id (.session e)) (called ++ s.called id (.session e)) := by
  have hopen : s.session.closed = false := by
    simp only [Session.accepts,Bool.and_eq_true,Bool.not_eq_true'] at ha
    exact ha.1
  generalize hpeer : t.session.peer id = peer at heffect
  generalize hqueue : t.session.queue id = queue at heffect
  -- where a queued operation ends by a failure, or a sender's track changes
  have hquiet : ∀ transceivers, t.session.peer id = { s.session.peer id with
      transceivers := transceivers } → t.session.queue id =
      ⟨none,(s.session.queue id).waiting⟩ → InOrder t id enqueued begun received called := by
    intro transceivers hpeer hqueue
    refine inOrder_accepted hyes hs hpeer hqueue ho (hk.quiet transceivers)
      (List.Sublist.trans ?_ hc)
    exact (List.Sublist.refl called).append
      ((backlog_quiet _ _ transceivers).append (List.Sublist.refl _))
  cases heffect with
  | same _ transceivers he =>
    obtain ⟨henqueued,hbegun,hcalled⟩ := quiet_event (s := s) he
    rw [Serial.received,henqueued,hbegun,hcalled]
    simp only [List.flatMap_nil,List.append_nil]
    exact inOrder_accepted hyes hs hpeer hqueue ho ⟨hk.buffer,hk.remote⟩ hc
  | unheard signal hclosed =>
    rw [hclosed] at hopen
    cases hopen
  | heard signal hclosed =>
    have henqueued : s.enqueued id (.session (.signal id signal)) = [.handle signal] := by
      simp [Serial.enqueued,hclosed]
    have hbegun : s.begun id (.session (.signal id signal)) = [] := rfl
    have hcalled : s.called id (.session (.signal id signal)) = [] := rfl
    rw [Serial.received,henqueued,hbegun,hcalled,List.append_nil,List.append_nil]
    refine inOrder_accepted hyes hs hpeer hqueue ?_ hk ?_
    · rw [ho,List.append_assoc]
    · have happend := hc.append (List.Sublist.refl (signal.candidates))
      simpa [Queue.heard,Operation.heard] using happend
  | begun operation waiting hq hacc =>
    have hbegun : s.begun id (.session (.next id)) = [operation] := by
      simp [Serial.begun,hq,ha]
    have hcalled : s.called id (.session (.next id)) =
        ((s.session.peer id).perform s.session.localStream operation).calls := by
      simp [Serial.called,Serial.turnOf,hq,ha]
    have henqueued : s.enqueued id (.session (.next id)) = [] := rfl
    rw [Serial.received,henqueued,hbegun,hcalled]
    simp only [List.flatMap_nil,List.append_nil]
    rw [hq] at hk hc ho
    refine inOrder_turn hyes hs hpeer hqueue (turnKept_perform hk operation)
      (by rw [ho]; simp) ?_
    simpa [Queue.heard] using hc
  | skipped operation waiting hq hacc =>
    rw [ha] at hacc
    cases hacc
  | resumed sdp kinds => exact absurd rfl (hne id sdp kinds)
  | rejected await hp hr =>
    have h := hquiet _ hpeer hqueue
    simpa [Serial.received,Serial.enqueued,Serial.begun,Serial.called,Serial.turnOf] using h
  | assigned index transceivers hp hr =>
    rw [hr] at hk hc
    let next : Peer := { s.session.peer id with transceivers := transceivers }
    have hbuffer : next.remoteDescription.isSome → next.candidates = [] := hk.buffer
    have hbacklog : next.candidates.Sublist
        (backlog (s.session.peer id) (some (.replaceTrack index))) := List.Sublist.refl _
    have hturn : TurnKept (next.assign s.session.localStream (index + 1))
        (backlog (s.session.peer id) (some (.replaceTrack index))) :=
      turnKept_assign hbuffer hbacklog (index + 1)
    have h := inOrder_turn hyes hs hpeer hqueue hturn ho hc
    rw [assign_calls,List.append_nil] at h
    simpa [Serial.received,Serial.enqueued,Serial.begun,Serial.called,Serial.turnOf] using h
  | unassigned index transceivers hp hr =>
    have h := hquiet _ hpeer hqueue
    simpa [Serial.received,Serial.enqueued,Serial.begun,Serial.called,Serial.turnOf] using h
  | removed => exact absurd (Or.inr rfl) hgone
  | ended => exact absurd (Or.inl rfl) hgone

theorem inOrder_session (h : InOrder s id enqueued begun received called) {e : SessionEvent}
    {out : List Output} (hne : ∀ id sdp kinds, e ≠ .settle id sdp kinds)
    (hstep : s.step (.session e) = some (t,out)) :
    InOrder t id (enqueued ++ s.enqueued id (.session e)) (begun ++ s.begun id (.session e))
      (received ++ s.received id (.session e)) (called ++ s.called id (.session e)) := by
  obtain ⟨u,hu,rfl⟩ := step_session hne hstep
  have haccepts := accepts_step hu id
  cases h with
  | gone ha hp hq hl ho hk hc =>
    have hno : u.accepts id = false := by
      by_contra hyes
      have := (haccepts.mp (by simpa using hyes)).1
      rw [ha] at this
      cases this
    have hdetach : s.detach e id = [] := by
      unfold Serial.detach Serial.running
      rw [hp]
      split
      · split <;> rfl
      · rfl
      · rfl
    have hsuspended : s.suspended id ++ s.detach e id = s.suspended id := by
      rw [hdetach,List.append_nil]
    have hcalled : s.called id (.session e) = [] := by
      rw [Serial.called,turnOf_of_gone ha hq]
      rfl
    rw [begun_of_gone ha,hcalled,List.append_nil,List.append_nil]
    refine .gone hno (peers_gone hu hno (fun _ => hp)) (running_of_gone hu ha hq) ?_
      (ho.trans (List.prefix_append _ _)) ?_ ?_
    · simpa only [hsuspended] using hl
    · simpa only [hsuspended] using hk
    · simpa only [hsuspended] using hc.trans (List.sublist_append_left _ _)
  | accepted ha hs ho hk hc =>
    by_cases hgone : e = .close ∨ e = .removePeer id
    · have hdetach : s.suspended id ++ s.detach e id = s.running id := by
        rw [hs,List.nil_append]
        rcases hgone with rfl | rfl <;> simp [Serial.detach]
      have hnothing : s.enqueued id (.session e) = [] ∧ s.begun id (.session e) = [] ∧
          s.called id (.session e) = [] := by
        rcases hgone with rfl | rfl <;> exact ⟨rfl,rfl,rfl⟩
      have hno : u.accepts id = false := by
        by_contra hyes
        have := haccepts.mp (by simpa using hyes)
        exact hgone.elim this.2.1 this.2.2
      have hq : (u.queue id).running = none := by
        rcases hgone with rfl | rfl
        · cases hu
          rfl
        · cases hu
          rw [Session.queue_removePeer,if_pos rfl]
      have hreceived : s.received id (.session e) = [] := by
        rw [Serial.received,hnothing.1]
        rfl
      rw [hnothing.1,hnothing.2.1,hnothing.2.2,hreceived]
      simp only [List.append_nil]
      refine .gone hno (peers_gone hu hno (fun hn => by rw [ha] at hn; cases hn)) hq ?_
        ⟨_,ho.symm⟩ ?_ ?_
      · simpa only [hdetach] using running_length s id
      · simp only [hdetach]
        intro x hx
        obtain ⟨hpx,hrx⟩ := mem_running hx
        rw [hpx,← hrx]
        exact hk
      · simp only [hdetach]
        refine List.Sublist.trans ?_ hc
        exact (List.Sublist.refl called).append
          ((running_backlog s id).trans (List.sublist_append_left _ _))
    · have hyes : u.accepts id :=
        haccepts.mpr ⟨ha,fun he => hgone (Or.inl he),fun he => hgone (Or.inr he)⟩
      have hdetach : s.suspended id ++ s.detach e id = [] := by
        rw [hs,List.nil_append]
        unfold Serial.detach
        split
        · rw [if_neg]
          rintro rfl
          exact hgone (Or.inr rfl)
        · exact absurd (Or.inl rfl) hgone
        · rfl
      exact inOrder_line ha ho hk hc hne (line_effect hu id) hyes hdetach hgone

theorem start_session (l : List JsString) (u : Session) (id : JsString) :
    let v := l.foldl (fun t id => t.enqueue id .offer) u
    v.peers = u.peers ∧ v.departed = u.departed ∧ v.closed = u.closed ∧
      v.queue id = ⟨(u.queue id).running,(u.queue id).waiting ++
        List.replicate (l.count id) .offer⟩ := by
  induction l generalizing u with
  | nil => simp
  | cons j l ih =>
    simp only [List.foldl_cons]
    obtain ⟨hp,hd,hc,hq⟩ := ih (u.enqueue j .offer)
    refine ⟨hp,hd,hc,?_⟩
    rw [hq,Session.queue_enqueue]
    by_cases hj : id = j
    · subst hj
      simp [List.replicate_succ]
    · simp [hj,List.count_cons_of_ne (Ne.symm hj)]

theorem inOrder_start (h : InOrder s id enqueued begun received called)
    {localStream : Stream} {participants : List JsString} {out : List Output}
    (hstep : s.step (.start localStream participants) = some (t,out)) :
    InOrder t id (enqueued ++ s.enqueued id (.start localStream participants)) begun
      (received ++ s.received id (.start localStream participants)) called := by
  simp only [Serial.step,Option.some.injEq,Prod.mk.injEq] at hstep
  obtain ⟨ht,_⟩ := hstep
  obtain ⟨hp,hd,hc',hq⟩ := start_session participants
    { s.session with localStream := localStream } id
  generalize participants.foldl (fun t id => t.enqueue id .offer)
    { s.session with localStream := localStream } = u at ht hp hd hc' hq
  subst ht
  have haccepts : u.accepts id = s.session.accepts id := by
    simp [Session.accepts,hd,hc']
  have hpeer : u.peer id = s.session.peer id := by rw [Session.peer,hp]; rfl
  have hreceived : s.received id (.start localStream participants) = [] := by
    simp [Serial.received,Serial.enqueued,Operation.heard]
  rw [hreceived,List.append_nil]
  cases h with
  | accepted ha hs ho hk hc =>
    refine inOrder_accepted (haccepts.trans ha) hs hpeer hq ?_ hk ?_
    · rw [ho,List.append_assoc]
      rfl
    · have hheard : (Queue.mk (s.session.queue id).running ((s.session.queue id).waiting ++
          List.replicate (participants.count id) .offer)).heard = (s.session.queue id).heard := by
        simp [Queue.heard,Operation.heard]
      simp only at hheard ⊢
      rw [← hheard] at hc
      exact hc
  | gone ha hp' hq' hl ho hk hc =>
    refine .gone (haccepts.trans ha) (by rw [hp]; exact hp') (by rw [hq]; exact hq') hl
      (ho.trans (List.prefix_append _ _)) hk hc

theorem inOrder_step (h : InOrder s id enqueued begun received called) {e : SerialEvent}
    {out : List Output} (hstep : s.step e = some (t,out)) :
    InOrder t id (enqueued ++ s.enqueued id e) (begun ++ s.begun id e)
      (received ++ s.received id e) (called ++ s.called id e) := by
  cases e with
  | session e =>
    by_cases hsettle : ∃ j sdp kinds, e = .settle j sdp kinds
    · obtain ⟨j,sdp,kinds,rfl⟩ := hsettle
      have h := inOrder_settle h hstep
      simpa [Serial.enqueued,Serial.begun,Serial.received] using h
    · exact inOrder_session h (fun j sdp kinds he => hsettle ⟨j,sdp,kinds,he⟩) hstep
  | start localStream participants =>
    have h := inOrder_start h hstep
    simpa [Serial.begun,Serial.called,Serial.turnOf] using h
  | late j index ok sdp kinds =>
    have h := inOrder_late h hstep
    simpa [Serial.enqueued,Serial.begun,Serial.received] using h

theorem inOrder_run {es : List SerialEvent}
    (h : Runs.exec Serial.advance Serial.init es = some s) (id : JsString) :
    InOrder s id (Runs.trace Serial.advance (Serial.enqueued id) Serial.init es)
      (Runs.trace Serial.advance (Serial.begun id) Serial.init es)
      (Runs.trace Serial.advance (Serial.received id) Serial.init es)
      (Runs.trace Serial.advance (Serial.called id) Serial.init es) := by
  refine Runs.exec_induction (I := fun es s => InOrder s id
      (Runs.trace Serial.advance (Serial.enqueued id) Serial.init es)
      (Runs.trace Serial.advance (Serial.begun id) Serial.init es)
      (Runs.trace Serial.advance (Serial.received id) Serial.init es)
      (Runs.trace Serial.advance (Serial.called id) Serial.init es)) (inOrder_init id) ?_ h
  intro es s e t hrun hs hstep
  rw [Runs.trace_snoc hrun hstep,Runs.trace_snoc hrun hstep,Runs.trace_snoc hrun hstep,
    Runs.trace_snoc hrun hstep]
  obtain ⟨⟨_,out⟩,hout,rfl⟩ := Option.map_eq_some_iff.mp hstep
  exact inOrder_step hs hout

theorem InOrder.remote (h : InOrder s id enqueued begun received called) {e : SerialEvent}
    {turn : Turn} (ht : s.turnOf id e = some turn) (hc : turn.calls ≠ []) :
    turn.peer.remoteDescription.isSome := by
  cases e with
  | start => cases ht
  | session e =>
    cases h with
    | gone ha hp hq => rw [turnOf_of_gone ha hq] at ht; cases ht
    | accepted ha hs ho hk =>
      cases e with
      | next j =>
        simp only [Serial.turnOf] at ht
        split at ht
        · rename_i operation waiting hqueue
          split at ht
          · rename_i hj
            obtain ⟨rfl,_⟩ := hj
            cases ht
            rw [hqueue] at hk
            exact (turnKept_perform hk operation).kept.remote hc
          · cases ht
        · cases ht
      | settle j sdp kinds =>
        simp only [Serial.turnOf] at ht
        split at ht
        · rename_i await hr
          split at ht
          · rename_i hj
            subst hj
            cases ht
            rw [hr] at hk
            exact (turnKept_turn s hk j sdp kinds).kept.remote hc
          · cases ht
        · cases ht
      | _ => cases ht
  | late j index ok sdp kinds =>
    cases ok with
    | false => cases ht
    | true =>
      simp only [Serial.turnOf,Option.map_eq_some_iff,Option.filter_eq_some_iff,
        decide_eq_true_eq] at ht
      obtain ⟨x,⟨hx,rfl⟩,rfl⟩ := ht
      have hmem := List.mem_of_getElem? hx
      cases h with
      | accepted ha hs => simp [hs] at hmem
      | gone ha hp hq hl ho hk => exact (turnKept_turn s (hk x hmem) j sdp kinds).kept.remote hc

theorem failure_step {e : SerialEvent} {out : List Output}
    (hstep : s.step e = some (t,out)) (hf : s.fails e = some id) (j : JsString) :
    t.session.queue j =
      if j = id then ⟨none,(s.session.queue id).waiting⟩ else s.session.queue j := by
  cases e with
  | start | late => cases hf
  | session e =>
    cases e with
    | reject i =>
      cases hf
      obtain ⟨u,hu,rfl⟩ := step_session (by simp) hstep
      cases session_effect hu with
      | rejected => exact Session.queue_failed s.session id j
    | sender i index ok =>
      cases ok with
      | true => cases hf
      | false =>
        simp only [Serial.fails,Option.ite_none_right_eq_some,Option.some.injEq] at hf
        obtain ⟨howner,rfl⟩ := hf
        obtain ⟨u,hu,rfl⟩ := step_session (by simp) hstep
        cases session_effect hu with
        | unassigned => exact Session.queue_after s.session i j _ _
        | called _ _ _ peer v n track calls hp hv hc =>
          simp [Session.callOwner,peer_of_get hp,hv,hc] at howner
    | settle i sdp kinds =>
      obtain ⟨await,_,hr,_,rfl,_⟩ := step_settle hstep
      simp only [Serial.fails,hr,Option.ite_none_right_eq_some,Option.some.injEq] at hf
      obtain ⟨hthrows,rfl⟩ := hf
      rw [Session.queue_after,Serial.turn,if_pos hthrows]
    | _ => cases hf

theorem silent_of_gone {e : SerialEvent} {out : List Output}
    (hstep : s.step e = some (t,out)) (ha : s.session.accepts id = false)
    (hp : s.session.peers.get id = none) (he : e.about id) : Output.error ∉ out := by
  have hhas : s.session.peers.has id = false := by simp [OrderedMap.has,hp]
  cases e with
  | start => cases he
  | late j index ok sdp kinds =>
    obtain ⟨x,_,_,_,_,rfl⟩ := step_late hstep
    simp only [SerialEvent.about,decide_eq_true_eq] at he
    subst he
    simp [Serial.report,ha]
  | session e =>
    by_cases hsettle : ∃ j sdp kinds, e = .settle j sdp kinds
    · obtain ⟨j,sdp,kinds,rfl⟩ := hsettle
      obtain ⟨await,hj,_⟩ := step_settle hstep
      simp only [SerialEvent.about,decide_eq_true_eq] at he
      rw [he,hhas] at hj
      cases hj
    · obtain ⟨u,hu,rfl⟩ := step_session (fun j sdp kinds h => hsettle ⟨j,sdp,kinds,h⟩) hstep
      have hnone : ∀ j peer, s.session.peers.get j = some peer → j ≠ id := by
        rintro j peer hj rfl
        rw [hp] at hj
        cases hj
      cases session_effect hu with
      | begun j operation waiting peer hq hacc =>
        simp only [SerialEvent.about,decide_eq_true_eq] at he
        rw [he,ha] at hacc
        cases hacc
      | skipped | unheard | queued => simp
      | rejected j peer await hj =>
        exact absurd (by simpa [SerialEvent.about] using he) (hnone j peer hj)
      | assigned j index peer v track calls hj =>
        exact absurd (by simpa [SerialEvent.about] using he) (hnone j peer hj)
      | unassigned j index peer v track calls hj =>
        exact absurd (by simpa [SerialEvent.about] using he) (hnone j peer hj)
      | called j index ok peer v n track calls hj =>
        exact absurd (by simpa [SerialEvent.about] using he) (hnone j peer hj)
      | disconnected j hj =>
        simp only [SerialEvent.about,decide_eq_true_eq] at he
        rw [he,hhas] at hj
        cases hj
      | resumed j sdp kinds => exact absurd ⟨j,sdp,kinds,rfl⟩ hsettle
      | _ => cases he

end

structure Serialised (s : Serial) (e : SerialEvent) (t : Serial) (out : List Output)
    (id : JsString) : Prop where
  one : t.active id ≤ 1
  begins : s.begun id e ≠ [] → s.active id = 0
  progress : ∀ operation waiting, s.session.queue id = ⟨none,operation :: waiting⟩ →
    ∃ u o, s.step (.session (.next id)) = some (u,o) ∧ (u.session.queue id).waiting = waiting ∧
      (s.session.accepts id → s.begun id (.session (.next id)) = [operation])
  failure : s.fails e = some id → ∀ j, t.session.queue j =
    if j = id then ⟨none,(s.session.queue id).waiting⟩ else s.session.queue j
  leaves : e = .session (.removePeer id) ∨ e = .session .close ∨
    s.session.accepts id = false → t.session.accepts id = false
  gone : s.session.accepts id = false → s.begun id e = [] ∧ t.session.peers.get id = none ∧
    (e.about id → Output.error ∉ out)
  remote : ∀ turn ∈ s.turnOf id e, turn.calls ≠ [] → turn.peer.remoteDescription.isSome

section
variable {s t : Serial} {id : JsString} {enqueued begun : List Operation}
  {received called : List Candidate}

theorem next_progress {operation : Operation} {waiting : List Operation}
    (hq : s.session.queue id = ⟨none,operation :: waiting⟩) :
    ∃ u o, s.step (.session (.next id)) = some (u,o) ∧ (u.session.queue id).waiting = waiting ∧
      (s.session.accepts id → s.begun id (.session (.next id)) = [operation]) := by
  have hbegun : s.session.accepts id → s.begun id (.session (.next id)) = [operation] := by
    intro ha
    simp [Serial.begun,hq,ha]
  by_cases ha : s.session.accepts id
  · refine ⟨_,_,by simp only [Serial.step,Session.step,hq,ha,if_true]; rfl,?_,hbegun⟩
    simp only [Session.queue_after,if_true]
  · refine ⟨_,_,by simp only [Serial.step,Session.step,hq,ha]; rfl,?_,hbegun⟩
    simp [Session.queue]

theorem active_of_begun (h : InOrder s id enqueued begun received called) {e : SerialEvent}
    (hb : s.begun id e ≠ []) : s.active id = 0 := by
  cases h with
  | gone ha => exact absurd (begun_of_gone ha e) hb
  | accepted ha hs =>
    cases e with
    | session e =>
      cases e with
      | next j =>
        simp only [Serial.begun] at hb
        split at hb
        · rename_i operation waiting hq
          split at hb
          · rename_i hj
            obtain ⟨rfl,_⟩ := hj
            simp [Serial.active,hs,hq]
          · exact absurd rfl hb
        · exact absurd rfl hb
      | _ => exact absurd rfl hb
    | _ => exact absurd rfl hb

theorem accepts_mono {e : SerialEvent} {out : List Output} (hstep : s.step e = some (t,out))
    (ha : t.session.accepts id) :
    s.session.accepts id ∧ e ≠ .session (.removePeer id) ∧ e ≠ .session .close := by
  cases e with
  | start localStream participants =>
    simp only [Serial.step,Option.some.injEq,Prod.mk.injEq] at hstep
    obtain ⟨rfl,_⟩ := hstep
    obtain ⟨_,hd,hc,_⟩ := start_session participants
      { s.session with localStream := localStream } id
    refine ⟨?_,by simp,by simp⟩
    simpa [Session.accepts,hd,hc] using ha
  | late j index ok sdp kinds =>
    obtain ⟨_,_,hsession,_⟩ := step_late hstep
    rw [hsession] at ha
    exact ⟨ha,by simp,by simp⟩
  | session e =>
    by_cases hsettle : ∃ j sdp kinds, e = .settle j sdp kinds
    · obtain ⟨j,sdp,kinds,rfl⟩ := hsettle
      obtain ⟨_,_,_,_,rfl,_⟩ := step_settle hstep
      exact ⟨ha,by simp,by simp⟩
    · obtain ⟨u,hu,rfl⟩ := step_session (fun j sdp kinds h => hsettle ⟨j,sdp,kinds,h⟩) hstep
      obtain ⟨hs,hc,hr⟩ := (accepts_step hu id).mp ha
      exact ⟨hs,by simpa using hr,by simpa using hc⟩

theorem InOrder.serialised (h : InOrder s id enqueued begun received called)
    {e : SerialEvent} {out : List Output} (hstep : s.step e = some (t,out)) :
    Serialised s e t out id where
  one := (inOrder_step h hstep).active_le
  begins := active_of_begun h
  progress := fun _ _ hq => next_progress hq
  failure := failure_step hstep
  leaves := by
    intro he
    by_contra hyes
    obtain ⟨hs,hr,hc⟩ := accepts_mono hstep (by simpa using hyes)
    rcases he with he | he | he
    · exact hr he
    · exact hc he
    · rw [hs] at he
      cases he
  gone := by
    intro ha
    cases h with
    | accepted hyes => rw [ha] at hyes; cases hyes
    | gone _ hp =>
      refine ⟨begun_of_gone ha e,?_,silent_of_gone hstep ha hp⟩
      cases inOrder_step (.gone ha hp ‹_› ‹_› ‹_› ‹_› ‹_›) hstep with
      | accepted hyes =>
        have := (accepts_mono hstep hyes).1
        rw [ha] at this
        cases this
      | gone _ ht => exact ht
  remote := fun _ ht hc => h.remote ht hc

end

/-- The operations of one peer over any run of a session: each step is serialised, they start
in the order they were enqueued in, and the candidates go to addIceCandidate in the order
they came in, none twice. -/
theorem per_peer_serialisation (es : List SerialEvent) (s : Serial)
    (h : Runs.exec Serial.advance Serial.init es = some s) (id : JsString) :
    Runs.Along Serial.advance
      (fun s e => ∀ t out, s.step e = some (t,out) → Serialised s e t out id) Serial.init es ∧
    Runs.trace Serial.advance (Serial.begun id) Serial.init es <+:
      Runs.trace Serial.advance (Serial.enqueued id) Serial.init es ∧
    (Runs.trace Serial.advance (Serial.called id) Serial.init es).Sublist
      (Runs.trace Serial.advance (Serial.received id) Serial.init es) := by
  refine ⟨?_,?_,?_⟩
  · refine Runs.along_of_invariant (I := fun s => ∃ enqueued begun received called,
      InOrder s id enqueued begun received called) ?_ ?_ ⟨_,_,_,_,inOrder_init id⟩
    · rintro s e t ⟨_,_,_,_,hs⟩ hstep
      obtain ⟨⟨_,out⟩,hout,rfl⟩ := Option.map_eq_some_iff.mp hstep
      exact ⟨_,_,_,_,inOrder_step hs hout⟩
    · rintro s e ⟨_,_,_,_,hs⟩ t out hstep
      exact hs.serialised hstep
  · cases inOrder_run h id with
    | accepted ha hs ho => exact ⟨_,ho.symm⟩
    | gone ha hp hq hl ho => exact ho
  · cases inOrder_run h id with
    | accepted ha hs ho hk hc => exact (List.sublist_append_left _ _).trans hc
    | gone ha hp hq hl ho hk hc => exact (List.sublist_append_left _ _).trans hc

def removalMidway : List SerialEvent :=
  [.start [] [],
    .session (.signal (js "b") (.iceCandidate ⟨js "one",.undefined,.undefined⟩)),
    .session (.signal (js "b") (.offer (js "v=0"))),.session (.next (js "b")),
    .session (.next (js "b")),.session (.removePeer (js "b")),
    .session (.signal (js "b") (.offer (js "v=0"))),.late (js "b") 0 true [] [],
    .late (js "b") 0 false [] [],.session (.next (js "b"))]

theorem per_peer_serialisation_removal :
    Runs.trace Serial.advance (Serial.begun (js "b")) Serial.init removalMidway =
        [.handle (.iceCandidate ⟨js "one",.undefined,.undefined⟩),.handle (.offer (js "v=0"))] ∧
      Runs.Along Serial.advance
        (fun s e => ∀ t out, s.step e = some (t,out) → Serialised s e t out (js "b"))
        Serial.init removalMidway ∧
      (Runs.trace Serial.advance (Serial.called (js "b")) Serial.init removalMidway).Sublist
        [⟨js "one",.undefined,.undefined⟩] := by
  have hrun : (Runs.exec Serial.advance Serial.init removalMidway).isSome := by decide +kernel
  obtain ⟨s,hrun⟩ := Option.isSome_iff_exists.mp hrun
  obtain ⟨hsteps,_,hcalled⟩ := per_peer_serialisation removalMidway s hrun (js "b")
  have hreceived : Runs.trace Serial.advance (Serial.received (js "b")) Serial.init
      removalMidway = [⟨js "one",.undefined,.undefined⟩] := by decide +kernel
  rw [hreceived] at hcalled
  exact ⟨by decide +kernel,hsteps,hcalled⟩

end MaiaMeet
