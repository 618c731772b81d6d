import MaiaMeet.OfferPlan
set_option autoImplicit false

/-! One pair's part of the mesh: what a session makes of the signals it has heard from a
participant, and what it has said to it. -/

namespace MaiaMeet

namespace Signal

def candidates : Signal → List Candidate
  | .iceCandidate c => [c]
  | _ => []

def isOffer : Signal → Bool
  | .offer _ => true
  | _ => false

def isAnswer : Signal → Bool
  | .answer _ => true
  | _ => false

end Signal

def Operation.heard : Operation → List Signal
  | .offer => []
  | .handle signal => [signal]

namespace Await

def candidates : Await → List Candidate
  | .addIceCandidate c => [c]
  | .flush _ c rest => c :: rest
  | _ => []

def answering : Await → Bool
  | .setRemoteDescription offer _ | .flush offer _ _ => offer
  | .replaceTrack _ | .createAnswer | .setLocalAnswer => true
  | _ => false

def applied : Await → Bool
  | .flush _ _ _ | .replaceTrack _ | .createAnswer | .setLocalAnswer => true
  | _ => false

def accepting : Await → Bool
  | .setRemoteDescription offer _ => !offer
  | _ => false

end Await

def Queue.heard (q : Queue) : List Signal := q.waiting.flatMap Operation.heard

/-- How far a peer is with what was heard from its participant and said to it: every
candidate is added, kept or waiting; an offer is answered or being answered. -/
structure Exchange (peer : Peer) (q : Queue) (heard said : List Signal) : Prop where
  candidates : peer.ice ++ q.running.elim [] Await.candidates ++ peer.candidates ++
    q.heard.flatMap Signal.candidates = heard.flatMap Signal.candidates
  buffer : peer.remoteDescription.isSome → peer.candidates = []
  remote : q.running.any Await.applied → peer.remoteDescription.isSome
  offered : said.any Signal.isOffer → peer.localDescription.isSome
  answered : heard.any Signal.isOffer → q.heard.any Signal.isOffer ∨
    q.running.any Await.answering ∨ said.any Signal.isAnswer ∧
      peer.localDescription.isSome ∧ peer.remoteDescription.isSome
  accepted : heard.any Signal.isAnswer → q.heard.any Signal.isAnswer ∨
    q.running.any Await.accepting ∨ peer.remoteDescription.isSome

section
variable {peer : Peer} {q : Queue} {heard said : List Signal}
  {waiting : List Operation}

theorem exchange_new (n : Nat) :
    Exchange Peer.new ⟨none,List.replicate n .offer⟩ [] [] := by
  have hq : (Queue.mk none (List.replicate n .offer)).heard = [] := by
    simp [Queue.heard,Operation.heard]
  refine ⟨?_,fun _ => rfl,?_,?_,?_,?_⟩ <;> simp [hq,Peer.new]

theorem Exchange.hear (h : Exchange peer q heard said) (signal : Signal) :
    Exchange peer ⟨q.running,q.waiting ++ [.handle signal]⟩ (heard ++ [signal]) said := by
  have hq : (Queue.mk q.running (q.waiting ++ [.handle signal])).heard = q.heard ++ [signal] := by
    simp [Queue.heard,Operation.heard]
  refine ⟨?_,h.buffer,h.remote,h.offered,?_,?_⟩
  · rw [hq]
    simp only [List.flatMap_append,← h.candidates,List.append_assoc]
  · rw [hq]
    simp only [List.any_append,Bool.or_eq_true]
    rintro (ho | ho)
    · exact (h.answered ho).imp_left .inl
    · exact .inl (.inr ho)
  · rw [hq]
    simp only [List.any_append,Bool.or_eq_true]
    rintro (ho | ho)
    · exact (h.accepted ho).imp_left .inl
    · exact .inl (.inr ho)

theorem Exchange.say (h : Exchange peer q heard said) (signal : Signal)
    (hl : signal.isOffer → peer.localDescription.isSome) :
    Exchange peer q heard (said ++ [signal]) := by
  refine ⟨h.candidates,h.buffer,h.remote,?_,?_,h.accepted⟩
  · simp only [List.any_append,Bool.or_eq_true]
    rintro (ho | ho)
    · exact h.offered ho
    · exact hl (by simpa using ho)
  · simp only [List.any_append,Bool.or_eq_true]
    exact fun ho => (h.answered ho).imp_right (Or.imp_right (fun ha => ⟨.inl ha.1,ha.2⟩))

theorem Exchange.tracks (h : Exchange peer q heard said) (transceivers : List Transceiver) :
    Exchange { peer with transceivers := transceivers } q heard said :=
  ⟨h.candidates,h.buffer,h.remote,h.offered,h.answered,h.accepted⟩

theorem Exchange.assign (h : Exchange peer ⟨some .createAnswer,waiting⟩ heard said)
    (stream : Stream) (index : Nat) :
    Exchange (peer.assign stream index).peer ⟨(peer.assign stream index).awaits,waiting⟩
      heard said := by
  unfold Peer.assign
  split
  · exact h
  · exact ⟨h.candidates,h.buffer,h.remote,h.offered,h.answered,h.accepted⟩

/-- With a remote description the kept candidates are added one by one, and an offer is
answered after the last. -/
theorem exchange_flush (stream : Stream) {offer : Bool} {rest : List Candidate}
    (hc : peer.ice ++ rest ++ (waiting.flatMap Operation.heard).flatMap Signal.candidates =
      heard.flatMap Signal.candidates)
    (hb : peer.candidates = []) (hr : peer.remoteDescription.isSome)
    (ho : said.any Signal.isOffer → peer.localDescription.isSome)
    (ha : heard.any Signal.isOffer → (waiting.flatMap Operation.heard).any Signal.isOffer ∨
      offer = true ∨ said.any Signal.isAnswer ∧ peer.localDescription.isSome ∧
        peer.remoteDescription.isSome) :
    Exchange (peer.flush stream offer rest).peer
      ⟨(peer.flush stream offer rest).awaits,waiting⟩ heard said := by
  cases rest with
  | cons c rest =>
    refine ⟨?_,fun _ => hb,fun _ => hr,ho,ha,fun _ => .inr (.inr hr)⟩
    simpa [Peer.flush,Queue.heard,Await.candidates,hb] using hc
  | nil =>
    cases offer with
    | true =>
      refine Exchange.assign ⟨?_,fun _ => hb,fun _ => hr,ho,fun h => ?_,fun _ => .inr (.inr hr)⟩
        stream 0
      · simpa [Queue.heard,Await.candidates,hb] using hc
      · exact .inr (.inl rfl)
    | false =>
      refine ⟨?_,fun _ => hb,fun _ => hr,ho,fun h => ?_,fun _ => .inr (.inr hr)⟩
      · simpa [Peer.flush,Queue.heard,hb] using hc
      · exact (ha h).imp_right (fun hx => .inr (hx.resolve_left (by simp)))

theorem exchange_perform (stream : Stream) {operation : Operation}
    (h : Exchange peer ⟨none,operation :: waiting⟩ heard said) :
    Exchange (peer.perform stream operation).peer
      ⟨(peer.perform stream operation).awaits,waiting⟩ heard said := by
  have hc := h.candidates
  have ha := h.answered
  have hx := h.accepted
  cases operation with
  | offer =>
    refine ⟨?_,h.buffer,by simp [Peer.perform,Await.applied],h.offered,?_,?_⟩
    · simpa [Peer.perform,Queue.heard,Operation.heard,Await.candidates] using hc
    · simpa [Peer.perform,Queue.heard,Operation.heard,Await.answering] using ha
    · simpa [Peer.perform,Queue.heard,Operation.heard,Await.accepting] using hx
  | handle signal =>
    cases signal with
    | offer sdp =>
      refine ⟨?_,h.buffer,by simp [Peer.perform,Await.applied],h.offered,?_,?_⟩
      · simpa [Peer.perform,Queue.heard,Operation.heard,Await.candidates,
          Signal.candidates] using hc
      · exact fun _ => .inr (.inl rfl)
      · simpa [Peer.perform,Queue.heard,Operation.heard,Await.accepting,
          Signal.isAnswer] using hx
    | answer sdp =>
      refine ⟨?_,h.buffer,by simp [Peer.perform,Await.applied],h.offered,?_,?_⟩
      · simpa [Peer.perform,Queue.heard,Operation.heard,Await.candidates,
          Signal.candidates] using hc
      · simpa [Peer.perform,Queue.heard,Operation.heard,Await.answering,
          Signal.isOffer] using ha
      · exact fun _ => .inr (.inl rfl)
    | iceCandidate c =>
      simp only [Peer.perform]
      cases hr : peer.remoteDescription.isSome with
      | true =>
        have hb := h.buffer hr
        refine ⟨?_,fun _ => hb,by simp [Await.applied],h.offered,?_,?_⟩
        · simpa [Queue.heard,Operation.heard,Await.candidates,Signal.candidates,hb] using hc
        · simpa [Queue.heard,Operation.heard,Await.answering,Signal.isOffer] using ha
        · exact fun _ => .inr (.inr hr)
      | false =>
        refine ⟨?_,?_,by simp,h.offered,?_,?_⟩
        · simpa [Queue.heard,Operation.heard,Signal.candidates] using hc
        · intro hs
          exact absurd (hs.symm.trans hr) (by simp)
        · simpa [Queue.heard,Operation.heard,Signal.isOffer] using ha
        · simpa [Queue.heard,Operation.heard,Signal.isAnswer] using hx

theorem exchange_resume (stream : Stream) {await : Await} (hne : ∀ i, await ≠ .replaceTrack i)
    (h : Exchange peer ⟨some await,waiting⟩ heard said) (id sdp : JsString) (kinds : List Kind) :
    Exchange (peer.resume stream id sdp kinds await).peer
      ⟨(peer.resume stream id sdp kinds await).awaits,waiting⟩ heard
      (said ++ match await with
        | .setLocalOffer => [.offer sdp]
        | .setLocalAnswer => [.answer sdp]
        | _ => []) := by
  have hc := h.candidates
  have ha := h.answered
  have hx := h.accepted
  cases await with
  | replaceTrack i => exact absurd rfl (hne i)
  | createOffer =>
    rw [List.append_nil]
    exact ⟨hc,h.buffer,h.remote,h.offered,ha,hx⟩
  | createAnswer =>
    rw [List.append_nil]
    exact ⟨hc,h.buffer,h.remote,h.offered,ha,hx⟩
  | setLocalOffer =>
    refine ⟨hc,h.buffer,by simp [Peer.resume],fun _ => rfl,fun ho => ?_,hx⟩
    refine (ha ho).imp_right (fun hy => .inr ?_)
    obtain ⟨hs,_,hr⟩ := hy.resolve_left (by simp [Await.answering])
    exact ⟨by simp [hs],rfl,hr⟩
  | setLocalAnswer =>
    have hr := h.remote rfl
    refine ⟨hc,h.buffer,by simp [Peer.resume],fun _ => rfl,fun _ => ?_,fun _ => .inr (.inr hr)⟩
    exact .inr (.inr ⟨by simp [Signal.isAnswer],rfl,hr⟩)
  | addIceCandidate c =>
    rw [List.append_nil]
    refine ⟨?_,h.buffer,by simp [Peer.resume],h.offered,?_,?_⟩
    · simpa [Peer.resume,Queue.heard,Await.candidates] using hc
    · simpa [Peer.resume,Queue.heard,Await.answering] using ha
    · simpa [Peer.resume,Queue.heard,Await.accepting] using hx
  | setRemoteDescription offer remote =>
    rw [List.append_nil]
    refine exchange_flush stream ?_ rfl rfl h.offered ?_
    · simpa [Queue.heard,Await.candidates] using hc
    · intro ho
      refine (ha ho).imp_right (Or.imp ?_ (fun hs => ⟨hs.1,hs.2.1,rfl⟩))
      simp [Await.answering]
  | flush offer c rest =>
    rw [List.append_nil]
    have hr := h.remote rfl
    refine exchange_flush stream ?_ (h.buffer hr) hr h.offered ?_
    · simpa [Queue.heard,Await.candidates,h.buffer hr] using hc
    · intro ho
      refine (ha ho).imp_right (Or.imp_left ?_)
      simp [Await.answering]

theorem Exchange.idle (h : Exchange peer ⟨none,[]⟩ heard said)
    (hl : heard.any Signal.isOffer ∨ heard.any Signal.isAnswer ∧ said.any Signal.isOffer) :
    peer.localDescription.isSome ∧ peer.remoteDescription.isSome ∧
      peer.ice = heard.flatMap Signal.candidates ∧
      (heard.any Signal.isOffer → said.any Signal.isAnswer) := by
  have ha : heard.any Signal.isOffer → said.any Signal.isAnswer ∧
      peer.localDescription.isSome ∧ peer.remoteDescription.isSome := by
    simpa [Queue.heard] using h.answered
  have hx : heard.any Signal.isAnswer → peer.remoteDescription.isSome := by
    simpa [Queue.heard] using h.accepted
  have hd : peer.localDescription.isSome ∧ peer.remoteDescription.isSome := by
    rcases hl with ho | ⟨hanswer,hoffer⟩
    · exact (ha ho).2
    · exact ⟨h.offered hoffer,hx hanswer⟩
  have hc := h.candidates
  rw [h.buffer hd.2] at hc
  exact ⟨hd.1,hd.2,by simpa [Queue.heard] using hc,fun ho => (ha ho).1⟩

end

def ClientMessage.signalTo (id : JsString) : ClientMessage → Option Signal
  | .signal targetId sg => if targetId = id then some sg else none
  | _ => none

def signalsTo (id : JsString) (l : List ClientMessage) : List Signal :=
  l.filterMap (ClientMessage.signalTo id)

def SessionEvent.succeeds : SessionEvent → Bool
  | .reject _ => false
  | .sender _ _ ok | .orphan _ _ ok => ok
  | _ => true

section
variable {s t : Session} {heard said : JsString → List Signal}

theorem exchange_after (h : ∀ id, Exchange (s.peer id) (s.queue id) (heard id) (said id))
    {id : JsString} {waiting : List Operation} {turn : Turn} (sent : List Signal)
    (ht : Exchange turn.peer ⟨turn.awaits,waiting⟩ (heard id) (said id ++ sent)) (j : JsString) :
    Exchange ((s.after id waiting turn).1.peer j) ((s.after id waiting turn).1.queue j) (heard j)
      (said j ++ if j = id then sent else []) := by
  rw [peer_after,Session.queue_after]
  by_cases hj : j = id
  · subst hj
    simpa using ht
  · simpa [hj] using h j

theorem exchange_peers (h : ∀ id, Exchange (s.peer id) (s.queue id) (heard id) (said id))
    (hq : t.queues = s.queues)
    (hp : ∀ id, ∃ transceivers, t.peer id = { s.peer id with transceivers := transceivers })
    (j : JsString) :
    Exchange (t.peer j) (t.queue j) (heard j) (said j) := by
  obtain ⟨transceivers,he⟩ := hp j
  rw [he,Session.queue,hq]
  exact (h j).tracks transceivers

/-- By itself a session keeps up with what it has heard from everybody, if the browser's
calls succeed and nobody has left. -/
theorem exchange_step (h : ∀ id, Exchange (s.peer id) (s.queue id) (heard id) (said id))
    {e : SessionEvent} {out : List Output} (he : e.isInternal) (hok : e.succeeds)
    (ha : ∀ id, s.accepts id) (hstep : s.step e = some (t,out)) (j : JsString) :
    Exchange (t.peer j) (t.queue j) (heard j)
      (said j ++ signalsTo j (out.flatMap Output.messages)) := by
  cases session_effect hstep with
  | queued | unheard | removed | ended => cases he
  | rejected | unassigned => cases hok
  | skipped id operation waiting hq hno => rw [ha id] at hno; cases hno
  | begun id operation waiting peer hq _ hp =>
    subst hp
    have hid := h id
    rw [hq] at hid
    have hturn := exchange_after h [] (by simpa using exchange_perform s.localStream hid) j
    rw [Peer.perform_out]
    simp only [ite_self,List.append_nil] at hturn
    exact (List.append_nil (said j)).symm ▸ hturn
  | resumed id sdp kinds peer await hp hr hne =>
    have hid := h id
    have hpeer : s.peer id = peer := by simp [Session.peer,hp]
    have hqueue : s.queue id = ⟨some await,(s.queue id).waiting⟩ := by rw [← hr]
    rw [hpeer,hqueue] at hid
    have hturn := exchange_after h _ (exchange_resume s.localStream hne hid id sdp kinds) j
    rw [Peer.resume_out]
    refine cast (congrArg _ (congrArg _ ?_)) hturn
    by_cases hj : j = id
    · subst hj
      cases await <;> simp [signalsTo,Output.messages,ClientMessage.signalTo]
    · cases await <;> simp [signalsTo,Output.messages,ClientMessage.signalTo,hj,Ne.symm hj]
  | assigned id index peer u track calls hp hu hc hr =>
    have hid := h id
    have hpeer : s.peer id = peer := by simp [Session.peer,hp]
    have hqueue : s.queue id = ⟨some (.replaceTrack index),(s.queue id).waiting⟩ := by rw [← hr]
    rw [hpeer,hqueue] at hid
    have hnext : Exchange peer ⟨some .createAnswer,(s.queue id).waiting⟩ (heard id) (said id) :=
      ⟨hid.candidates,hid.buffer,hid.remote,hid.offered,hid.answered,hid.accepted⟩
    have hassign := (hnext.tracks (peer.transceivers.set index ⟨u.kind,track,calls⟩)).assign
      s.localStream (index + 1)
    have hturn := exchange_after h [] (by simpa using hassign) j
    rw [Peer.assign_out]
    simpa [signalsTo] using hturn
  | called id index ok peer u n track calls hp hu hc =>
    rw [silent_answered]
    simp only [signalsTo,List.filterMap_nil,List.append_nil]
    refine exchange_peers h ?_ (fun i => ?_) j
    · rw [Session.answered_queues]
    simp only [Session.peer,Session.answered_peers,OrderedMap.get_set]
    split
    · rename_i hi
      exact ⟨_,by simp [hi,hp]; rfl⟩
    · exact ⟨_,rfl⟩
  | orphaned n id ok hp =>
    rw [silent_answered]
    simp only [signalsTo,List.filterMap_nil,List.append_nil]
    rw [peer_answered,Session.queue_answered]
    exact h j
  | gathered id candidate peer hp hl =>
    by_cases hj : j = id
    · subst hj
      simpa [signalsTo,Output.messages,ClientMessage.signalTo] using
        (h j).say (.iceCandidate candidate) (fun hf => by cases hf)
    · simpa [signalsTo,Output.messages,ClientMessage.signalTo,Ne.symm hj] using h j
  | tracked | disconnected => simpa [signalsTo,Output.messages] using h j
  | replacing oldTrack newTrack =>
    simp only [List.flatMap_nil,signalsTo,List.filterMap_nil,List.append_nil]
    refine exchange_peers h ?_ (fun i => ?_) j
    · rfl
    simp only [Session.peer,Session.peers_replaceTrack]
    cases hp : s.peers.get i with
    | none => exact ⟨_,rfl⟩
    | some peer => exact callOnSender_tracks _ _ _ peer
  | published r hr hw =>
    simp only [List.flatMap_cons,Output.messages,List.flatMap_nil,List.append_nil,signalsTo,
      List.filterMap_nil]
    exact h j

end

end MaiaMeet
