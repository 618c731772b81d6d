import MaiaMeet.Session
set_option autoImplicit false

namespace MaiaMeet

namespace Session

variable {s t : Session} {id : JsString}

theorem queue_set {queues : OrderedMap JsString Queue} {q : Queue} (j : JsString)
    (h : s.queues = queues.set id q) :
    s.queue j = if j = id then q else (queues.get j).getD ⟨none,[]⟩ := by
  rw [queue,h,OrderedMap.get_set]
  split <;> rfl

theorem queue_enqueue (s : Session) (id j : JsString) (operation : Operation) :
    (s.enqueue id operation).queue j =
      if j = id then ⟨(s.queue id).running,(s.queue id).waiting ++ [operation]⟩ else s.queue j :=
  queue_set j rfl

theorem queue_after (s : Session) (id j : JsString) (waiting : List Operation) (turn : Turn) :
    (s.after id waiting turn).1.queue j =
      if j = id then ⟨turn.awaits,waiting⟩ else s.queue j := queue_set j rfl

theorem queue_failed (s : Session) (id j : JsString) :
    (s.failed id).1.queue j = if j = id then ⟨none,(s.queue id).waiting⟩ else s.queue j :=
  queue_set j rfl

theorem peers_after (s : Session) (id j : JsString) (waiting : List Operation) (turn : Turn) :
    (s.after id waiting turn).1.peers.get j =
      if j = id then some turn.peer else s.peers.get j := OrderedMap.get_set _ _ _ _

theorem queue_removePeer (s : Session) (id j : JsString) :
    (s.removePeer id).queue j = if j = id then ⟨none,[]⟩ else s.queue j := by
  rw [queue,removePeer,OrderedMap.get_delete]
  split <;> rfl

theorem peers_removePeer (s : Session) (id j : JsString) :
    (s.removePeer id).peers.get j = if j = id then none else s.peers.get j :=
  OrderedMap.get_delete _ _ _

theorem peers_replaceTrack (s : Session) (oldTrack newTrack : Option Track) (j : JsString) :
    (s.replaceTrack oldTrack newTrack).peers.get j = (s.peers.get j).map
      (callOnSender s.nextReplace newTrack
        (Replace.kind ⟨s.nextReplace,oldTrack,newTrack,[]⟩)) :=
  OrderedMap.get_mapValues _ _ _

theorem queue_start (stream : Stream) (participants : List JsString) (j : JsString) :
    (start stream participants).queue j =
      ⟨none,List.replicate (participants.count j) .offer⟩ := by
  have hfold : ∀ (l : List JsString) (s : Session),
      (l.foldl (fun s id => s.enqueue id .offer) s).queue j =
        ⟨(s.queue j).running,(s.queue j).waiting ++ List.replicate (l.count j) .offer⟩ := by
    intro l
    induction l with
    | nil => intro s; simp
    | cons id l ih =>
      intro s
      rw [List.foldl_cons,ih,queue_enqueue]
      by_cases hj : j = id
      · simp [hj,List.replicate_succ]
      · simp [hj,List.count_cons_of_ne (Ne.symm hj)]
  rw [start,hfold]
  rfl

theorem start_eq (stream : Stream) (participants : List JsString) :
    ∃ queues, start stream participants = ⟨OrderedMap.empty,queues,[],stream,[],0,false⟩ := by
  have hfold : ∀ (l : List JsString) (s : Session), ∃ queues,
      l.foldl (fun s id => s.enqueue id .offer) s = { s with queues := queues } := by
    intro l
    induction l with
    | nil => intro s; exact ⟨s.queues,rfl⟩
    | cons id l ih =>
      intro s
      obtain ⟨queues,hq⟩ := ih (s.enqueue id .offer)
      exact ⟨queues,hq⟩
  obtain ⟨queues,hq⟩ := hfold participants
    ⟨OrderedMap.empty,OrderedMap.empty,[],stream,[],0,false⟩
  exact ⟨queues,hq⟩

section answered
variable (s : Session) (n : Nat) (id : JsString) (ok : Bool)

/-! `answered` settles promises only: it touches neither peers nor queues. -/

@[simp] theorem answered_peers : (s.answered n id ok).1.peers = s.peers := by cases ok <;> rfl
@[simp] theorem answered_queues : (s.answered n id ok).1.queues = s.queues := by cases ok <;> rfl
@[simp] theorem answered_departed : (s.answered n id ok).1.departed = s.departed := by
  cases ok <;> rfl
@[simp] theorem answered_closed : (s.answered n id ok).1.closed = s.closed := by cases ok <;> rfl
@[simp] theorem queue_answered (j : JsString) :
    (s.answered n id ok).1.queue j = s.queue j := by cases ok <;> rfl

end answered

theorem mem_answered {n : Nat} {ok : Bool} {o : Output} (h : o ∈ (s.answered n id ok).2) :
    o = .replaceFailed n := by
  unfold answered at h
  split at h
  · cases h
  · simp only at h
    split at h
    · simpa using h
    · cases h

def peer (s : Session) (id : JsString) : Peer := (s.peers.get id).getD Peer.new

end Session

namespace Peer

variable {stream : Stream} {peer : Peer} {id sdp : JsString} {kinds : List Kind}

@[simp] theorem assign_out (index : Nat) : (peer.assign stream index).out = [] := by
  unfold assign; split <;> rfl

@[simp] theorem flush_out (offer : Bool) (rest : List Candidate) :
    (peer.flush stream offer rest).out = [] := by
  cases rest <;> cases offer <;> simp [flush]

@[simp] theorem perform_out (operation : Operation) :
    (peer.perform stream operation).out = [] := by
  cases operation with
  | offer => rfl
  | handle signal =>
    cases signal with
    | offer | answer => rfl
    | iceCandidate c => simp only [perform]; split <;> rfl

theorem resume_out (await : Await) : (peer.resume stream id sdp kinds await).out =
    match await with
    | .setLocalOffer => [.send id (.offer sdp)]
    | .setLocalAnswer => [.send id (.answer sdp)]
    | _ => [] := by
  cases await <;> simp [resume]

end Peer

@[simp] theorem peer_answered (s : Session) (n : Nat) (id j : JsString) (ok : Bool) :
    (s.answered n id ok).1.peer j = s.peer j := by simp [Session.peer]

theorem peer_after (s : Session) (id j : JsString) (waiting : List Operation) (turn : Turn) :
    (s.after id waiting turn).1.peer j = if j = id then turn.peer else s.peer j := by
  rw [Session.peer,Session.peers_after]
  split <;> rfl

theorem callOnSender_tracks (n : Nat) (track : Option Track) (kind : Option Kind) (peer : Peer) :
    ∃ transceivers, Session.callOnSender n track kind peer =
      { peer with transceivers := transceivers } := by
  unfold Session.callOnSender
  split <;> exact ⟨_,rfl⟩

inductive SessionEffect (s : Session) : SessionEvent → Session → List Output → Prop where
  | queued (id : JsString) (signal : Signal) (h : s.closed = false) :
      SessionEffect s (.signal id signal) (s.enqueue id (.handle signal)) []
  | unheard (id : JsString) (signal : Signal) (h : s.closed = true) :
      SessionEffect s (.signal id signal) s []
  | begun (id : JsString) (operation : Operation) (waiting : List Operation) (peer : Peer)
      (h : s.queue id = ⟨none,operation :: waiting⟩) (ha : s.accepts id)
      (hp : peer = (s.peers.get id).getD Peer.new) :
      SessionEffect s (.next id)
        (s.after id waiting (peer.perform s.localStream operation)).1
        (peer.perform s.localStream operation).out
  | skipped (id : JsString) (operation : Operation) (waiting : List Operation)
      (h : s.queue id = ⟨none,operation :: waiting⟩) (ha : s.accepts id = false) :
      SessionEffect s (.next id) { s with queues := s.queues.set id ⟨none,waiting⟩ } []
  | resumed (id : JsString) (sdp : JsString) (kinds : List Kind) (peer : Peer) (await : Await)
      (hp : s.peers.get id = some peer) (hr : (s.queue id).running = some await)
      (hne : ∀ i, await ≠ .replaceTrack i) :
      SessionEffect s (.settle id sdp kinds)
        (s.after id (s.queue id).waiting (peer.resume s.localStream id sdp kinds await)).1
        (peer.resume s.localStream id sdp kinds await).out
  | rejected (id : JsString) (peer : Peer) (await : Await)
      (hp : s.peers.get id = some peer) (hr : (s.queue id).running = some await) :
      SessionEffect s (.reject id) (s.failed id).1 [.error]
  | assigned (id : JsString) (index : Nat) (peer : Peer) (t : Transceiver) (track : Option Track)
      (calls : List (Owner × Option Track)) (hp : s.peers.get id = some peer)
      (ht : peer.transceivers[index]? = some t) (hc : t.calls = (.operation,track) :: calls)
      (hr : (s.queue id).running = some (.replaceTrack index)) :
      SessionEffect s (.sender id index true)
        (s.after id (s.queue id).waiting (Peer.assign s.localStream
          { peer with transceivers := peer.transceivers.set index ⟨t.kind,track,calls⟩ }
          (index + 1))).1
        (Peer.assign s.localStream
          { peer with transceivers := peer.transceivers.set index ⟨t.kind,track,calls⟩ }
          (index + 1)).out
  | unassigned (id : JsString) (index : Nat) (peer : Peer) (t : Transceiver)
      (track : Option Track) (calls : List (Owner × Option Track))
      (hp : s.peers.get id = some peer) (ht : peer.transceivers[index]? = some t)
      (hc : t.calls = (.operation,track) :: calls)
      (hr : (s.queue id).running = some (.replaceTrack index)) :
      SessionEffect s (.sender id index false)
        (s.after id (s.queue id).waiting ⟨{ peer with
          transceivers := peer.transceivers.set index { t with calls := calls } },none,[.error]⟩).1
        [.error]
  | called (id : JsString) (index : Nat) (ok : Bool) (peer : Peer) (t : Transceiver) (n : Nat)
      (track : Option Track) (calls : List (Owner × Option Track))
      (hp : s.peers.get id = some peer) (ht : peer.transceivers[index]? = some t)
      (hc : t.calls = (.replace n,track) :: calls) :
      SessionEffect s (.sender id index ok)
        (Session.answered { s with peers := s.peers.set id { peer with
          transceivers := peer.transceivers.set index
            { t with track := if ok then track else t.track, calls := calls } } } n id ok).1
        (s.answered n id ok).2
  | orphaned (n : Nat) (id : JsString) (ok : Bool) (hp : s.peers.get id = none) :
      SessionEffect s (.orphan n id ok) (s.answered n id ok).1 (s.answered n id ok).2
  | gathered (id : JsString) (candidate : Candidate) (peer : Peer)
      (hp : s.peers.get id = some peer) (hl : peer.localDescription.isSome) :
      SessionEffect s (.candidate id candidate) s [.send id (.iceCandidate candidate)]
  | tracked (id : JsString) (h : s.peers.has id) : SessionEffect s (.track id) s [.remoteTrack id]
  | disconnected (id : JsString) (h : s.peers.has id) :
      SessionEffect s (.connectionFailed id) s [.error]
  | replacing (oldTrack newTrack : Option Track) :
      SessionEffect s (.replaceTrack oldTrack newTrack) (s.replaceTrack oldTrack newTrack) []
  | published (r : Replace) (hr : s.replaces.find? (fun q => q.number = r.number) = some r)
      (hw : r.waiting = []) :
      SessionEffect s (.replaced r.number) (s.publish r) [.replaced r.number]
  | removed (id : JsString) : SessionEffect s (.removePeer id) (s.removePeer id) []
  | ended : SessionEffect s .close s.close []

theorem session_effect {s t : Session} {e : SessionEvent} {out : List Output}
    (h : s.step e = some (t,out)) : SessionEffect s e t out := by
  cases e with
  | signal id signal =>
    simp only [Session.step,Option.some.injEq,Prod.mk.injEq] at h
    obtain ⟨rfl,rfl⟩ := h
    split
    · rename_i hc; exact .unheard id signal hc
    · rename_i hc; exact .queued id signal (by simpa using hc)
  | next id =>
    simp only [Session.step] at h
    split at h
    · rename_i operation waiting hq
      split at h
      · rename_i ha
        simp only [Session.after,Option.some.injEq,Prod.mk.injEq] at h
        obtain ⟨rfl,rfl⟩ := h
        exact .begun id operation waiting _ hq ha rfl
      · rename_i ha
        simp only [Option.some.injEq,Prod.mk.injEq] at h
        obtain ⟨rfl,rfl⟩ := h
        exact .skipped id operation waiting hq (by simpa using ha)
    · cases h
  | settle id sdp kinds =>
    simp only [Session.step] at h
    split at h
    · cases h
    · rename_i hne hp hr
      simp only [Session.after,Option.some.injEq,Prod.mk.injEq] at h
      obtain ⟨rfl,rfl⟩ := h
      exact .resumed id sdp kinds _ _ hp hr (fun i hi => hne i hi)
    · cases h
  | reject id =>
    simp only [Session.step] at h
    split at h
    · cases h
    · rename_i hp hr
      simp only [Session.failed,Option.some.injEq,Prod.mk.injEq] at h
      obtain ⟨rfl,rfl⟩ := h
      exact .rejected id _ _ hp hr
    · cases h
  | sender id index ok =>
    simp only [Session.step,Option.bind_eq_bind,Option.bind_eq_some_iff] at h
    obtain ⟨peer,hp,t,ht,h⟩ := h
    split at h
    · cases h
    · rename_i owner track calls hc
      split at h
      · rename_i n
        have he := SessionEffect.called id index ok peer t n track calls hp ht hc
        cases ok <;> cases h <;> exact he
      · split at h
        · rename_i hr
          cases ok <;> cases h
          · exact .unassigned id index peer t track calls hp ht hc hr
          · exact .assigned id index peer t track calls hp ht hc hr
        · cases h
  | orphan n id ok =>
    simp only [Session.step] at h
    split at h
    · rename_i ho
      simp only [Bool.and_eq_true,Bool.not_eq_true',OrderedMap.has,Option.isSome_eq_false_iff,
        Option.isNone_iff_eq_none] at ho
      have he := SessionEffect.orphaned n id ok ho.2
      rw [Option.some.injEq] at h
      rwa [h] at he
    · cases h
  | candidate id candidate =>
    simp only [Session.step] at h
    split at h
    · rename_i hp
      cases h
      exact .gathered id candidate _ hp rfl
    · cases h
  | track id =>
    simp only [Session.step] at h
    split at h
    · rename_i hp; cases h; exact .tracked id hp
    · cases h
  | connectionFailed id =>
    simp only [Session.step] at h
    split at h
    · rename_i hp; cases h; exact .disconnected id hp
    · cases h
  | replaceTrack oldTrack newTrack =>
    simp only [Session.step,Option.some.injEq,Prod.mk.injEq] at h
    obtain ⟨rfl,rfl⟩ := h
    exact .replacing oldTrack newTrack
  | replaced n =>
    simp only [Session.step,Option.bind_eq_bind,Option.bind_eq_some_iff] at h
    obtain ⟨r,hr,h⟩ := h
    have hn : r.number = n := by simpa using List.find?_some hr
    subst n
    split at h
    · rename_i hw; cases h; exact .published r hr hw
    · cases h
  | removePeer id =>
    simp only [Session.step,Option.some.injEq,Prod.mk.injEq] at h
    obtain ⟨rfl,rfl⟩ := h
    exact .removed id
  | close =>
    simp only [Session.step,Option.some.injEq,Prod.mk.injEq] at h
    obtain ⟨rfl,rfl⟩ := h
    exact .ended

end MaiaMeet
