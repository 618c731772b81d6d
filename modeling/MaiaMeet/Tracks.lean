import MaiaMeet.Negotiation
set_option autoImplicit false

/-! Which tracks a session has hold of: on its senders, on the way there, or in its stream. -/

namespace MaiaMeet

def Session.sent (s : Session) : List Track :=
  s.peers.values.flatMap (fun p => p.transceivers.filterMap Transceiver.track)

def Transceiver.tracks (t : Transceiver) : List Track :=
  t.track.toList ++ t.calls.filterMap Prod.snd

def Peer.tracks (peer : Peer) : List Track := peer.transceivers.flatMap Transceiver.tracks

def Session.tracks (s : Session) : List Track :=
  s.localStream ++ s.peers.values.flatMap Peer.tracks ++ s.replaces.filterMap Replace.newTrack

def Session.rejects (s : Session) : SessionEvent → Option Nat
  | .sender id index false => do
    let peer ← s.peers.get id
    let t ← peer.transceivers[index]?
    match t.calls with
    | (.replace n,_) :: _ => some n
    | _ => none
  | .orphan n _ false => some n
  | _ => none

def Peer.refuse (peer : Peer) (index : Nat) : Peer :=
  { peer with transceivers :=
      peer.transceivers.modify index (fun t => { t with calls := t.calls.tail }) }

def Session.apart (s : Session) (n : Nat) (e : SessionEvent) : Session :=
  let s := { s with replaces := s.replaces.filter (fun r => r.number ≠ n) }
  match e with
  | .sender id index _ =>
    { s with peers := (s.peers.get id).elim s.peers (fun p => s.peers.set id (p.refuse index)) }
  | _ => s

section turns
variable {stream : Stream} {peer : Peer} {t : Track} {index : Nat}

theorem mem_peer_tracks : t ∈ peer.tracks ↔ ∃ x ∈ peer.transceivers, t ∈ x.tracks := by
  simp [Peer.tracks]

theorem mem_transceiver_tracks {x : Transceiver} :
    t ∈ x.tracks ↔ x.track = some t ∨ ∃ c ∈ x.calls, c.2 = some t := by
  simp [Transceiver.tracks]

theorem tracks_set {x y : Transceiver} (hx : peer.transceivers[index]? = some x)
    (hy : ∀ t ∈ y.tracks, t ∈ x.tracks)
    (h : t ∈ Peer.tracks { peer with transceivers := peer.transceivers.set index y }) :
    t ∈ peer.tracks := by
  obtain ⟨z,hz,ht⟩ := mem_peer_tracks.mp h
  rcases List.mem_or_eq_of_mem_set hz with hz | rfl
  · exact mem_peer_tracks.mpr ⟨z,hz,ht⟩
  · exact mem_peer_tracks.mpr ⟨x,List.mem_of_getElem? hx,hy t ht⟩

theorem tracks_call {x : Transceiver} {owner : Owner} {track : Option Track}
    (h : t ∈ Transceiver.tracks { x with calls := x.calls ++ [(owner,track)] }) :
    t ∈ x.tracks ∨ track = some t := by
  rw [mem_transceiver_tracks] at h ⊢
  rcases h with h | ⟨c,hc,h⟩
  · exact .inl (.inl h)
  · rcases List.mem_append.mp hc with hc | hc
    · exact .inl (.inr ⟨c,hc,h⟩)
    · rw [List.mem_singleton] at hc
      subst hc
      exact .inr h

theorem tracks_settle {x : Transceiver} {owner : Owner} {track : Option Track}
    {calls : List (Owner × Option Track)} (hc : x.calls = (owner,track) :: calls) (ok : Bool)
    (h : t ∈ Transceiver.tracks ⟨x.kind,if ok then track else x.track,calls⟩) : t ∈ x.tracks := by
  rw [mem_transceiver_tracks] at h ⊢
  rcases h with h | ⟨c,hm,h⟩
  · cases ok with
    | true => exact .inr ⟨(owner,track),by simp [hc],h⟩
    | false => exact .inl h
  · exact .inr ⟨c,by simp [hc,hm],h⟩

theorem tracks_assign (h : t ∈ (peer.assign stream index).peer.tracks) :
    t ∈ peer.tracks ∨ t ∈ stream := by
  unfold Peer.assign at h
  split at h
  · exact .inl h
  · rename_i x hx
    obtain ⟨y,hy,ht⟩ := mem_peer_tracks.mp h
    rcases List.mem_or_eq_of_mem_set hy with hy | rfl
    · exact .inl (mem_peer_tracks.mpr ⟨y,hy,ht⟩)
    · rcases tracks_call ht with ht | ht
      · exact .inl (mem_peer_tracks.mpr ⟨x,List.mem_of_getElem? hx,ht⟩)
      · exact .inr (Stream.ofKind_eq_some ht).1

theorem tracks_flush {offer : Bool} {rest : List Candidate}
    (h : t ∈ (peer.flush stream offer rest).peer.tracks) : t ∈ peer.tracks ∨ t ∈ stream := by
  cases rest with
  | cons c rest => exact .inl h
  | nil =>
    cases offer with
    | true => exact tracks_assign h
    | false => exact .inl h

theorem tracks_perform {operation : Operation}
    (h : t ∈ (peer.perform stream operation).peer.tracks) : t ∈ peer.tracks ∨ t ∈ stream := by
  cases operation with
  | offer =>
    obtain ⟨x,hx,ht⟩ := mem_peer_tracks.mp h
    rcases List.mem_append.mp hx with hx | hx
    · exact .inl (mem_peer_tracks.mpr ⟨x,hx,ht⟩)
    · obtain ⟨k,_,rfl⟩ := List.mem_map.mp hx
      rcases mem_transceiver_tracks.mp ht with ht | ⟨c,hc,_⟩
      · exact .inr (Stream.ofKind_eq_some ht).1
      · cases hc
  | handle signal =>
    cases signal with
    | offer | answer => exact .inl h
    | iceCandidate c =>
      simp only [Peer.perform] at h
      split at h <;> exact .inl h

theorem tracks_resume {id sdp : JsString} {kinds : List Kind} {await : Await}
    (h : t ∈ (peer.resume stream id sdp kinds await).peer.tracks) :
    t ∈ peer.tracks ∨ t ∈ stream := by
  cases await with
  | createOffer | setLocalOffer | addIceCandidate | createAnswer | setLocalAnswer => exact .inl h
  | replaceTrack i => exact tracks_assign h
  | flush offer c rest =>
    have hflush := tracks_flush h
    exact hflush
  | setRemoteDescription offer remote =>
    rcases tracks_flush h with h | h
    · obtain ⟨x,hx,ht⟩ := mem_peer_tracks.mp h
      rcases List.mem_append.mp hx with hx | hx
      · exact .inl (mem_peer_tracks.mpr ⟨x,hx,ht⟩)
      · -- the transceivers an offer creates send nothing yet
        cases offer with
        | true =>
          obtain ⟨k,_,rfl⟩ := List.mem_map.mp hx
          simp [Transceiver.tracks] at ht
        | false => cases hx
    · exact .inr h

theorem tracks_callOnSender {n : Nat} {track : Option Track} {kind : Option Kind}
    (h : t ∈ (Session.callOnSender n track kind peer).tracks) :
    t ∈ peer.tracks ∨ track = some t := by
  unfold Session.callOnSender at h
  split at h
  · exact .inl h
  · rename_i i hi
    obtain ⟨hlt,_⟩ := List.findIdx?_eq_some_iff_getElem.mp hi
    obtain ⟨x,hx,ht⟩ := mem_peer_tracks.mp h
    rw [List.modify_eq_set_get _ hlt] at hx
    rcases List.mem_or_eq_of_mem_set hx with hx | rfl
    · exact .inl (mem_peer_tracks.mpr ⟨x,hx,ht⟩)
    · exact (tracks_call ht).imp (fun ht =>
        mem_peer_tracks.mpr ⟨_,List.getElem_mem hlt,ht⟩) id

end turns

section
variable {s u : Session} {t : Track}

theorem mem_session_tracks : t ∈ s.tracks ↔ t ∈ s.localStream ∨
    (∃ id peer, s.peers.get id = some peer ∧ t ∈ peer.tracks) ∨
    ∃ r ∈ s.replaces, r.newTrack = some t := by
  have hp : (∃ peer ∈ s.peers.values, t ∈ peer.tracks) ↔
      ∃ id peer, s.peers.get id = some peer ∧ t ∈ peer.tracks := by
    simp only [OrderedMap.mem_values_iff]
    constructor
    · intro h
      obtain ⟨p,⟨id,hid⟩,ht⟩ := h
      exact ⟨id,p,hid,ht⟩
    · intro h
      obtain ⟨id,p,hid,ht⟩ := h
      exact ⟨p,⟨id,hid⟩,ht⟩
  rw [Session.tracks,List.mem_append,List.mem_append,List.mem_flatMap,hp,List.mem_filterMap,or_assoc]

theorem tracks_set_peer {id : JsString} {peer : Peer} (h : t ∈ u.tracks)
    (hl : u.localStream = s.localStream) (hr : u.replaces = s.replaces)
    (hu : u.peers = s.peers.set id peer)
    (hp : ∀ t ∈ peer.tracks, t ∈ (s.peer id).tracks ∨ t ∈ s.localStream) : t ∈ s.tracks := by
  rw [mem_session_tracks] at h ⊢
  rw [hl,hr,hu] at h
  rcases h with h | ⟨j,q,hj,ht⟩ | h
  · exact .inl h
  · rw [OrderedMap.get_set] at hj
    split at hj
    · cases hj
      rcases hp t ht with hq | hs
      · cases hid : s.peers.get id with
        | none => simp [Session.peer,hid,Peer.new,Peer.tracks] at hq
        | some q =>
          rw [Session.peer,hid] at hq
          exact .inr (.inl ⟨id,q,hid,hq⟩)
      · exact .inl hs
    · exact .inr (.inl ⟨j,q,hj,ht⟩)
  · exact .inr (.inr h)

theorem tracks_answered {n : Nat} {id : JsString} {ok : Bool}
    (h : t ∈ (s.answered n id ok).1.tracks) : t ∈ s.tracks := by
  rw [mem_session_tracks] at h ⊢
  unfold Session.answered at h
  split at h
  · rcases h with h | h | ⟨r,hr,ht⟩
    · exact .inl h
    · exact .inr (.inl h)
    · obtain ⟨q,hq,rfl⟩ := List.mem_map.mp hr
      refine .inr (.inr ⟨q,hq,?_⟩)
      split at ht <;> exact ht
  · rcases h with h | h | ⟨r,hr,ht⟩
    · exact .inl h
    · exact .inr (.inl h)
    · exact .inr (.inr ⟨r,(List.mem_filter.mp hr).1,ht⟩)

theorem tracks_publish {r : Replace} (hr : r ∈ s.replaces) (h : t ∈ (s.publish r).tracks) :
    t ∈ s.tracks := by
  have hremoved : t ∈ r.oldTrack.elim s.localStream s.localStream.removeTrack →
      t ∈ s.localStream := by
    cases r.oldTrack with
    | none => exact id
    | some old => exact fun ht => (Stream.mem_removeTrack.mp ht).1
  rw [mem_session_tracks] at h ⊢
  rcases h with h | h | ⟨q,hq,ht⟩
  · cases hn : r.newTrack with
    | none =>
      simp only [Session.publish,hn,Option.elim_none] at h
      exact .inl (hremoved h)
    | some new =>
      simp only [Session.publish,hn,Option.elim_some] at h
      rcases Stream.mem_addTrack.mp h with h | rfl
      · exact .inl (hremoved h)
      · exact .inr (.inr ⟨r,hr,hn⟩)
  · exact .inr (.inl h)
  · exact .inr (.inr ⟨q,(List.mem_filter.mp hq).1,ht⟩)

theorem tracks_replaceTrack {oldTrack newTrack : Option Track}
    (h : t ∈ (s.replaceTrack oldTrack newTrack).tracks) : t ∈ s.tracks ∨ newTrack = some t := by
  rw [mem_session_tracks] at h ⊢
  rcases h with h | ⟨id,q,hid,ht⟩ | ⟨r,hr,ht⟩
  · exact .inl (.inl h)
  · rw [Session.peers_replaceTrack] at hid
    obtain ⟨p,hp,rfl⟩ := Option.map_eq_some_iff.mp hid
    exact (tracks_callOnSender ht).imp (fun ht => .inr (.inl ⟨id,p,hp,ht⟩)) (fun ht => ht)
  · rcases List.mem_append.mp hr with hr | hr
    · exact .inl (.inr (.inr ⟨r,hr,ht⟩))
    · rw [List.mem_singleton] at hr
      subst hr
      exact .inr ht

theorem tracks_start {stream : Stream} {participants : List JsString}
    (h : t ∈ (Session.start stream participants).tracks) : t ∈ stream := by
  obtain ⟨queues,hq⟩ := Session.start_eq stream participants
  rw [hq,mem_session_tracks] at h
  rcases h with h | ⟨id,peer,hid,_⟩ | ⟨r,hr,_⟩
  · exact h
  · cases hid
  · cases hr

/-- A session comes by no track but through its replaceTrack. -/
theorem tracks_step {e : SessionEvent} {out : List Output}
    (hne : ∀ oldTrack newTrack, e ≠ .replaceTrack oldTrack newTrack)
    (hstep : s.step e = some (u,out)) (h : t ∈ u.tracks) : t ∈ s.tracks := by
  cases session_effect hstep with
  | unheard | gathered | tracked | disconnected => exact h
  | queued | skipped => exact h
  | rejected => exact h
  | replacing oldTrack newTrack => exact absurd rfl (hne oldTrack newTrack)
  | ended =>
    rw [mem_session_tracks] at h ⊢
    rcases h with h | ⟨j,q,hj,_⟩ | h
    · exact .inl h
    · cases hj
    · exact .inr (.inr h)
  | begun id operation waiting peer hq ha hp =>
    refine tracks_set_peer h rfl rfl rfl (fun t ht => ?_)
    have hperform := tracks_perform ht
    rwa [hp] at hperform
  | resumed id sdp kinds peer await hp hr hne =>
    refine tracks_set_peer h rfl rfl rfl (fun t ht => ?_)
    have hresume := tracks_resume ht
    rwa [Session.peer,hp]
  | assigned id index peer x track calls hp hx hc hr =>
    refine tracks_set_peer h rfl rfl rfl (fun t ht => ?_)
    rw [Session.peer,hp]
    exact (tracks_assign ht).imp (tracks_set hx (fun t ht => tracks_settle hc true ht))
      (fun ht => ht)
  | unassigned id index peer x track calls hp hx hc hr =>
    refine tracks_set_peer h rfl rfl rfl (fun t ht => ?_)
    rw [Session.peer,hp]
    exact .inl (tracks_set hx (fun t ht => tracks_settle hc false ht) ht)
  | called id index ok peer x n track calls hp hx hc =>
    refine tracks_set_peer (tracks_answered h) rfl rfl rfl (fun t ht => ?_)
    rw [Session.peer,hp]
    exact .inl (tracks_set hx (fun t ht => tracks_settle hc ok ht) ht)
  | orphaned n id ok hp => exact tracks_answered h
  | published r hr hw => exact tracks_publish (List.mem_of_find?_eq_some hr) h
  | removed id =>
    rw [mem_session_tracks] at h ⊢
    rcases h with h | ⟨j,q,hj,ht⟩ | h
    · exact .inl h
    · rw [Session.peers_removePeer] at hj
      split at hj
      · cases hj
      · exact .inr (.inl ⟨j,q,hj,ht⟩)
    · exact .inr (.inr h)

theorem answered_false (n : Nat) (id : JsString) : (s.answered n id false).1 =
    { s with replaces := s.replaces.filter (fun r => r.number ≠ n) } := by
  simp [Session.answered]

theorem answered_failed {n m : Nat} {id : JsString} {ok : Bool}
    (h : .replaceFailed n ∈ (s.answered m id ok).2) : n = m ∧ ok = false := by
  have hm := Session.mem_answered h
  rw [Output.replaceFailed.injEq] at hm
  cases ok with
  | false => exact ⟨hm,rfl⟩
  | true => simp [Session.answered] at h

theorem tracks_rejected {e : SessionEvent} {out : List Output} {n : Nat}
    (hstep : s.step e = some (u,out)) (hn : .replaceFailed n ∈ out) :
    s.rejects e = some n ∧ u = s.apart n e := by
  cases session_effect hstep with
  | unheard | queued | skipped | replacing | removed | ended => cases hn
  | gathered | tracked | disconnected | rejected | published | unassigned => simp at hn
  | begun => simp at hn
  | resumed id sdp kinds peer await =>
    rw [Peer.resume_out] at hn
    split at hn <;> simp at hn
  | assigned => simp at hn
  | called id index ok peer x m track calls hp hx hc =>
    obtain ⟨rfl,rfl⟩ := answered_failed hn
    refine ⟨by simp [Session.rejects,hp,hx,hc],?_⟩
    obtain ⟨hlt,rfl⟩ := List.getElem?_eq_some_iff.mp hx
    have hset : peer.transceivers.modify index (fun t => { t with calls := t.calls.tail }) =
        peer.transceivers.set index { peer.transceivers[index] with calls := calls } := by
      rw [List.modify_eq_set_get _ hlt]
      simp [hc]
    simp [answered_false,Session.apart,hp,Peer.refuse,hset]
  | orphaned m id ok hp =>
    obtain ⟨rfl,rfl⟩ := answered_failed hn
    exact ⟨rfl,answered_false n id⟩

theorem step_out {e : SessionEvent} {out : List Output} (hstep : s.step e = some (u,out)) :
    out = [] ∨ ∃ o, out = [o] := by
  have hanswered : ∀ (n : Nat) (id : JsString) (ok : Bool),
      (s.answered n id ok).2 = [] ∨ ∃ o, (s.answered n id ok).2 = [o] := by
    intro n id ok
    unfold Session.answered
    split
    · exact .inl rfl
    · split
      · exact .inr ⟨_,rfl⟩
      · exact .inl rfl
  cases session_effect hstep with
  | unheard | queued | skipped | replacing | removed | ended => exact .inl rfl
  | gathered | tracked | disconnected | rejected | published | unassigned => exact .inr ⟨_,rfl⟩
  | begun => exact .inl (Peer.perform_out _)
  | resumed id sdp kinds peer await =>
    rw [Peer.resume_out]
    split
    · exact .inr ⟨_,rfl⟩
    · exact .inr ⟨_,rfl⟩
    · exact .inl rfl
  | assigned => exact .inl (Peer.assign_out _)
  | called id index ok peer x n => exact hanswered n id ok
  | orphaned n id ok => exact hanswered n id ok

theorem sent_tracks (h : t ∈ s.sent) : t ∈ s.tracks := by
  obtain ⟨p,hp,ht⟩ := List.mem_flatMap.mp h
  obtain ⟨x,hx,ht⟩ := List.mem_filterMap.mp ht
  obtain ⟨id,hid⟩ := (OrderedMap.mem_values_iff _ _).mp hp
  exact mem_session_tracks.mpr (.inr (.inl ⟨id,p,hid,
    mem_peer_tracks.mpr ⟨x,hx,mem_transceiver_tracks.mpr (.inl ht)⟩⟩))

end

end MaiaMeet
