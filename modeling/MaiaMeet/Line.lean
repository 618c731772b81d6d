import MaiaMeet.Negotiation
set_option autoImplicit false

/-! One peer's part of a session step: its connection, its queue, and the candidates the
step hands to addIceCandidate. -/

namespace MaiaMeet

def Await.calls : Await → List Candidate
  | .addIceCandidate c | .flush _ c _ => [c]
  | _ => []

def Turn.calls (turn : Turn) : List Candidate := turn.awaits.elim [] Await.calls

def SessionEvent.turnOf : SessionEvent → Option JsString
  | .signal id _ | .next id | .settle id _ _ | .reject id => some id
  | _ => none

/-- The addIceCandidate calls an event makes on the peer's connection. The transceiver loop
makes none, so a settled replaceTrack leads to none. -/
def Session.calls (id : JsString) (s : Session) : SessionEvent → List Candidate
  | .next j =>
    match s.queue j with
    | ⟨none,operation :: _⟩ =>
      if j = id ∧ s.accepts j then ((s.peer j).perform s.localStream operation).calls else []
    | _ => []
  | .settle j sdp kinds =>
    match (s.queue j).running with
    | some await =>
      if j = id then ((s.peer j).resume s.localStream j sdp kinds await).calls else []
    | none => []
  | _ => []

def Session.callOwner (s : Session) (id : JsString) (index : Nat) : Option Owner :=
  ((s.peer id).transceivers[index]?.bind (fun t => t.calls.head?)).map Prod.fst

def Output.answers (id : JsString) : Output → Bool
  | .send j (.answer _) => j = id
  | _ => false

inductive LineEffect (s : Session) (id : JsString) : SessionEvent → Peer → Queue → Prop where
  | same (e : SessionEvent) (transceivers : List Transceiver) (he : e.turnOf ≠ some id)
      (hc : e ≠ .close) (hr : e ≠ .removePeer id) :
      LineEffect s id e { s.peer id with transceivers := transceivers } (s.queue id)
  | unheard (signal : Signal) (h : s.closed = true) :
      LineEffect s id (.signal id signal) (s.peer id) (s.queue id)
  | heard (signal : Signal) (h : s.closed = false) :
      LineEffect s id (.signal id signal) (s.peer id)
        ⟨(s.queue id).running,(s.queue id).waiting ++ [.handle signal]⟩
  | begun (operation : Operation) (waiting : List Operation)
      (h : s.queue id = ⟨none,operation :: waiting⟩) (ha : s.accepts id) :
      LineEffect s id (.next id) ((s.peer id).perform s.localStream operation).peer
        ⟨((s.peer id).perform s.localStream operation).awaits,waiting⟩
  | skipped (operation : Operation) (waiting : List Operation)
      (h : s.queue id = ⟨none,operation :: waiting⟩) (ha : s.accepts id = false) :
      LineEffect s id (.next id) (s.peer id) ⟨none,waiting⟩
  | resumed (sdp : JsString) (kinds : List Kind) (await : Await) (hp : s.peers.has id)
      (hr : (s.queue id).running = some await) (hne : ∀ i, await ≠ .replaceTrack i) :
      LineEffect s id (.settle id sdp kinds)
        ((s.peer id).resume s.localStream id sdp kinds await).peer
        ⟨((s.peer id).resume s.localStream id sdp kinds await).awaits,(s.queue id).waiting⟩
  | rejected (await : Await) (hp : s.peers.has id) (hr : (s.queue id).running = some await) :
      LineEffect s id (.reject id) (s.peer id) ⟨none,(s.queue id).waiting⟩
  | assigned (index : Nat) (transceivers : List Transceiver) (hp : s.peers.has id)
      (hr : (s.queue id).running = some (.replaceTrack index)) :
      LineEffect s id (.sender id index true)
        (Peer.assign s.localStream { s.peer id with transceivers := transceivers }
          (index + 1)).peer
        ⟨(Peer.assign s.localStream { s.peer id with transceivers := transceivers }
          (index + 1)).awaits,(s.queue id).waiting⟩
  | unassigned (index : Nat) (transceivers : List Transceiver) (hp : s.peers.has id)
      (hr : (s.queue id).running = some (.replaceTrack index))
      (ho : s.callOwner id index = some .operation) :
      LineEffect s id (.sender id index false)
        { s.peer id with transceivers := transceivers } ⟨none,(s.queue id).waiting⟩
  | removed : LineEffect s id (.removePeer id) Peer.new ⟨none,[]⟩
  | ended : LineEffect s id .close Peer.new ⟨none,[]⟩

namespace LineEffect

variable {s : Session} {id j : JsString} {e : SessionEvent}

theorem other (he : e.turnOf ≠ some id) (hc : e ≠ .close) (hr : e ≠ .removePeer id) :
    LineEffect s id e (s.peer id) (s.queue id) := .same e (s.peer id).transceivers he hc hr

theorem after {waiting : List Operation} {turn : Turn}
    (hself : j = id → LineEffect s id e turn.peer ⟨turn.awaits,waiting⟩)
    (hother : j ≠ id → LineEffect s id e (s.peer id) (s.queue id)) :
    LineEffect s id e ((s.after j waiting turn).1.peer id)
      ((s.after j waiting turn).1.queue id) := by
  rw [peer_after,Session.queue_after]
  by_cases hj : id = j
  · rw [if_pos hj,if_pos hj]
    exact hself hj.symm
  · rw [if_neg hj,if_neg hj]
    exact hother (fun h => hj h.symm)

end LineEffect

theorem peer_of_get {s : Session} {id : JsString} {peer : Peer} (h : s.peers.get id = some peer) :
    s.peer id = peer := by simp [Session.peer,h]

theorem line_effect {s t : Session} {e : SessionEvent} {out : List Output}
    (h : s.step e = some (t,out)) (id : JsString) : LineEffect s id e (t.peer id) (t.queue id) := by
  cases session_effect h with
  | queued j signal hc =>
    rw [Session.queue_enqueue]
    by_cases hj : id = j
    · subst hj
      rw [if_pos rfl]
      exact .heard signal hc
    · rw [if_neg hj]
      exact .other (by simp [SessionEvent.turnOf,Ne.symm hj]) (by simp) (by simp)
  | unheard j signal hc =>
    by_cases hj : id = j
    · subst hj
      exact .unheard signal hc
    · exact .other (by simp [SessionEvent.turnOf,Ne.symm hj]) (by simp) (by simp)
  | begun j operation waiting peer hq ha hp =>
    have hp : peer = s.peer j := hp
    subst hp
    refine .after ?_ ?_
    · rintro rfl
      exact .begun operation waiting hq ha
    · intro hj
      exact .other (by simp [SessionEvent.turnOf,hj]) (by simp) (by simp)
  | skipped j operation waiting hq ha =>
    rw [Session.queue_set id rfl]
    by_cases hj : id = j
    · subst hj
      rw [if_pos rfl]
      exact .skipped operation waiting hq ha
    · rw [if_neg hj]
      exact .other (by simp [SessionEvent.turnOf,Ne.symm hj]) (by simp) (by simp)
  | resumed j sdp kinds peer await hp hr hne =>
    have hpeer := peer_of_get hp
    subst hpeer
    refine .after ?_ ?_
    · rintro rfl
      exact .resumed sdp kinds await (by simp [OrderedMap.has,hp]) hr hne
    · intro hj
      exact .other (by simp [SessionEvent.turnOf,hj]) (by simp) (by simp)
  | rejected j peer await hp hr =>
    rw [Session.queue_failed]
    by_cases hj : id = j
    · subst hj
      rw [if_pos rfl]
      exact .rejected await (by simp [OrderedMap.has,hp]) hr
    · rw [if_neg hj]
      exact .other (by simp [SessionEvent.turnOf,Ne.symm hj]) (by simp) (by simp)
  | assigned j index peer u track calls hp hu hc hr =>
    have hpeer := peer_of_get hp
    subst hpeer
    refine .after ?_ ?_
    · rintro rfl
      exact .assigned index _ (by simp [OrderedMap.has,hp]) hr
    · intro hj
      exact .other (by simp [SessionEvent.turnOf]) (by simp) (by simp)
  | unassigned j index peer u track calls hp hu hc hr =>
    have hpeer := peer_of_get hp
    subst hpeer
    refine .after ?_ ?_
    · rintro rfl
      exact .unassigned index _ (by simp [OrderedMap.has,hp]) hr
        (by simp [Session.callOwner,hu,hc])
    · intro hj
      exact .other (by simp [SessionEvent.turnOf]) (by simp) (by simp)
  | called j index ok peer u n track calls hp hu hc =>
    rw [peer_answered,Session.queue_answered]
    have hsame : ∃ transceivers, (Session.peer { s with peers := s.peers.set j { peer with
        transceivers := peer.transceivers.set index
          { u with track := if ok then track else u.track, calls := calls } } } id) =
        { s.peer id with transceivers := transceivers } := by
      simp only [Session.peer,OrderedMap.get_set]
      split
      · rename_i hj
        exact ⟨_,by simp [hj,hp]; rfl⟩
      · exact ⟨_,rfl⟩
    obtain ⟨transceivers,hsame⟩ := hsame
    have heffect : LineEffect s id (.sender j index ok)
        { s.peer id with transceivers := transceivers } (s.queue id) :=
      .same _ transceivers (by simp [SessionEvent.turnOf]) (by simp) (by simp)
    rw [← hsame] at heffect
    exact heffect
  | orphaned n j ok hp =>
    rw [peer_answered,Session.queue_answered]
    exact .other (by simp [SessionEvent.turnOf]) (by simp) (by simp)
  | gathered | tracked | disconnected =>
    exact .other (by simp [SessionEvent.turnOf]) (by simp) (by simp)
  | replacing oldTrack newTrack =>
    have hsame : ∃ transceivers, (s.replaceTrack oldTrack newTrack).peer id =
        { s.peer id with transceivers := transceivers } := by
      simp only [Session.peer,Session.peers_replaceTrack]
      cases hp : s.peers.get id with
      | none => exact ⟨_,rfl⟩
      | some peer => exact callOnSender_tracks _ _ _ peer
    obtain ⟨transceivers,hsame⟩ := hsame
    rw [hsame]
    exact .same _ transceivers (by simp [SessionEvent.turnOf]) (by simp) (by simp)
  | published r hr hw => exact .other (by simp [SessionEvent.turnOf]) (by simp) (by simp)
  | removed j =>
    rw [Session.queue_removePeer,Session.peer,Session.peers_removePeer]
    by_cases hj : id = j
    · subst hj
      rw [if_pos rfl,if_pos rfl]
      exact .removed
    · rw [if_neg hj,if_neg hj]
      exact .other (by simp [SessionEvent.turnOf]) (by simp) (by simpa using Ne.symm hj)
  | ended => exact .ended

theorem closed_step {s t : Session} {e : SessionEvent} {out : List Output}
    (h : s.step e = some (t,out)) : t.closed = (s.closed || e = .close) := by
  cases session_effect h with
  | called j index ok peer u n track calls =>
    simp
  | orphaned n j ok =>
    simp
  | ended => simp [Session.close]
  | _ => simp [Session.enqueue,Session.after,Session.failed,Session.replaceTrack,
      Session.publish,Session.removePeer]

theorem departed_step {s t : Session} {e : SessionEvent} {out : List Output}
    (h : s.step e = some (t,out)) (id : JsString) :
    id ∈ t.departed ↔ id ∈ s.departed ∨ e = .removePeer id := by
  cases session_effect h with
  | called j index ok peer u n track calls =>
    simp
  | orphaned n j ok =>
    simp
  | removed j => simp [Session.removePeer,or_comm,eq_comm]
  | _ => simp [Session.enqueue,Session.after,Session.failed,Session.replaceTrack,
      Session.publish,Session.close]

theorem accepts_step {s t : Session} {e : SessionEvent} {out : List Output}
    (h : s.step e = some (t,out)) (id : JsString) :
    t.accepts id ↔ s.accepts id ∧ e ≠ .close ∧ e ≠ .removePeer id := by
  have hd := departed_step h id
  simp only [Session.accepts,closed_step h,Bool.and_eq_true,
    Bool.not_eq_true',Bool.or_eq_false_iff,decide_eq_false_iff_not,List.contains_eq_mem]
  rw [hd]
  tauto

theorem calls_eq_nil {s : Session} {id : JsString} {e : SessionEvent}
    (h : e.turnOf ≠ some id) : s.calls id e = [] := by
  cases e with
  | next j | settle j sdp kinds =>
    have hj : j ≠ id := fun hj => h (by rw [hj]; rfl)
    simp only [Session.calls,hj,false_and,if_false]
    split <;> rfl
  | _ => rfl

theorem peers_gone {s t : Session} {e : SessionEvent} {out : List Output} {id : JsString}
    (h : s.step e = some (t,out)) (ht : t.accepts id = false)
    (hs : s.accepts id = false → s.peers.get id = none) : t.peers.get id = none := by
  have hset : ∀ (j : JsString) (peer : Peer), (s.accepts j ∨ s.peers.has j) →
      s.accepts id = false → (s.peers.set j peer).get id = none := by
    intro j peer hj hno
    rw [OrderedMap.get_set_ne]
    · exact hs hno
    · rintro rfl
      rcases hj with hj | hj
      · rw [hno] at hj
        cases hj
      · rw [OrderedMap.has,hs hno] at hj
        cases hj
  by_cases hgone : e = .close ∨ e = .removePeer id
  · rcases hgone with rfl | rfl
    · cases h
      rfl
    · cases h
      exact OrderedMap.get_delete_self _ _
  · have hno : s.accepts id = false := by
      by_contra hyes
      have := (accepts_step h id).mpr ⟨by simpa using hyes,fun he => hgone (Or.inl he),
        fun he => hgone (Or.inr he)⟩
      rw [ht] at this
      cases this
    cases session_effect h with
    | begun j operation waiting peer hq ha hp => exact hset j _ (Or.inl ha) hno
    | resumed j sdp kinds peer await hp hr hne =>
      exact hset j _ (Or.inr (by simp [OrderedMap.has,hp])) hno
    | assigned j index peer u track calls hp hu hc hr =>
      exact hset j _ (Or.inr (by simp [OrderedMap.has,hp])) hno
    | unassigned j index peer u track calls hp hu hc hr =>
      exact hset j _ (Or.inr (by simp [OrderedMap.has,hp])) hno
    | called j index ok peer u n track calls hp hu hc =>
      rw [Session.answered_peers]
      exact hset j _ (Or.inr (by simp [OrderedMap.has,hp])) hno
    | orphaned n j ok hp =>
      rw [Session.answered_peers]
      exact hs hno
    | replacing oldTrack newTrack => rw [Session.peers_replaceTrack,hs hno]; rfl
    | removed j =>
      rw [Session.peers_removePeer,hs hno]
      simp
    | ended => rfl
    | _ => exact hs hno

end MaiaMeet
