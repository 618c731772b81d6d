import MaiaMeet.Exchange
import MaiaMeet.Line
set_option autoImplicit false

/-! Candidates before and after the description: what a session makes of one description and
the candidates around it, when the browser takes the description and refuses some of the
candidates. -/

namespace MaiaMeet

def reached (bad : Candidate → Bool) : List Candidate → List Candidate
  | [] => []
  | c :: cs => if bad c then [c] else c :: reached bad cs

def Quiet (running : Option Await) : Prop :=
  running = none ∨ running = some .createOffer ∨ running = some .setLocalOffer

def trickled (l : List Candidate) : List Signal := l.map .iceCandidate

def answersTo (bad : Candidate → Bool) (pre : List Candidate) (description : Signal) : Nat :=
  if description.isOffer ∧ ∀ c ∈ pre, ¬ bad c then 1 else 0

/-- How far a peer is with a description and the candidates `pre` before and `post` after
it: what is still to come, what was handed to addIceCandidate, and the answers created
and sent. -/
inductive Trickle (bad : Candidate → Bool) (pre post : List Candidate) (description : Signal)
    (peer : Peer) : Option Await → List Signal → List Candidate → Nat → Nat → Prop where
  | before (running : Option Await) (cs rest : List Candidate)
      (hpre : pre = cs ++ rest) (hq : Quiet running) (hr : peer.remoteDescription = none)
      (hc : peer.candidates = cs) (hi : peer.ice = []) :
      Trickle bad pre post description peer running
        (trickled rest ++ description :: trickled post) [] 0 0
  | applying (sdp : JsString) (hc : peer.candidates = pre) (hi : peer.ice = []) :
      Trickle bad pre post description peer
        (some (.setRemoteDescription description.isOffer sdp)) (trickled post) [] 0 0
  | flushing (tried : List Candidate) (c : Candidate) (rest : List Candidate)
      (hpre : pre = tried ++ c :: rest) (hgood : ∀ x ∈ tried, ¬ bad x)
      (hr : peer.remoteDescription.isSome) (hc : peer.candidates = []) (hi : peer.ice = tried) :
      Trickle bad pre post description peer (some (.flush description.isOffer c rest))
        (trickled post) (tried ++ [c]) 0 0
  | answering (await : Await) (ho : description.isOffer)
      (hgood : ∀ x ∈ pre, ¬ bad x) (ha : await = .createAnswer ∨ ∃ i, await = .replaceTrack i)
      (hr : peer.remoteDescription.isSome) (hc : peer.candidates = []) (hi : peer.ice = pre) :
      Trickle bad pre post description peer (some await) (trickled post) pre 0 0
  | sending (ho : description.isOffer) (hgood : ∀ x ∈ pre, ¬ bad x)
      (hr : peer.remoteDescription.isSome) (hc : peer.candidates = []) (hi : peer.ice = pre) :
      Trickle bad pre post description peer (some .setLocalAnswer) (trickled post) pre 1 0
  | after (running : Option Await) (later rest : List Candidate)
      (hpost : post = later ++ rest) (hq : Quiet running) (hr : peer.remoteDescription.isSome)
      (hc : peer.candidates = [])
      (hi : peer.ice = (reached bad pre ++ later).filter (fun c => !bad c)) :
      Trickle bad pre post description peer running (trickled rest) (reached bad pre ++ later)
        (answersTo bad pre description) (answersTo bad pre description)
  | adding (later : List Candidate) (c : Candidate) (rest : List Candidate)
      (hpost : post = later ++ c :: rest) (hr : peer.remoteDescription.isSome)
      (hc : peer.candidates = [])
      (hi : peer.ice = (reached bad pre ++ later).filter (fun c => !bad c)) :
      Trickle bad pre post description peer (some (.addIceCandidate c)) (trickled rest)
        (reached bad pre ++ (later ++ [c])) (answersTo bad pre description)
        (answersTo bad pre description)

section
variable {bad : Candidate → Bool} {pre post : List Candidate} {description : Signal}
  {peer : Peer} {todo : List Signal} {called : List Candidate} {created sent : Nat}

theorem reached_append {l : List Candidate} (h : ∀ x ∈ l, ¬ bad x) (m : List Candidate) :
    reached bad (l ++ m) = l ++ reached bad m := by
  induction l with
  | nil => rfl
  | cons c l ih =>
    obtain ⟨hc,hl⟩ := List.forall_mem_cons.mp h
    simp [reached,hc,ih hl]

theorem reached_good {l : List Candidate} (h : ∀ x ∈ l, ¬ bad x) : reached bad l = l := by
  have := reached_append h []
  simpa [reached] using this

theorem filter_good {l : List Candidate} (h : ∀ x ∈ l, ¬ bad x) :
    l.filter (fun c => !bad c) = l := by
  rw [List.filter_eq_self]
  intro x hx
  simpa using h x hx

theorem answersTo_good (ho : description.isOffer) (h : ∀ x ∈ pre, ¬ bad x) :
    answersTo bad pre description = 1 := if_pos ⟨ho,h⟩

theorem Trickle.tracks {running : Option Await}
    (h : Trickle bad pre post description peer running todo called created sent)
    (transceivers : List Transceiver) :
    Trickle bad pre post description { peer with transceivers := transceivers } running todo
      called created sent := by
  cases h with
  | before _ cs rest hpre hq hr hc hi => exact .before _ cs rest hpre hq hr hc hi
  | applying sdp hc hi => exact .applying sdp hc hi
  | flushing tried c rest hpre hgood hr hc hi => exact .flushing tried c rest hpre hgood hr hc hi
  | answering await ho hgood ha hr hc hi => exact .answering await ho hgood ha hr hc hi
  | sending ho hgood hr hc hi => exact .sending ho hgood hr hc hi
  | after _ later rest hpost hq hr hc hi => exact .after _ later rest hpost hq hr hc hi
  | adding later c rest hpost hr hc hi => exact .adding later c rest hpost hr hc hi

theorem trickle_assign (peer : Peer) (post : List Candidate) (stream : Stream) (ho : description.isOffer)
    (hgood : ∀ x ∈ pre, ¬ bad x) (hr : peer.remoteDescription.isSome)
    (hc : peer.candidates = []) (hi : peer.ice = pre) (index : Nat) :
    Trickle bad pre post description (peer.assign stream index).peer
      (peer.assign stream index).awaits (trickled post) pre 0 0 ∧
      (peer.assign stream index).calls = [] := by
  unfold Peer.assign
  split
  · exact ⟨.answering .createAnswer ho hgood (Or.inl rfl) hr hc hi,rfl⟩
  · exact ⟨.answering (.replaceTrack index) ho hgood (Or.inr ⟨index,rfl⟩) hr hc hi,rfl⟩

theorem trickle_assigned (stream : Stream) (transceivers : List Transceiver) {index : Nat}
    (h : Trickle bad pre post description peer (some (.replaceTrack index)) todo called created
      sent) :
    Trickle bad pre post description
      (Peer.assign stream { peer with transceivers := transceivers } (index + 1)).peer
      (Peer.assign stream { peer with transceivers := transceivers } (index + 1)).awaits todo
      called created sent := by
  generalize hawait : some (Await.replaceTrack index) = running at h
  cases h with
  | before _ cs rest hpre hq | after _ cs rest hpre hq =>
    subst hawait
    rcases hq with hq | hq | hq <;> cases hq
  | applying | flushing | sending | adding => cases hawait
  | answering await ho hgood ha hr hc hi =>
    have hassign := trickle_assign { peer with transceivers := transceivers } post stream ho hgood
      hr hc hi (index + 1)
    exact hassign.1

theorem trickle_flush (stream : Stream) {tried rest : List Candidate}
    (hpre : pre = tried ++ rest) (hgood : ∀ x ∈ tried, ¬ bad x)
    (hr : peer.remoteDescription.isSome) (hc : peer.candidates = []) (hi : peer.ice = tried) :
    Trickle bad pre post description (peer.flush stream description.isOffer rest).peer
      (peer.flush stream description.isOffer rest).awaits (trickled post)
      (tried ++ (peer.flush stream description.isOffer rest).calls) 0 0 := by
  cases rest with
  | cons c rest => exact .flushing tried c rest hpre hgood hr hc hi
  | nil =>
    rw [List.append_nil] at hpre
    subst hpre
    unfold Peer.flush
    cases ho : description.isOffer with
    | true =>
      obtain ⟨h,hcalls⟩ := trickle_assign peer post stream ho hgood hr hc hi 0
      rw [if_pos rfl,hcalls,List.append_nil]
      exact h
    | false =>
      have hnone : answersTo bad pre description = 0 := if_neg (by simp [ho])
      have h : Trickle bad pre post description peer none (trickled post) (reached bad pre ++ [])
          (answersTo bad pre description) (answersTo bad pre description) :=
        .after none [] post rfl (Or.inl rfl) hr hc
          (by rw [reached_good hgood,List.append_nil,filter_good hgood,hi])
      rw [hnone,reached_good hgood] at h
      exact h

theorem trickle_perform (stream : Stream) {operation : Operation}
    (hd : description.isOffer ∨ description.isAnswer)
    (h : Trickle bad pre post description peer none (operation.heard ++ todo) called created
      sent) :
    Trickle bad pre post description (peer.perform stream operation).peer
      (peer.perform stream operation).awaits todo
      (called ++ (peer.perform stream operation).calls) created sent := by
  generalize htodo : operation.heard ++ todo = l at h
  cases operation with
  | offer =>
    have hl : todo = l := htodo
    subst hl
    have hcalls : (peer.perform stream .offer).calls = [] := rfl
    rw [hcalls,List.append_nil]
    cases h with
    | before _ cs rest hpre hq hr hc hi =>
      exact .before _ cs rest hpre (Or.inr (Or.inl rfl)) hr hc hi
    | after _ later rest hpost hq hr hc hi =>
      exact .after _ later rest hpost (Or.inr (Or.inl rfl)) hr hc hi
  | handle signal =>
    have hl : signal :: todo = l := htodo
    cases h with
    | before _ cs rest hpre hq hr hc hi =>
      cases rest with
      | nil =>
        obtain ⟨rfl,rfl⟩ := List.cons.inj hl
        rw [List.append_nil] at hpre
        cases signal with
        | iceCandidate c => simp [Signal.isOffer,Signal.isAnswer] at hd
        | offer sdp | answer sdp => exact .applying sdp (hc.trans hpre.symm) hi
      | cons c rest =>
        obtain ⟨rfl,rfl⟩ := List.cons.inj hl
        have hkept : (peer.perform stream (.handle (.iceCandidate c))) =
            ⟨{ peer with candidates := peer.candidates ++ [c] },none,[]⟩ := by
          simp [Peer.perform,hr]
        rw [hkept]
        exact .before none (cs ++ [c]) rest (by rw [hpre]; simp) (Or.inl rfl) hr
          (by rw [hc]) hi
    | after _ later rest hpost hq hr hc hi =>
      cases rest with
      | nil => cases hl
      | cons c rest =>
        obtain ⟨rfl,rfl⟩ := List.cons.inj hl
        have hadded : (peer.perform stream (.handle (.iceCandidate c))) =
            ⟨peer,some (.addIceCandidate c),[]⟩ := by simp [Peer.perform,hr]
        rw [hadded]
        have hadding : Trickle bad pre post description peer (some (.addIceCandidate c))
            (trickled rest) (reached bad pre ++ (later ++ [c]))
            (answersTo bad pre description) (answersTo bad pre description) :=
          .adding later c rest hpost hr hc hi
        rw [← List.append_assoc] at hadding
        exact hadding

theorem trickle_resume (stream : Stream) {await : Await} (hne : ∀ i, await ≠ .replaceTrack i)
    (hok : ∀ c ∈ await.calls, ¬ bad c) (id sdp : JsString) (kinds : List Kind)
    (h : Trickle bad pre post description peer (some await) todo called created sent) :
    Trickle bad pre post description (peer.resume stream id sdp kinds await).peer
      (peer.resume stream id sdp kinds await).awaits todo
      (called ++ (peer.resume stream id sdp kinds await).calls)
      (created + if await = .createAnswer then 1 else 0)
      (sent + if await = .setLocalAnswer then 1 else 0) := by
  have hquiet : Quiet (some await) → await = .createOffer ∨ await = .setLocalOffer := by
    rintro (hq | hq | hq) <;> simp_all
  generalize hawait : some await = running at h
  cases h with
  | before _ cs rest hpre hq hr hc hi =>
    subst hawait
    rcases hquiet hq with rfl | rfl
    · exact .before _ cs rest hpre (Or.inr (Or.inr rfl)) hr hc hi
    · exact .before _ cs rest hpre (Or.inl rfl) hr hc hi
  | applying sdp hc hi =>
    cases hawait
    simp only [Peer.resume,hc]
    exact trickle_flush stream rfl (by simp) rfl rfl hi
  | flushing tried c rest hpre hgood hr hc hi =>
    cases hawait
    have hc' : ¬ bad c := hok c (List.mem_singleton_self c)
    refine trickle_flush stream (by rw [hpre]; simp) ?_ hr hc (by rw [hi])
    intro x hx
    rcases List.mem_append.mp hx with hx | hx
    · exact hgood x hx
    · rw [List.mem_singleton.mp hx]
      exact hc'
  | answering _ ho hgood ha hr hc hi =>
    cases hawait
    rcases ha with rfl | ⟨i,rfl⟩
    · have hcalls : (peer.resume stream id sdp kinds .createAnswer).calls = [] := rfl
      rw [hcalls,List.append_nil]
      exact .sending ho hgood hr hc hi
    · exact absurd rfl (hne i)
  | sending ho hgood hr hc hi =>
    cases hawait
    have hafter : Trickle bad pre post description { peer with localDescription := some sdp } none
        (trickled post) (reached bad pre ++ []) (answersTo bad pre description)
        (answersTo bad pre description) :=
      .after none [] post rfl (Or.inl rfl) hr hc
        (by rw [reached_good hgood,List.append_nil,filter_good hgood,← hi])
    rw [reached_good hgood,answersTo_good ho hgood] at hafter
    exact hafter
  | after _ later rest hpost hq hr hc hi =>
    subst hawait
    have hcalls : (peer.resume stream id sdp kinds await).calls = [] := by
      rcases hquiet hq with rfl | rfl <;> rfl
    rw [hcalls,List.append_nil]
    rcases hquiet hq with rfl | rfl
    · exact .after _ later rest hpost (Or.inr (Or.inr rfl)) hr hc hi
    · exact .after _ later rest hpost (Or.inl rfl) hr hc hi
  | adding later c rest hpost hr hc hi =>
    cases hawait
    have hc' : ¬ bad c := hok c (List.mem_singleton_self c)
    have hafter : Trickle bad pre post description { peer with ice := peer.ice ++ [c] } none
        (trickled rest) (reached bad pre ++ (later ++ [c])) (answersTo bad pre description)
        (answersTo bad pre description) :=
      .after none (later ++ [c]) rest (by rw [hpost]; simp) (Or.inl rfl) hr hc
        (by rw [hi]; simp [hc'])
    have hcalls : (peer.resume stream id sdp kinds (.addIceCandidate c)).calls = [] := rfl
    rw [hcalls,List.append_nil]
    exact hafter

/-- A refused candidate ends its operation: in a flush the candidates behind it are lost,
and the answer. -/
theorem trickle_reject {await : Await} (hbad : ∃ c ∈ await.calls, bad c)
    (h : Trickle bad pre post description peer (some await) todo called created sent) :
    Trickle bad pre post description peer none todo called created sent := by
  obtain ⟨x,hx,hbad⟩ := hbad
  generalize hawait : some await = running at h
  cases h with
  | before _ cs rest hpre hq hr hc hi =>
    subst hawait
    exact .before _ cs rest hpre (Or.inl rfl) hr hc hi
  | after _ later rest hpost hq hr hc hi =>
    subst hawait
    exact .after _ later rest hpost (Or.inl rfl) hr hc hi
  | applying | sending =>
    cases hawait
    cases hx
  | answering _ ho hgood ha hr hc hi =>
    cases hawait
    rcases ha with rfl | ⟨i,rfl⟩ <;> cases hx
  | flushing tried c rest hpre hgood hr hc hi =>
    cases hawait
    rw [List.mem_singleton.mp hx] at hbad
    have hreached : reached bad pre = tried ++ [c] := by
      rw [hpre,reached_append hgood,reached,if_pos hbad]
    have hnone : answersTo bad pre description = 0 :=
      if_neg (fun hall => hall.2 c (by rw [hpre]; simp) hbad)
    have hafter : Trickle bad pre post description peer none (trickled post)
        (reached bad pre ++ []) (answersTo bad pre description)
        (answersTo bad pre description) :=
      .after none [] post rfl (Or.inl rfl) hr hc
        (by rw [hreached,List.append_nil,List.filter_append,filter_good hgood,hi]; simp [hbad])
    rw [hreached,hnone,List.append_nil] at hafter
    exact hafter
  | adding later c rest hpost hr hc hi =>
    cases hawait
    rw [List.mem_singleton.mp hx] at hbad
    exact .after none (later ++ [c]) rest (by rw [hpost]; simp) (Or.inl rfl) hr hc
      (by rw [hi]; simp [hbad])

end

def SessionEvent.heardFrom (id : JsString) : SessionEvent → Option Signal
  | .signal j sg => if j = id then some sg else none
  | _ => none

/-- What the browser does for the peer: it refuses the bad candidates and serves every other
call. The peer stays, and so does the page. -/
def Session.Trickles (bad : Candidate → Bool) (id : JsString) (s : Session) :
    SessionEvent → Prop
  | .settle j _ _ => j = id → ∀ c ∈ (s.queue id).running.elim [] Await.calls, ¬ bad c
  | .reject j => j = id → ∃ c ∈ (s.queue id).running.elim [] Await.calls, bad c
  | .sender j index ok => j = id → s.callOwner id index = some .operation → ok
  | .removePeer j => j ≠ id
  | .close => False
  | _ => True

def Session.settled (await : Await) (id : JsString) (s : Session) : SessionEvent → List Await
  | .settle j _ _ => if j = id ∧ (s.queue id).running = some await then [await] else []
  | _ => []

instance (bad : Candidate → Bool) (id : JsString) (s : Session) (e : SessionEvent) :
    Decidable (s.Trickles bad id e) :=
  match e with
  | .settle _ _ _ => inferInstanceAs (Decidable (_ → ∀ c ∈ _, _))
  | .reject _ => inferInstanceAs (Decidable (_ → ∃ c ∈ _, _))
  | .sender _ _ _ => inferInstanceAs (Decidable (_ → _ → _))
  | .removePeer _ => inferInstanceAs (Decidable (¬ _))
  | .close => instDecidableFalse
  | .signal _ _ | .next _ | .orphan _ _ _ | .candidate _ _ | .track _ | .connectionFailed _
  | .replaceTrack _ _ | .replaced _ => instDecidableTrue

def Session.answersSent (id : JsString) (s : Session) (e : SessionEvent) : List Output :=
  (s.step e).elim [] (fun r => r.2.filter (Output.answers id))

theorem settled_eq_nil {await : Await} {id : JsString} {s : Session} {e : SessionEvent}
    (h : e.turnOf ≠ some id) : s.settled await id e = [] := by
  cases e with
  | settle j sdp kinds =>
    have hj : j ≠ id := fun hj => h (by rw [hj]; rfl)
    simp [Session.settled,hj]
  | _ => rfl

/-- An answer goes out when the local description of one is set, and only then. -/
theorem answers_step {s t : Session} {e : SessionEvent} {out : List Output}
    (h : s.step e = some (t,out)) (id : JsString) :
    (s.answersSent id e).length = (s.settled .setLocalAnswer id e).length := by
  have hout : s.answersSent id e = out.filter (Output.answers id) := by
    rw [Session.answersSent,h,Option.elim_some]
  rw [hout]
  cases session_effect h with
  | resumed j sdp kinds peer await hp hr hne =>
    rw [Peer.resume_out]
    by_cases hj : j = id
    · subst hj
      cases await <;> simp [Session.settled,hr,Output.answers]
    · cases await <;> simp [Session.settled,Output.answers,hj]
  | assigned => simp [Session.settled]
  | begun => simp [Session.settled]
  | called j index ok peer u n track calls | orphaned n j ok =>
    have hnil : (s.answered n j ok).2.filter (Output.answers id) = [] := by
      rw [List.filter_eq_nil_iff]
      intro o ho
      rw [Session.mem_answered ho]
      simp [Output.answers]
    simp [hnil,Session.settled]
  | _ => simp [Session.settled,Output.answers]

section
variable {bad : Candidate → Bool} {pre post : List Candidate} {description : Signal}
  {s t : Session} {id : JsString} {called : List Candidate} {created sent : Nat}

theorem trickle_step (hd : description.isOffer ∨ description.isAnswer) (ha : s.accepts id)
    {e : SessionEvent} {out : List Output} {rest : List Signal}
    (h : Trickle bad pre post description (s.peer id) (s.queue id).running
      ((s.queue id).heard ++ ((e.heardFrom id).toList ++ rest)) called created sent)
    (hok : s.Trickles bad id e) (hstep : s.step e = some (t,out)) :
    Trickle bad pre post description (t.peer id) (t.queue id).running
      ((t.queue id).heard ++ rest) (called ++ s.calls id e)
      (created + (s.settled .createAnswer id e).length)
      (sent + (s.settled .setLocalAnswer id e).length) := by
  have hopen : s.closed = false := by
    simp only [Session.accepts,Bool.and_eq_true,Bool.not_eq_true'] at ha
    exact ha.1
  generalize hpeer : t.peer id = peer
  generalize hqueue : t.queue id = queue
  have heffect := line_effect hstep id
  rw [hpeer,hqueue] at heffect
  cases heffect with
  | same _ transceivers he hc hr =>
    have hheard : e.heardFrom id = none := by
      cases e with
      | signal j signal =>
        have hj : j ≠ id := fun hj => he (by rw [hj]; rfl)
        simp [SessionEvent.heardFrom,hj]
      | _ => rfl
    rw [hheard] at h
    rw [calls_eq_nil he,settled_eq_nil he,settled_eq_nil he,List.append_nil]
    exact h.tracks transceivers
  | unheard signal hclosed =>
    rw [hclosed] at hopen
    cases hopen
  | heard signal hclosed =>
    have hqueue : (Queue.mk (s.queue id).running
        ((s.queue id).waiting ++ [.handle signal])).heard = (s.queue id).heard ++ [signal] := by
      simp [Queue.heard,Operation.heard]
    rw [hqueue]
    simpa [SessionEvent.heardFrom,Session.calls,Session.settled] using h
  | begun operation waiting hq hacc =>
    have hcalls : s.calls id (.next id) =
        ((s.peer id).perform s.localStream operation).calls := by
      simp [Session.calls,hq,ha]
    have hsettled : ∀ a, s.settled a id (.next id) = [] := fun _ => rfl
    rw [hq] at h
    rw [hcalls,hsettled,hsettled]
    refine trickle_perform s.localStream hd ?_
    simpa [Queue.heard,SessionEvent.heardFrom] using h
  | skipped operation waiting hq hacc =>
    rw [hacc] at ha
    cases ha
  | resumed sdp kinds await hp hr hne =>
    have hcalls : s.calls id (.settle id sdp kinds) =
        ((s.peer id).resume s.localStream id sdp kinds await).calls := by
      simp [Session.calls,hr]
    have hgood : ∀ c ∈ await.calls, ¬ bad c := by
      have := hok rfl
      rwa [hr] at this
    rw [hr] at h
    have hnext := trickle_resume s.localStream hne hgood id sdp kinds h
    rw [hcalls]
    have hcount : ∀ a, (s.settled a id (.settle id sdp kinds)).length =
        if await = a then 1 else 0 := by
      intro a
      by_cases hawait : await = a <;> simp [Session.settled,hr,hawait]
    rw [hcount,hcount]
    simpa [SessionEvent.heardFrom,Queue.heard] using hnext
  | rejected await hp hr =>
    have hbad : ∃ c ∈ await.calls, bad c := by
      have := hok rfl
      rwa [hr] at this
    rw [hr] at h
    have hnext := trickle_reject hbad h
    simpa [SessionEvent.heardFrom,Session.calls,Session.settled,Queue.heard] using hnext
  | assigned index transceivers hp hr =>
    rw [hr] at h
    have hcalls : s.calls id (.sender id index true) = [] := rfl
    have hsettled : ∀ a, s.settled a id (.sender id index true) = [] := fun _ => rfl
    rw [hcalls,hsettled,hsettled,List.append_nil]
    exact trickle_assigned s.localStream transceivers h
  | unassigned index transceivers hp hr howner =>
    cases hok rfl howner
  | removed => exact absurd rfl hok
  | ended => exact hok.elim

theorem trickle_run (hd : description.isOffer ∨ description.isAnswer) {es : List SessionEvent}
    (ha : s.accepts id)
    (h : Trickle bad pre post description (s.peer id) (s.queue id).running
      ((s.queue id).heard ++ es.filterMap (SessionEvent.heardFrom id)) called created sent)
    (hok : Runs.Along Session.advance (Session.Trickles bad id) s es)
    (hrun : Runs.exec Session.advance s es = some t) :
    Trickle bad pre post description (t.peer id) (t.queue id).running (t.queue id).heard
      (called ++ Runs.trace Session.advance (Session.calls id) s es)
      (created + (Runs.trace Session.advance (Session.settled .createAnswer id) s es).length)
      (sent + (Runs.trace Session.advance (Session.answersSent id) s es).length) := by
  induction es generalizing s called created sent with
  | nil =>
    cases hrun
    simpa [Runs.trace] using h
  | cons e es ih =>
    obtain ⟨u,hu,hrun⟩ := Runs.exec_cons_some.mp hrun
    obtain ⟨hoke,hoks⟩ := hok
    obtain ⟨⟨_,out⟩,hstep,rfl⟩ := Option.map_eq_some_iff.mp hu
    have hgone : e ≠ .close ∧ e ≠ .removePeer id := by
      refine ⟨?_,?_⟩
      · rintro rfl
        exact hoke
      · rintro rfl
        exact absurd rfl hoke
    have hu' := (accepts_step hstep id).mpr ⟨ha,hgone⟩
    have htodo : (e :: es).filterMap (SessionEvent.heardFrom id) =
        (e.heardFrom id).toList ++ es.filterMap (SessionEvent.heardFrom id) := by
      cases he : e.heardFrom id <;> simp [he]
    rw [htodo] at h
    have hnext := trickle_step hd ha h hoke hstep
    rw [← answers_step hstep] at hnext
    have hall := ih hu' hnext (hoks _ hu) hrun
    simp only [Runs.trace,hu,Option.elim_some,List.length_append]
    rw [← List.append_assoc,← Nat.add_assoc,← Nat.add_assoc]
    exact hall

end

theorem Trickle.finished {bad : Candidate → Bool} {pre post : List Candidate}
    {description : Signal} {peer : Peer} {called : List Candidate} {created sent : Nat}
    (h : Trickle bad pre post description peer none [] called created sent) :
    called = reached bad pre ++ post ∧ peer.ice = called.filter (fun c => !bad c) ∧
      created = answersTo bad pre description ∧ sent = answersTo bad pre description := by
  generalize htodo : ([] : List Signal) = todo at h
  cases h with
  | before _ cs rest => simp [trickled] at htodo
  | after _ later rest hpost hq hr hc hi =>
    have hrest : rest = [] := by simpa [trickled] using htodo.symm
    rw [hrest,List.append_nil] at hpost
    rw [hpost]
    exact ⟨rfl,hi,rfl,rfl⟩

theorem reached_length (bad : Candidate → Bool) (pre : List Candidate) :
    (reached bad pre).length = pre.length ↔ ∀ c ∈ pre.dropLast, ¬ bad c := by
  induction pre with
  | nil => simp [reached]
  | cons c cs ih =>
    cases cs with
    | nil => by_cases hc : bad c <;> simp [reached,hc]
    | cons d ds =>
      rw [List.dropLast_cons_cons,List.forall_mem_cons,reached]
      by_cases hc : bad c
      · simp [hc]
      · simpa [hc] using ih

theorem reached_of_dropLast {bad : Candidate → Bool} {pre : List Candidate}
    (h : ∀ c ∈ pre.dropLast, ¬ bad c) : reached bad pre = pre := by
  induction pre with
  | nil => rfl
  | cons c cs ih =>
    cases cs with
    | nil => by_cases hc : bad c <;> simp [reached,hc]
    | cons d ds =>
      rw [List.dropLast_cons_cons,List.forall_mem_cons] at h
      rw [reached,if_neg h.1,ih h.2]

/-- Where a session has handled every message of a peer: each candidate was tried once, the
connection has those that are not bad, and an offer was answered once. -/
structure Handled (bad : Candidate → Bool) (candidates : List Candidate) (description : Signal)
    (start finish : Session) (id : JsString) (es : List SessionEvent) : Prop where
  tried : (Runs.trace Session.advance (Session.calls id) start es).Perm candidates
  taken : (finish.peer id).ice.Perm (candidates.filter (fun c => !bad c))
  created : description.isOffer →
    (Runs.trace Session.advance (Session.settled .createAnswer id) start es).length = 1
  sent : description.isOffer →
    (Runs.trace Session.advance (Session.answersSent id) start es).length = 1

/-- One description and the candidates around it, in any run in which the browser refuses the
bad candidates only: the place of the description makes no difference exactly if no
candidate kept for an offer is bad, nor any but the last of those kept for an answer. -/
theorem trickle_confluence (stream : Stream) (participants : List JsString) (id : JsString)
    (bad : Candidate → Bool) (pre post : List Candidate) (description : Signal)
    (hd : description.isOffer ∨ description.isAnswer) (es : List SessionEvent) (t : Session)
    (hrun : Runs.exec Session.advance (Session.start stream participants) es = some t)
    (hheard : es.filterMap (SessionEvent.heardFrom id) =
      trickled pre ++ description :: trickled post)
    (hok : Runs.Along Session.advance (Session.Trickles bad id)
      (Session.start stream participants) es)
    (hidle : t.queue id = ⟨none,[]⟩) :
    Handled bad (pre ++ post) description (Session.start stream participants) t id es ↔
      ∀ c ∈ (if description.isOffer then pre else pre.dropLast), ¬ bad c := by
  obtain ⟨queues,hstart⟩ := Session.start_eq stream participants
  have hqueue := Session.queue_start stream participants id
  have hpeer : (Session.start stream participants).peer id = Peer.new := by
    simp [hstart,Session.peer]
  have hheard0 : ((Session.start stream participants).queue id).heard = [] := by
    simp [hqueue,Queue.heard,Operation.heard]
  have hinit : Trickle bad pre post description ((Session.start stream participants).peer id)
      ((Session.start stream participants).queue id).running
      (((Session.start stream participants).queue id).heard ++
        es.filterMap (SessionEvent.heardFrom id)) [] 0 0 := by
    rw [hheard0,hheard,hpeer,hqueue]
    exact .before none [] pre rfl (Or.inl rfl) rfl rfl rfl
  have hend := trickle_run hd (by simp [hstart,Session.accepts]) hinit hok hrun
  rw [hidle] at hend
  obtain ⟨htried,htaken,hcreated,hsent⟩ := hend.finished
  rw [List.nil_append] at htried htaken
  rw [Nat.zero_add] at hcreated hsent
  rw [htried] at htaken
  constructor
  · intro h
    have hlength := h.tried.length_eq
    rw [htried,List.length_append,List.length_append] at hlength
    have hkept := (reached_length bad pre).mp (by omega)
    split
    · rename_i ho
      have hone := h.created ho
      rw [hcreated,answersTo] at hone
      by_contra hbad
      rw [if_neg (fun hall => hbad hall.2)] at hone
      cases hone
    · exact hkept
  · intro h
    have hkept : ∀ c ∈ pre.dropLast, ¬ bad c := by
      split at h
      · exact fun c hc => h c (List.dropLast_subset pre hc)
      · exact h
    have hreached := reached_of_dropLast hkept
    have hone : description.isOffer → answersTo bad pre description = 1 := by
      intro ho
      rw [if_pos ho] at h
      exact answersTo_good ho h
    rw [hreached] at htried htaken
    exact ⟨by rw [htried],by rw [htaken],fun ho => hcreated.trans (hone ho),
      fun ho => hsent.trans (hone ho)⟩

def textCandidate (text : String) : Candidate := ⟨js text,.undefined,.undefined⟩

def isGarbled (c : Candidate) : Bool := c.candidate = js "garbled"

/-- An offer behind a good candidate, and a garbled one after it. -/
def lateGarbled : List SessionEvent :=
  [.signal (js "b") (.iceCandidate (textCandidate "one")),
    .signal (js "b") (.offer (js "v=0")),.next (js "b"),.next (js "b"),
    .settle (js "b") [] [],.settle (js "b") [] [],
    .signal (js "b") (.iceCandidate (textCandidate "garbled")),
    .settle (js "b") [] [],.settle (js "b") (js "v=0") [],.next (js "b"),.reject (js "b")]

theorem trickle_confluence_late_garbled : ∃ t,
    Runs.exec Session.advance (Session.start [] []) lateGarbled = some t ∧
      Handled isGarbled [textCandidate "one",textCandidate "garbled"] (.offer (js "v=0"))
        (Session.start [] []) t (js "b") lateGarbled := by
  have hrun : ((Runs.exec Session.advance (Session.start [] []) lateGarbled).filter
      (fun t => t.queue (js "b") = ⟨none,[]⟩)).isSome := by decide +kernel
  obtain ⟨t,ht⟩ := Option.isSome_iff_exists.mp hrun
  obtain ⟨hrun,hidle⟩ := Option.filter_eq_some_iff.mp ht
  exact ⟨t,hrun,(trickle_confluence [] [] (js "b") isGarbled [textCandidate "one"]
    [textCandidate "garbled"] (.offer (js "v=0")) (Or.inl rfl) lateGarbled t hrun rfl
    (by decide +kernel) (of_decide_eq_true hidle)).mpr (by decide)⟩

/-- The same messages with the garbled candidate first: the other candidate is lost, and the
offer is never answered. -/
def earlyGarbled : List SessionEvent :=
  [.signal (js "b") (.iceCandidate (textCandidate "garbled")),
    .signal (js "b") (.iceCandidate (textCandidate "one")),
    .signal (js "b") (.offer (js "v=0")),.next (js "b"),.next (js "b"),.next (js "b"),
    .settle (js "b") [] [],.reject (js "b")]

theorem trickle_confluence_early_garbled :
    ¬ ∀ (stream : Stream) (participants : List JsString) (id : JsString)
      (bad : Candidate → Bool) (pre post : List Candidate) (description : Signal)
      (es : List SessionEvent) (t : Session),
      description.isOffer ∨ description.isAnswer →
      Runs.exec Session.advance (Session.start stream participants) es = some t →
      es.filterMap (SessionEvent.heardFrom id) =
        trickled pre ++ description :: trickled post →
      Runs.Along Session.advance (Session.Trickles bad id)
        (Session.start stream participants) es →
      t.queue id = ⟨none,[]⟩ →
      Handled bad (pre ++ post) description (Session.start stream participants) t id es := by
  intro h
  have hrun : ((Runs.exec Session.advance (Session.start [] []) earlyGarbled).filter
      (fun t => t.queue (js "b") = ⟨none,[]⟩)).isSome := by decide +kernel
  obtain ⟨t,ht⟩ := Option.isSome_iff_exists.mp hrun
  obtain ⟨hrun,hidle⟩ := Option.filter_eq_some_iff.mp ht
  have hhandled := h [] [] (js "b") isGarbled [textCandidate "garbled",textCandidate "one"] []
    (.offer (js "v=0")) earlyGarbled t (Or.inl rfl) hrun rfl (by decide +kernel)
    (of_decide_eq_true hidle)
  have hsent : (Runs.trace Session.advance (Session.answersSent (js "b"))
      (Session.start [] []) earlyGarbled).length = 0 := by decide +kernel
  rw [hhandled.sent rfl] at hsent
  cases hsent

end MaiaMeet
