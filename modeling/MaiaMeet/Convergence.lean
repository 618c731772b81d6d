import MaiaMeet.Presence
set_option autoImplicit false

/-! Once what the server sent has been handled: what the clients show is what the server has. -/

namespace MaiaMeet

def Client.Idle (c : Client) : Prop := c.session.isSome → c.pending = none

section
variable {c : Client}

theorem foldl_addParticipant_pending (ps : List PublicParticipant) (c : Client) :
    (ps.foldl Client.addParticipant c).pending = c.pending := by
  induction ps generalizing c with
  | nil => rfl
  | cons p ps ih => exact ih (c.addParticipant p)

theorem foldl_output_pending (out : List Output) (c : Client) :
    (out.foldl Client.output c).pending = c.pending := by
  induction out generalizing c with
  | nil => rfl
  | cons o out ih =>
    rw [List.foldl_cons,ih]
    cases o with
    | remoteTrack id =>
      simp only [Client.output,Client.onRemoteTrack]
      split <;> rfl
    | send | error | replaced | replaceFailed => rfl

theorem pending_emit (c : Client) (b : Body) : (c.emit b).pending = c.pending := by
  cases b with
  | participantLeft id =>
    simp only [Client.emit,Client.removeParticipant]
    split <;> rfl
  | participantJoined | signal | roomJoined | error | pong | roomCreated | chatMessage => rfl

theorem Client.Idle.handleMessage (h : c.Idle) (stream : Stream) (m : Sent) :
    (c.handleMessage stream m).Idle := by
  unfold Client.handleMessage
  split
  · cases m.body with
    | roomJoined own roomId participants rtcConfig =>
      intro _
      exact foldl_addParticipant_pending participants _
    | participantJoined | participantLeft | signal | error | pong | roomCreated | chatMessage =>
      intro hs
      cases hs
  · intro hs
    rw [emit_session,Option.isSome_map] at hs
    rw [pending_emit]
    exact h hs

theorem handleMessage_session (h : c.Idle) (hs : c.session.isSome) (stream : Stream) (m : Sent) :
    (c.handleMessage stream m).session.isSome := by
  rw [Client.handleMessage,if_neg (by simp [h hs]),emit_session,Option.isSome_map]
  exact hs

end

section
variable {cfg : Config} {w u : Net}

theorem idle_step (h : ∀ c, (w.clients c).Idle) {e : NetEvent} (hstep : w.step cfg e = some u) :
    ∀ c, (u.clients c).Idle := by
  have hput : ∀ d client, client.Idle → ∀ c, ((w.setClient d client).clients c).Idle := by
    intro d client hclient c
    by_cases hcd : c = d
    · subst hcd
      simpa [Net.setClient] using hclient
    · simpa [Net.setClient,hcd] using h c
  cases net_effect hstep with
  | served e t out ht => exact h
  | requested d roomId displayName requestId hl hp hs =>
    refine hput d _ (fun hsome => ?_)
    change (w.clients d).session.isSome = true at hsome
    rw [hs] at hsome
    cases hsome
  | delivered d stream entry he hl => exact hput d _ ((h d).handleMessage stream entry.message)
  | acted d e s t out hs hi ht =>
    refine hput d _ (fun _ => ?_)
    rw [foldl_output_pending]
    exact h d (by simp [hs])
  | left d => exact hput d _ (fun hsome => by cases hsome)

theorem idle_run {es : List NetEvent} (h : Runs.exec (Net.step cfg) Net.init es = some w) :
    ∀ c, (w.clients c).Idle :=
  Runs.exec_invariant (I := fun w : Net => ∀ c, (w.clients c).Idle)
    (fun _ _ _ hw hu => idle_step hw hu) (fun _ hs => by cases hs) h

def Net.outstanding (w : Net) (c : ConnId) : Nat := (w.log c).length - w.handled c

structure Net.Delivered (cs : List ConnId) (w u : Net) : Prop where
  server : u.server = w.server
  log : u.log = w.log
  others : ∀ d, d ∉ cs → u.clients d = w.clients d ∧ u.handled d = w.handled d
  sessions : ∀ d, (w.clients d).session.isSome → (u.clients d).session.isSome

theorem Net.Delivered.refl (cs : List ConnId) (w : Net) : Net.Delivered cs w w :=
  ⟨rfl,rfl,fun _ _ => ⟨rfl,rfl⟩,fun _ h => h⟩

theorem Net.Delivered.trans {cs ds : List ConnId} {v : Net} (h : Net.Delivered cs w u)
    (h' : Net.Delivered ds u v) : Net.Delivered (cs ++ ds) w v where
  server := h'.server.trans h.server
  log := h'.log.trans h.log
  others := by
    intro d hd
    rw [List.mem_append,not_or] at hd
    obtain ⟨hc,hk⟩ := h.others d hd.1
    obtain ⟨hc',hk'⟩ := h'.others d hd.2
    exact ⟨hc'.trans hc,hk'.trans hk⟩
  sessions := fun d hs => h'.sessions d (h.sessions d hs)

def Net.next (w : Net) (c : ConnId) (m : Sent) : Net :=
  { w.setClient c ((w.clients c).handleMessage [] m) with
    handled := Function.update w.handled c (w.handled c + 1) }

theorem deliver_next (h : Presence cfg w) (hidle : ∀ c, (w.clients c).Idle) {c : ConnId}
    (hs : (w.clients c).session.isSome) (hn : 0 < w.outstanding c) :
    ∃ u, w.step cfg (.deliver c []) = some u ∧ Net.Delivered [c] w u ∧
      u.outstanding c + 1 = w.outstanding c := by
  have hlt : w.handled c < (w.log c).length := by
    unfold Net.outstanding at hn
    omega
  have hl : (w.clients c).listening = true := by
    cases hl : (w.clients c).listening with
    | false =>
      rw [(h.follows c).gone hl] at hs
      cases hs
    | true => rfl
  refine ⟨w.next c (w.log c)[w.handled c].message,?_,⟨rfl,rfl,fun d hd => ?_,fun d hd => ?_⟩,?_⟩
  · simp [Net.step,List.getElem?_eq_getElem hlt,hl,Net.next]
  · have hdc : d ≠ c := by simpa using hd
    simp [Net.next,Net.setClient,hdc]
  · by_cases hdc : d = c
    · subst hdc
      simpa [Net.next,Net.setClient] using handleMessage_session (hidle d) hd [] _
    · simpa [Net.next,Net.setClient,hdc] using hd
  · simp only [Net.outstanding,Net.next,Net.setClient,Function.update_self]
    omega

theorem deliver_all (h : Presence cfg w) (hidle : ∀ c, (w.clients c).Idle) {c : ConnId}
    (hs : (w.clients c).session.isSome) :
    ∃ u, Runs.exec (Net.step cfg) w (List.replicate (w.outstanding c) (.deliver c [])) = some u ∧
      Net.Delivered [c] w u ∧ u.outstanding c = 0 ∧ Presence cfg u ∧
      ∀ d, (u.clients d).Idle := by
  generalize hk : w.outstanding c = k
  induction k generalizing w with
  | zero => exact ⟨w,rfl,.refl _ _,hk,h,hidle⟩
  | succ k ih =>
    obtain ⟨v,hv,hdelivered,hcount⟩ := deliver_next h hidle hs (by omega)
    obtain ⟨u,hu,hrest,hdone,hpresence,hidle'⟩ := ih (presence_step h hv) (idle_step hidle hv)
      (hdelivered.sessions c hs) (by omega)
    refine ⟨u,Runs.exec_cons_some.mpr ⟨v,hv,hu⟩,?_,hdone,hpresence,hidle'⟩
    refine ⟨hrest.server.trans hdelivered.server,hrest.log.trans hdelivered.log,?_,?_⟩
    · exact fun d hd => ⟨(hrest.others d hd).1.trans (hdelivered.others d hd).1,
        (hrest.others d hd).2.trans (hdelivered.others d hd).2⟩
    · exact fun d hd => hrest.sessions d (hdelivered.sessions d hd)

theorem deliver_each (h : Presence cfg w) (hidle : ∀ c, (w.clients c).Idle) {cs : List ConnId}
    (hs : ∀ c ∈ cs, (w.clients c).session.isSome) :
    ∃ ds u, (∀ e ∈ ds, ∃ c ∈ cs, e = .deliver c []) ∧
      Runs.exec (Net.step cfg) w ds = some u ∧ Net.Delivered cs w u ∧
      (∀ c ∈ cs, u.outstanding c = 0) ∧ Presence cfg u := by
  induction cs generalizing w with
  | nil => exact ⟨[],w,by simp,rfl,.refl _ _,by simp,h⟩
  | cons c cs ih =>
    obtain ⟨v,hv,hfirst,hzero,hpresence,hidle'⟩ := deliver_all h hidle (hs c List.mem_cons_self)
    obtain ⟨ds,u,hds,hu,hrest,hdone,hpresence'⟩ := ih hpresence hidle'
      (fun d hd => hfirst.sessions d (hs d (List.mem_cons_of_mem c hd)))
    refine ⟨List.replicate (w.outstanding c) (.deliver c []) ++ ds,u,?_,
      Runs.exec_append_some.mpr ⟨v,hv,hu⟩,hfirst.trans hrest,?_,hpresence'⟩
    · intro e he
      rcases List.mem_append.mp he with he | he
      · exact ⟨c,List.mem_cons_self,List.eq_of_mem_replicate he⟩
      · obtain ⟨d,hd,rfl⟩ := hds e he
        exact ⟨d,List.mem_cons_of_mem c hd,rfl⟩
    · intro d hd
      by_cases hin : d ∈ cs
      · exact hdone d hin
      · obtain rfl := (List.mem_cons.mp hd).resolve_right hin
        rw [Net.outstanding,hrest.log,(hrest.others d hin).2]
        exact hzero

/-- A client that has handled everything is where the server is. -/
theorem caught_up (h : Presence cfg w) {c : ConnId} {s : Session}
    (hs : (w.clients c).session = some s) (ho : w.server.isOpen c) (hdone : w.outstanding c = 0) :
    ∃ p room, w.server.participantOf c = some p ∧ w.server.rooms.get p.roomId = some room ∧
      (w.clients c).ShowsRoom p room ∧
      Confined (fun id => id ∈ room.values.map Participant.id ∧ id ≠ p.id) s := by
  have hall : (w.log c).take (w.handled c) = w.log c := by
    have := h.within c
    unfold Net.outstanding at hdone
    exact List.take_of_length_le (by omega)
  have hc := h.follows c
  rw [hall,h.current c (.inl ho)] at hc
  exact hc.shows_room h.store ho hs

/-- From every state the network can be in, delivering what has been sent is possible and brings
each client whose socket is open to the room as the server has it: the members in the order they
joined, and a tile for each but itself. -/
theorem presence_converges (cfg : Config) {es : List NetEvent} {w : Net}
    (hrun : Runs.exec (Net.step cfg) Net.init es = some w) (cs : List ConnId)
    (hcs : ∀ c ∈ cs, (w.clients c).session.isSome ∧ w.server.isOpen c) :
    ∃ ds u, (∀ e ∈ ds, ∃ c ∈ cs, e = .deliver c []) ∧
      Runs.exec (Net.step cfg) w ds = some u ∧ u.server = w.server ∧
      ∀ c ∈ cs, ∃ p room, w.server.participantOf c = some p ∧
        w.server.rooms.get p.roomId = some room ∧ (u.clients c).ShowsRoom p room := by
  obtain ⟨ds,u,hds,hu,hdelivered,hdone,hpresence⟩ := deliver_each (presence_run hrun)
    (idle_run hrun) (fun c hc => (hcs c hc).1)
  refine ⟨ds,u,hds,hu,hdelivered.server,fun c hc => ?_⟩
  obtain ⟨s,hs⟩ := Option.isSome_iff_exists.mp (hdelivered.sessions c (hcs c hc).1)
  have ho : u.server.isOpen c := by
    rw [hdelivered.server]
    exact (hcs c hc).2
  obtain ⟨p,room,hp,hr,hshow,_⟩ := caught_up hpresence hs ho (hdone c hc)
  rw [hdelivered.server] at hp hr
  exact ⟨p,room,hp,hr,hshow⟩

/-- The first client has not heard of the second yet. -/
theorem presence_converges_couple : ∃ w ds u,
    Runs.exec (Net.step (defaultConfig [])) Net.init coupleJoins.dropLast = some w ∧
      Runs.exec (Net.step (defaultConfig [])) w ds = some u ∧ u.server = w.server ∧
      ∀ c ∈ [0,1], ∃ p room, w.server.participantOf c = some p ∧
        w.server.rooms.get p.roomId = some room ∧ (u.clients c).ShowsRoom p room := by
  have hrun : ((Runs.exec (Net.step (defaultConfig [])) Net.init coupleJoins.dropLast).filter
      (fun w => ∀ c ∈ [0,1], (w.clients c).session.isSome ∧ w.server.isOpen c)).isSome := by
    decide +kernel
  obtain ⟨w,hw⟩ := Option.isSome_iff_exists.mp hrun
  obtain ⟨hw,hcs⟩ := Option.filter_eq_some_iff.mp hw
  obtain ⟨ds,u,_,hu,hserver,hshow⟩ :=
    presence_converges (defaultConfig []) hw [0,1] (of_decide_eq_true hcs)
  exact ⟨w,ds,u,hw,hu,hserver,hshow⟩

/-- The peers of a session are shown. Once the client has handled everything, each peer is a
member of its room on another connection that has not closed. -/
theorem peers_are_members (cfg : Config) {es : List NetEvent} {w : Net}
    (hrun : Runs.exec (Net.step cfg) Net.init es = some w) {c : ConnId} {s : Session}
    (hs : (w.clients c).session = some s) {id : JsString} (hpeer : s.peers.has id) :
    .peer id ∈ (w.clients c).tiles ∧
      (w.server.isOpen c → w.handled c = (w.log c).length →
        ∃ p room q, w.server.participantOf c = some p ∧
          w.server.rooms.get p.roomId = some room ∧ room.get id = some q ∧
          q.ws ≠ c ∧ w.server.participantOf q.ws = some q ∧ (w.server.alive q.ws).isSome) := by
  have h := presence_run hrun
  have hc := h.follows c
  constructor
  · cases hv : view ((w.log c).take (w.handled c)) with
    | none =>
      rw [hv] at hc
      cases hl : (w.clients c).listening with
      | false =>
        rw [hc.gone hl] at hs
        cases hs
      | true =>
        rw [(hc.outside rfl hl).1] at hs
        cases hs
    | some v =>
      obtain ⟨own,l⟩ := v
      obtain ⟨hshow,hconf⟩ := hc.inside own l s hv hs
      exact (hshow.mem_tiles id).mpr (hconf.peers id hpeer)
  · intro ho hall
    obtain ⟨p,room,hp,hr,_,hconf⟩ := caught_up h hs ho (by rw [Net.outstanding,hall,Nat.sub_self])
    obtain ⟨hmem,hne⟩ := hconf.peers id hpeer
    obtain ⟨q,hq,hid⟩ := List.mem_map.mp hmem
    obtain ⟨i,hi⟩ := (room.mem_values_iff q).mp hq
    obtain ⟨hqi,hqr,conn,ha,hjoined⟩ := h.store.present p.roomId room i q hr hi
    have hget : room.get id = some q := by rw [← hid,hqi]; exact hi
    refine ⟨p,room,q,hp,hr,hget,?_,(participantOf_alive ha).trans hjoined,by simp [ha]⟩
    rintro rfl
    rw [participantOf_alive ha,hjoined] at hp
    cases hp
    exact hne hid.symm

end

def offeringCouple : List NetEvent := coupleJoins ++ [.session 1 (.next (js "a"))]

theorem peers_are_members_couple : ∃ w,
    Runs.exec (Net.step (defaultConfig [])) Net.init offeringCouple = some w ∧
      .peer (js "a") ∈ (w.clients 1).tiles ∧
      ∃ p room q, w.server.participantOf 1 = some p ∧ w.server.rooms.get p.roomId = some room ∧
        room.get (js "a") = some q ∧ q.ws ≠ 1 := by
  have hrun : ((Runs.exec (Net.step (defaultConfig [])) Net.init offeringCouple).bind (fun w =>
      (w.clients 1).session.filter (fun s => s.peers.has (js "a") ∧ w.server.isOpen 1 ∧
        w.handled 1 = (w.log 1).length))).isSome := by decide +kernel
  obtain ⟨s,hs⟩ := Option.isSome_iff_exists.mp hrun
  obtain ⟨w,hw,hs⟩ := Option.bind_eq_some_iff.mp hs
  obtain ⟨hs,hrest⟩ := Option.filter_eq_some_iff.mp hs
  obtain ⟨hpeer,hopen,hall⟩ := of_decide_eq_true hrest
  obtain ⟨htile,hmember⟩ := peers_are_members (defaultConfig []) hw hs hpeer
  obtain ⟨p,room,q,hp,hr,hq,hne,_⟩ := hmember hopen hall
  exact ⟨w,hw,htile,p,room,q,hp,hr,hq,hne⟩

end MaiaMeet
