import MaiaMeet.RoomStore
set_option autoImplicit false

/-! Rooms do not see each other: a run replayed without the connections that never join
a room looks the same from inside that room. -/

namespace MaiaMeet

def Server.joins (s : Server) (R : JsString) (c : ConnId) : Bool :=
  (s.participantOf c).any (fun p => p.roomId = R)

def joinTarget (cfg : Config) (conn : Connection) (now : Nat) (data : Data) : Option JsString :=
  if (conn.take cfg now).tokens < 0 ∨ conn.participant.isSome then none
  else match envelope data with
  | .error _ => none
  | .ok m => if m.type = .roomJoin then (joinRequest m.payload).map Prod.fst else none

def Server.refusedBy (cfg : Config) (s : Server) : ServerEvent → Option JsString
  | .message c now _ data => do
    let conn ← s.alive c
    let r ← joinTarget cfg conn now data
    if (s.roomOrNew r).size ≥ cfg.maxParticipants then some r else none
  | _ => none

structure Divides (keep : ConnId → Bool) (R : JsString) (s : Server) : Prop where
  inside : ∀ c p, keep c → s.participantOf c = some p → p.roomId = R
  outside : ∀ c p, ¬ keep c → s.participantOf c = some p → p.roomId ≠ R

/-- `s'` is what is left of `s` when only the kept connections ever existed. -/
structure Replays (keep : ConnId → Bool) (R : JsString) (s s' : Server) : Prop where
  kept : ∀ c, keep c → s'.connections c = s.connections c
  dropped : ∀ c, ¬ keep c → s'.connections c = none
  room : s'.rooms.get R = s.rooms.get R
  others : ∀ r, r ≠ R → s'.rooms.get r = none
  uuids : s'.uuids ⊆ s.uuids

section
variable {cfg : Config} {keep : ConnId → Bool} {R : JsString} {s s' t : Server} {c : ConnId}
  {conn : Connection}

theorem replays_init : Replays keep R Server.init Server.init where
  kept := fun _ _ => rfl
  dropped := fun _ _ => rfl
  room := rfl
  others := fun _ _ => rfl
  uuids := fun _ h => h

theorem Replays.alive (h : Replays keep R s s') (hc : keep c) : s'.alive c = s.alive c := by
  simp [Server.alive,h.kept c hc]

theorem Replays.send (h : Replays keep R s s') (hc : keep c) (body : Body)
    (requestId : Option JsString) : s'.send c body requestId = s.send c body requestId := by
  unfold Server.send Server.isOpen
  rw [h.kept c hc]

theorem Replays.broadcast (h : Replays keep R s s') {room : Room}
    (hroom : ∀ p ∈ room.values, keep p.ws) (body : Body) (except : Option JsString) :
    s'.broadcast room body except = s.broadcast room body except := by
  simp only [Server.broadcast,List.flatMap]
  congr 1
  apply List.map_congr_left
  intro p hp
  exact h.send (hroom p (List.mem_of_mem_filter hp)) body none

theorem Replays.roomOrNew (h : Replays keep R s s') : s'.roomOrNew R = s.roomOrNew R := by
  simp [Server.roomOrNew,h.room]

theorem Replays.put (h : Replays keep R s s') (hc : keep c) (conn : Connection) :
    Replays keep R (s.put c conn) (s'.put c conn) where
  kept := by
    intro d hd
    by_cases hdc : d = c
    · rw [hdc,put_connections_self,put_connections_self]
    · rw [put_connections_ne s conn hdc,put_connections_ne s' conn hdc,h.kept d hd]
  dropped := by
    intro d hd
    rw [put_connections_ne s' conn (by rintro rfl; exact hd hc)]
    exact h.dropped d hd
  room := h.room
  others := h.others
  uuids := h.uuids

theorem Replays.put_dropped (h : Replays keep R s s') (hc : ¬ keep c) (conn : Connection) :
    Replays keep R (s.put c conn) s' where
  kept := by
    intro d hd
    rw [put_connections_ne s conn (by rintro rfl; exact hc hd)]
    exact h.kept d hd
  dropped := h.dropped
  room := h.room
  others := h.others
  uuids := h.uuids

theorem Replays.rooms_dropped (h : Replays keep R s s') {rooms : OrderedMap JsString Room}
    (hroom : s.rooms.get R = rooms.get R) : Replays keep R { s with rooms := rooms } s' where
  kept := h.kept
  dropped := h.dropped
  room := h.room.trans hroom
  others := h.others
  uuids := h.uuids

theorem Replays.rooms (h : Replays keep R s s') {rooms rooms' : OrderedMap JsString Room}
    (hroom : rooms'.get R = rooms.get R) (hothers : ∀ r, r ≠ R → rooms'.get r = none) :
    Replays keep R { s with rooms := rooms } { s' with rooms := rooms' } where
  kept := h.kept
  dropped := h.dropped
  room := hroom
  others := hothers
  uuids := h.uuids

theorem Replays.issue (h : Replays keep R s s') (uuid : JsString) :
    Replays keep R { s with uuids := uuid :: s.uuids }
      { s' with uuids := uuid :: s'.uuids } where
  kept := h.kept
  dropped := h.dropped
  room := h.room
  others := h.others
  uuids := List.cons_subset_cons uuid h.uuids

theorem Replays.issue_dropped (h : Replays keep R s s') (uuid : JsString) :
    Replays keep R { s with uuids := uuid :: s.uuids } s' where
  kept := h.kept
  dropped := h.dropped
  room := h.room
  others := h.others
  uuids := fun _ hu => List.mem_cons_of_mem _ (h.uuids hu)

theorem Divides.member (hd : Divides keep R s) (hs : RoomStore cfg s) {r : JsString}
    {room : Room} (hr : s.rooms.get r = some room) {p : Participant} (hp : p ∈ room.values) :
    keep p.ws ↔ r = R := by
  obtain ⟨i,hi⟩ := (OrderedMap.mem_values_iff room p).mp hp
  obtain ⟨_,hrid,k,hk,hkp⟩ := hs.present r room i p hr hi
  have hof : s.participantOf p.ws = some p := (participantOf_alive hk).trans hkp
  constructor
  · intro hkeep
    rw [← hrid]
    exact hd.inside p.ws p hkeep hof
  · intro hrR
    by_contra hkeep
    exact hd.outside p.ws p hkeep hof (hrid.trans hrR)

theorem Divides.roomOrNew (hd : Divides keep R s) (hs : RoomStore cfg s) {r : JsString}
    {p : Participant} (hp : p ∈ (s.roomOrNew r).values) : keep p.ws ↔ r = R := by
  unfold Server.roomOrNew at hp
  cases hr : s.rooms.get r with
  | none => simp [hr] at hp
  | some room =>
    rw [hr,Option.getD_some] at hp
    exact hd.member hs hr hp

theorem mem_values_set {m : Room} {k : JsString} {p q : Participant}
    (h : q ∈ (m.set k p).values) : q = p ∨ q ∈ m.values := by
  obtain ⟨i,hi⟩ := (OrderedMap.mem_values_iff _ q).mp h
  rw [OrderedMap.get_set] at hi
  split at hi
  · cases hi; exact Or.inl rfl
  · exact Or.inr ((OrderedMap.mem_values_iff m q).mpr ⟨i,hi⟩)

theorem mem_values_delete {m : Room} {k : JsString} {q : Participant}
    (h : q ∈ (m.delete k).values) : q ∈ m.values := by
  obtain ⟨i,hi⟩ := (OrderedMap.mem_values_iff _ q).mp h
  rw [OrderedMap.get_delete] at hi
  split at hi
  · cases hi
  · exact (OrderedMap.mem_values_iff m q).mpr ⟨i,hi⟩

/-! ### A kept event is handled alike on both sides -/

theorem replays_join (h : Replays keep R s s') (hs : RoomStore cfg s) (hd : Divides keep R s)
    (hc : keep c) (uuid : JsString) (payload : Json) (requestId : Option JsString)
    (hR : conn.participant = none → ∀ r ∈ (joinRequest payload).map Prod.fst, r = R) :
    (s'.join cfg c conn uuid payload requestId).2 = (s.join cfg c conn uuid payload requestId).2 ∧
      Replays keep R (s.join cfg c conn uuid payload requestId).1
        (s'.join cfg c conn uuid payload requestId).1 := by
  unfold Server.join
  split
  · exact ⟨h.send hc _ _,h⟩
  · rename_i hp
    cases hj : joinRequest payload with
    | none => exact ⟨h.send hc _ _,h⟩
    | some request =>
      obtain ⟨roomId,displayName⟩ := request
      have hroom : roomId = R := hR (by simpa using hp) roomId (by simp [hj])
      subst roomId
      simp only [h.roomOrNew]
      split
      · exact ⟨h.send hc _ _,h⟩
      · have henter : Replays keep R (s.enter c conn ⟨uuid,displayName,R,c⟩)
            (s'.enter c conn ⟨uuid,displayName,R,c⟩) := by
          refine (h.put hc _).rooms ?_ ?_
          · simp [h.roomOrNew]
          · intro r hr
            rw [OrderedMap.get_set_ne _ _ hr]
            exact h.others r hr
        have hmembers : ∀ p ∈ ((s.enter c conn ⟨uuid,displayName,R,c⟩).roomOrNew R).values,
            keep p.ws := by
          intro p hp
          have hself : (s.enter c conn ⟨uuid,displayName,R,c⟩).rooms.get R =
              some ((s.roomOrNew R).set uuid ⟨uuid,displayName,R,c⟩) :=
            enter_rooms_self s c conn ⟨uuid,displayName,R,c⟩
          rw [Server.roomOrNew,hself,Option.getD_some] at hp
          rcases mem_values_set hp with rfl | hp
          · exact hc
          · exact (hd.roomOrNew hs hp).mpr rfl
        refine ⟨?_,henter⟩
        simp only [henter.roomOrNew]
        rw [henter.send hc,henter.broadcast hmembers]

theorem replays_act (h : Replays keep R s s') (hs : RoomStore cfg s) (hd : Divides keep R s)
    (hc : keep c) {p : Participant} (hp : p.roomId = R) (now : Nat) (m : Envelope) :
    s'.act c p now m = s.act c p now m := by
  have hfail : ∀ code message, s'.fail c code message m.requestId =
      s.fail c code message m.requestId := fun code message => h.send hc _ _
  unfold Server.act
  simp only [hp,h.room,hfail]
  split
  · cases hr : s.rooms.get R with
    | none => rfl
    | some room =>
      simp only [Server.relay,hfail]
      split
      · rfl
      · rename_i target ht
        have htarget : target ∈ room.values := by
          obtain ⟨i,_,hi⟩ := Option.bind_eq_some_iff.mp (Option.filter_eq_some_iff.mp ht).1
          exact (OrderedMap.mem_values_iff room target).mpr ⟨i,hi⟩
        split
        · rfl
        · exact h.send ((hd.member hs hr htarget).mpr rfl) _ _
  · cases hr : s.rooms.get R with
    | none => rfl
    | some room =>
      split
      · rfl
      · exact h.broadcast (fun q hq => (hd.member hs hr hq).mpr rfl) _ _
  · rfl

theorem replays_dispatch (h : Replays keep R s s') (hs : RoomStore cfg s)
    (hd : Divides keep R s) (hc : keep c) (hof : s.participantOf c = conn.participant)
    (now : Nat) (uuid : JsString) (m : Envelope)
    (hR : m.type = .roomJoin → conn.participant = none →
      ∀ r ∈ (joinRequest m.payload).map Prod.fst, r = R) :
    (s'.dispatch cfg c conn now uuid m).2 = (s.dispatch cfg c conn now uuid m).2 ∧
      Replays keep R (s.dispatch cfg c conn now uuid m).1
        (s'.dispatch cfg c conn now uuid m).1 := by
  unfold Server.dispatch
  split
  · exact ⟨h.send hc _ _,h⟩
  · exact ⟨h.send hc _ _,h⟩
  · rename_i hk
    exact replays_join h hs hd hc uuid m.payload m.requestId (hR hk)
  · split
    · exact ⟨h.send hc _ _,h⟩
    · rename_i p hp
      exact ⟨replays_act h hs hd hc (hd.inside c p hc (hof.trans hp)) now m,h⟩

theorem Divides.charge (hd : Divides keep R s) (hc : s.alive c = some conn) (now : Nat)
    (uuid : JsString) : Divides keep R (s.charge cfg c conn now uuid) where
  inside := fun d p hk hp => hd.inside d p hk (charge_participantOf hc now uuid d ▸ hp)
  outside := fun d p hk hp => hd.outside d p hk (charge_participantOf hc now uuid d ▸ hp)

theorem replays_onMessage (h : Replays keep R s s') (hs : RoomStore cfg s)
    (hd : Divides keep R s) (hk : keep c) (hc : s.alive c = some conn) (now : Nat)
    (uuid : JsString) (data : Data) (hR : ∀ r ∈ joinTarget cfg conn now data, r = R) :
    let out := { s with uuids := uuid :: s.uuids }.onMessage cfg c conn now uuid data
    let out' := { s' with uuids := uuid :: s'.uuids }.onMessage cfg c conn now uuid data
    out'.2 = out.2 ∧ Replays keep R out.1 out'.1 := by
  have hput : Replays keep R (s.charge cfg c conn now uuid) (s'.charge cfg c conn now uuid) :=
    (h.issue uuid).put hk _
  unfold Server.onMessage
  simp only
  split
  · exact ⟨hput.send hk _ _,hput⟩
  · rename_i htokens
    cases hm : envelope data with
    | error message => exact ⟨hput.send hk _ _,hput⟩
    | ok m =>
      have hof : (s.charge cfg c conn now uuid).participantOf c =
          (conn.take cfg now).participant := by
        rw [charge_participantOf hc,participantOf_alive hc,take_participant]
      refine replays_dispatch hput (hs.charge hc now uuid) (hd.charge hc now uuid) hk hof now
        uuid m ?_
      intro hjoin hnone r hr
      rw [take_participant] at hnone
      apply hR r
      simp only [joinTarget,htokens,hnone,hm,hjoin]
      simpa using hr

theorem Replays.enabled (h : Replays keep R s s') {e : ServerEvent} (hk : keep e.conn)
    (he : s.enabled e) : s'.enabled e := by
  cases e with
  | connection c now => simpa only [Server.enabled,h.kept c hk] using he
  | message c now uuid data =>
    replace hk : keep c := hk
    simp only [Server.enabled,Bool.and_eq_true,decide_eq_true_eq,h.alive hk] at he ⊢
    exact ⟨he.1,fun hu => he.2 (h.uuids hu)⟩
  | pong c | heartbeat c | closing c | close c =>
    replace hk : keep c := hk
    simpa only [Server.enabled,h.alive hk] using he

theorem joinTarget_joins {now : Nat} {uuid : JsString} {data : Data} {out : List Sent}
    {r : JsString} (hr : r ∈ joinTarget cfg conn now data)
    (hsize : (s.roomOrNew r).size < cfg.maxParticipants)
    (hout : { s with uuids := uuid :: s.uuids }.onMessage cfg c conn now uuid data = (t,out)) :
    ∃ p, t.participantOf c = some p ∧ p.roomId = r := by
  unfold joinTarget at hr
  split at hr
  · cases hr
  · rename_i hguard
    simp only [not_or,Option.not_isSome_iff_eq_none] at hguard
    obtain ⟨htokens,hnone⟩ := hguard
    split at hr
    · cases hr
    · rename_i m hm
      split at hr
      · rename_i hk
        obtain ⟨⟨roomId,displayName⟩,hj,rfl⟩ := Option.map_eq_some_iff.mp hr
        have hsize' : ¬ (Server.roomOrNew ({ s with uuids := uuid :: s.uuids }.put c
            (conn.take cfg now)) roomId).size ≥ cfg.maxParticipants := by
          have : (s.roomOrNew roomId).size < cfg.maxParticipants := hsize
          exact Nat.not_le.mpr this
        have htokens' : ¬ (conn.take cfg now).tokens < 0 := by omega
        simp only [Server.onMessage,htokens',if_false,hm,Server.dispatch,hk,Server.join,
          take_participant,hnone,Option.isSome_none,Bool.false_eq_true,hj,hsize',
          Prod.mk.injEq] at hout
        rw [← hout.1]
        refine ⟨⟨uuid,displayName,roomId,c⟩,?_,rfl⟩
        simp [Server.participantOf,enter_connections_self]
      · cases hr

/-- A kept event, not turned away by another room, does the same in the replay. -/
theorem replays_kept (h : Replays keep R s s') (hs : RoomStore cfg s) (hd : Divides keep R s)
    {e : ServerEvent} {out : List Sent} (hstep : s.step cfg e = some (t,out))
    (ht : Divides keep R t) (hk : keep e.conn) (hfull : ∀ r ∈ s.refusedBy cfg e, r = R) :
    ∃ t', s'.step cfg e = some (t',out) ∧ Replays keep R t t' := by
  have he : s.enabled e := by
    by_contra hne
    simp [Server.step,hne] at hstep
  simp only [Server.step,he,if_true] at hstep
  simp only [Server.step,h.enabled hk he,if_true]
  cases e with
  | connection c now =>
    simp only [Server.handle,Option.some.injEq,Prod.mk.injEq] at hstep
    obtain ⟨rfl,rfl⟩ := hstep
    exact ⟨_,rfl,h.put hk _⟩
  | message c now uuid data =>
    replace hk : keep c := hk
    simp only [Server.handle,Option.bind_eq_bind,Option.bind_eq_some_iff,Option.pure_def,
      Option.some.injEq] at hstep
    obtain ⟨conn,hc,hout⟩ := hstep
    have hR : ∀ r ∈ joinTarget cfg conn now data, r = R := by
      intro r hr
      by_cases hsize : (s.roomOrNew r).size ≥ cfg.maxParticipants
      · apply hfull r
        simp [Server.refusedBy,hc,Option.mem_def.mp hr,hsize]
      · obtain ⟨p,hof,rfl⟩ := joinTarget_joins hr (by omega) hout
        exact ht.inside c p hk hof
    have hmsg := replays_onMessage h hs hd hk hc now uuid data hR
    simp only [hout] at hmsg
    refine ⟨({ s' with uuids := uuid :: s'.uuids }.onMessage cfg c conn now uuid data).1,?_,
      hmsg.2⟩
    simp only [Server.handle,h.alive hk,hc,Option.bind_eq_bind,Option.bind_some,Option.pure_def,
      Option.some.injEq]
    exact Prod.ext rfl hmsg.1
  | pong c | closing c =>
    replace hk : keep c := hk
    simp only [Server.handle,Option.bind_eq_bind,Option.bind_eq_some_iff,Option.pure_def,
      Option.some.injEq,Prod.mk.injEq] at hstep
    obtain ⟨conn,hc,rfl,rfl⟩ := hstep
    exact ⟨_,by simp [Server.handle,h.alive hk,hc],h.put hk _⟩
  | heartbeat c =>
    replace hk : keep c := hk
    simp only [Server.handle,Option.bind_eq_bind,Option.bind_eq_some_iff,Option.pure_def]
      at hstep
    obtain ⟨conn,hc,hstep⟩ := hstep
    split at hstep
    · rename_i hlive
      simp only [Option.some.injEq,Prod.mk.injEq] at hstep
      obtain ⟨rfl,rfl⟩ := hstep
      exact ⟨_,by simp [Server.handle,h.alive hk,hc,hlive],h.put hk _⟩
    · rename_i hdead
      simp only [Option.some.injEq,Prod.mk.injEq] at hstep
      obtain ⟨rfl,rfl⟩ := hstep
      exact ⟨_,by simp [Server.handle,h.alive hk,hc,hdead],h.put hk _⟩
  | close c =>
    replace hk : keep c := hk
    simp only [Server.handle,Option.bind_eq_bind,Option.bind_eq_some_iff] at hstep
    obtain ⟨conn,hc,hstep⟩ := hstep
    have hput := h.put hk { conn with readyState := .closed }
    simp only [Server.handle,h.alive hk,hc,Option.bind_eq_bind,Option.bind_some]
    unfold Server.onClose at hstep ⊢
    cases hp : conn.participant with
    | none =>
      simp only [hp,Option.some.injEq,Prod.mk.injEq] at hstep
      obtain ⟨rfl,rfl⟩ := hstep
      rw [hp] at hput
      exact ⟨_,rfl,hput⟩
    | some p =>
      have hpR : p.roomId = R := hd.inside c p hk ((participantOf_alive hc).trans hp)
      simp only [hp,hpR,put_rooms,Option.bind_eq_bind,Option.bind_eq_some_iff,Option.pure_def,
        Option.some.injEq,Prod.mk.injEq] at hstep
      obtain ⟨room,hr,rfl,rfl⟩ := hstep
      rw [hp] at hput
      have hmembers : ∀ q ∈ (room.delete p.id).values, keep q.ws :=
        fun q hq => (hd.member hs hr (mem_values_delete hq)).mpr rfl
      simp only [hpR,put_rooms,h.room,hr,Option.bind_eq_bind,Option.bind_some,Option.pure_def]
      refine ⟨_,by rw [hput.broadcast hmembers],hput.rooms ?_ ?_⟩
      · simp only [get_leave_rooms]; simp
      · intro r hrR
        simp only [get_leave_rooms,hrR,if_false]
        exact h.others r hrR

theorem send_dropped (hc : ¬ keep c) (body : Body) (requestId : Option JsString) :
    (s.send c body requestId).filter (fun m => keep m.ws) = [] := by
  unfold Server.send
  split <;> simp [hc]

theorem broadcast_dropped {room : Room} (hroom : ∀ p ∈ room.values, ¬ keep p.ws) (body : Body)
    (except : Option JsString) :
    (s.broadcast room body except).filter (fun m => keep m.ws) = [] := by
  simp only [Server.broadcast,List.filter_flatMap,List.flatMap_eq_nil_iff]
  intro p hp
  exact send_dropped (hroom p (List.mem_of_mem_filter hp)) body none

/-- The event of a dropped connection leaves the replayed part alone and reaches nobody in it. -/
theorem replays_dropped (h : Replays keep R s s') (hs : RoomStore cfg s) (hd : Divides keep R s)
    {e : ServerEvent} {out : List Sent} (hstep : s.step cfg e = some (t,out))
    (ht : Divides keep R t) (hk : ¬ keep e.conn) :
    Replays keep R t s' ∧ out.filter (fun m => keep m.ws) = [] := by
  cases step_effect hstep with
  | connected c now hc => exact ⟨h.put_dropped hk _,rfl⟩
  | handled c conn now uuid data t out hc hu ho =>
    replace hk : ¬ keep c := hk
    have hcharge : Replays keep R (s.charge cfg c conn now uuid) s' :=
      (h.issue_dropped uuid).put_dropped hk _
    have hs' : RoomStore cfg (s.charge cfg c conn now uuid) := hs.charge hc now uuid
    have hd' : Divides keep R (s.charge cfg c conn now uuid) := hd.charge hc now uuid
    have hout : ∀ p, conn.participant = some p → p.roomId ≠ R :=
      fun p hp => hd.outside c p hk ((participantOf_alive hc).trans hp)
    cases ho with
    | reply body requestId hb => exact ⟨hcharge,send_dropped hk _ _⟩
    | joined m roomId displayName htk hm htype hp hj hsize =>
      have hne : roomId ≠ R :=
        ht.outside c ⟨uuid,displayName,roomId,c⟩ hk
          (by simp [Server.participantOf,enter_connections_self])
      have hmembers : ∀ p ∈ ((s.charge cfg c conn now uuid).enter c (conn.take cfg now)
          ⟨uuid,displayName,roomId,c⟩ |>.roomOrNew roomId).values, ¬ keep p.ws := by
        intro p hp
        have hself := enter_rooms_self (s.charge cfg c conn now uuid) c (conn.take cfg now)
          ⟨uuid,displayName,roomId,c⟩
        rw [Server.roomOrNew,hself,Option.getD_some] at hp
        rcases mem_values_set hp with rfl | hp
        · exact hk
        · exact fun hkeep => hne ((hd'.roomOrNew hs' hp).mp hkeep)
      refine ⟨?_,?_⟩
      · have hput := hcharge.put_dropped hk
          { conn.take cfg now with participant := some ⟨uuid,displayName,roomId,c⟩ }
        refine hput.rooms_dropped ?_
        exact (OrderedMap.get_set_ne _ _ (Ne.symm hne)).symm
      · rw [List.filter_append,send_dropped hk,broadcast_dropped hmembers]
        rfl
    | relayed m k p target room signal htk hm htype hp hr htarget hne hv =>
      rw [take_participant] at hp
      have hmem : target ∈ room.values := by
        obtain ⟨i,_,hi⟩ := Option.bind_eq_some_iff.mp htarget
        exact (OrderedMap.mem_values_iff room target).mpr ⟨i,hi⟩
      exact ⟨hcharge,send_dropped (fun hkeep => hout p hp ((hd'.member hs' hr hmem).mp hkeep)) _ _⟩
    | chatted m p room text htk hm htype hp hr hx =>
      rw [take_participant] at hp
      exact ⟨hcharge,broadcast_dropped
        (fun q hq hkeep => hout p hp ((hd'.member hs' hr hq).mp hkeep)) _ _⟩
  | kept e c conn conn' hc hp hr ho he =>
    subst c
    exact ⟨h.put_dropped hk _,rfl⟩
  | left c conn p room hc hp hr =>
    replace hk : ¬ keep c := hk
    have hne : p.roomId ≠ R := hd.outside c p hk ((participantOf_alive hc).trans hp)
    refine ⟨?_,broadcast_dropped
      (fun q hq hkeep => hne ((hd.member hs hr (mem_values_delete hq)).mp hkeep)) _ _⟩
    refine (h.put_dropped hk { conn with readyState := .closed }).rooms_dropped ?_
    simp only [get_leave_rooms,Ne.symm hne,if_false]
    rfl
  | closed c conn hc hp => exact ⟨h.put_dropped hk _,rfl⟩

/-- The whole run: the replay takes every kept event and sends what the kept
connections were sent. -/
theorem replays_exec {es : List ServerEvent} {log log' : List Sent}
    (hrun : Runs.exec (Server.advance cfg) (s,log) es = some (t,log'))
    (h : Replays keep R s s') (hs : RoomStore cfg s) (hd : Divides keep R t)
    (hfull : Runs.Along (Server.advance cfg)
      (fun w e => keep e.conn → ∀ r ∈ w.1.refusedBy cfg e, r = R) (s,log) es) :
    ∃ t', Runs.exec (Server.advance cfg) (s',log.filter (fun m => keep m.ws))
      (es.filter (fun e => keep e.conn)) = some (t',log'.filter (fun m => keep m.ws)) := by
  induction es generalizing s s' log with
  | nil =>
    cases hrun
    exact ⟨s',rfl⟩
  | cons e es ih =>
    obtain ⟨⟨u,logu⟩,hu,hrest⟩ := Runs.exec_cons_some.mp hrun
    obtain ⟨out,hstep,hlog⟩ := advance_eq_some.mp hu
    simp only at hstep hlog
    subst logu
    have hall := fun c p (hp : u.participantOf c = some p) => participantOf_exec hrest hp
    have hdu : Divides keep R u :=
      ⟨fun c p hk hp => hd.inside c p hk (hall c p hp),
        fun c p hk hp => hd.outside c p hk (hall c p hp)⟩
    have hds : Divides keep R s :=
      ⟨fun c p hk hp => hdu.inside c p hk (participantOf_step hstep hp),
        fun c p hk hp => hdu.outside c p hk (participantOf_step hstep hp)⟩
    have hsu := roomStore_step hs hstep
    by_cases hk : keep e.conn
    · obtain ⟨u',hstep',hru⟩ := replays_kept h hs hds hstep hdu hk (hfull.1 hk)
      have hout : out.filter (fun m => keep m.ws) = out := by
        rw [List.filter_eq_self]
        intro m hm
        by_contra hne
        have hopen := step_out_open hstep' hm
        simp [Server.isOpen,hru.dropped m.ws hne] at hopen
      obtain ⟨t',ht'⟩ := ih hrest hru hsu (hfull.2 _ hu)
      refine ⟨t',?_⟩
      have hcons : (e :: es).filter (fun e => keep e.conn) =
          e :: es.filter (fun e => keep e.conn) := by simp [hk]
      rw [hcons,Runs.exec_cons_some]
      refine ⟨(u',log.filter (fun m => keep m.ws) ++ out),advance_eq_some.mpr ⟨out,hstep',rfl⟩,?_⟩
      simpa only [List.filter_append,hout] using ht'
    · obtain ⟨hru,hout⟩ := replays_dropped h hs hds hstep hdu hk
      obtain ⟨t',ht'⟩ := ih hrest hru hsu (hfull.2 _ hu)
      refine ⟨t',?_⟩
      have hcons : (e :: es).filter (fun e => keep e.conn) =
          es.filter (fun e => keep e.conn) := by simp [hk]
      rw [hcons]
      simpa only [List.filter_append,hout,List.append_nil] using ht'

end

theorem divides_joins (R : JsString) (s : Server) : Divides (s.joins R) R s where
  inside := fun c p hk hp => by simpa [Server.joins,hp] using hk
  outside := fun c p hk hp => by simpa [Server.joins,hp] using hk

/-- Replaying a run without the connections that never join `R` sends every remaining
connection the same messages, provided none of those was turned away by another full room. -/
theorem room_isolation (cfg : Config) (R : JsString) (es : List ServerEvent) (s : Server)
    (log : List Sent) (hrun : Server.run cfg es = some (s,log))
    (hfull : Runs.Along (Server.advance cfg)
      (fun w e => s.joins R e.conn → ∀ r ∈ w.1.refusedBy cfg e, r = R) (Server.init,[]) es) :
    ∃ s' log', Server.run cfg (es.filter (fun e => s.joins R e.conn)) = some (s',log') ∧
      ∀ c, s.joins R c →
        log'.filter (fun m => m.ws = c) = log.filter (fun m => m.ws = c) := by
  obtain ⟨s',hs'⟩ := replays_exec hrun replays_init (roomStore_init cfg) (divides_joins R s) hfull
  refine ⟨s',_,hs',fun c hc => ?_⟩
  rw [List.filter_filter]
  apply List.filter_congr
  intro m _
  by_cases hm : m.ws = c
  · simp [hm,hc]
  · simp [hm]

def neighbourRun : List ServerEvent :=
  [.connection 0 0,.connection 1 0,
    .message 0 1 (js "a") (joinMessage (js "SSS") (js "Ann") (js "r0")),
    .message 1 2 (js "b") (joinMessage (js "RRR") (js "Bob") (js "r1")),
    .message 0 3 (js "c") (clientMessage .chatSend [(js "text",.str (js "hello"))] none),
    .message 1 4 (js "d") (clientMessage .ping [] (some (js "r2"))),.close 0]

theorem room_isolation_neighbour :
    ∃ s log s' log', Server.run (defaultConfig []) neighbourRun = some (s,log) ∧
      Server.run (defaultConfig [])
        (neighbourRun.filter (fun e => s.joins (js "RRR") e.conn)) = some (s',log') ∧
      ∀ c, s.joins (js "RRR") c →
        log'.filter (fun m => m.ws = c) = log.filter (fun m => m.ws = c) := by
  have hsome : (Server.run (defaultConfig []) neighbourRun).isSome := by decide +kernel
  obtain ⟨⟨s,log⟩,hrun⟩ := Option.isSome_iff_exists.mp hsome
  have hfree : Runs.Along (Server.advance (defaultConfig []))
      (fun w e => ∀ r ∈ w.1.refusedBy (defaultConfig []) e, r = js "RRR") (Server.init,[])
      neighbourRun := by decide +kernel
  have hfull : Runs.Along (Server.advance (defaultConfig []))
      (fun w e => s.joins (js "RRR") e.conn →
        ∀ r ∈ w.1.refusedBy (defaultConfig []) e, r = js "RRR") (Server.init,[])
      neighbourRun := by
    refine Runs.Along.mono ?_ hfree
    intro w e h _
    exact h
  obtain ⟨s',log',hs',hall⟩ :=
    room_isolation (defaultConfig []) (js "RRR") neighbourRun s log hrun hfull
  exact ⟨s,log,s',log',hrun,hs',hall⟩

def tinyConfig : Config :=
  { defaultConfig [] with maxParticipants := 1, maxParticipants_bounds := by decide }

def crowdedRun : List ServerEvent :=
  [.connection 0 0,.connection 1 0,
    .message 0 1 (js "a") (joinMessage (js "SSS") (js "Ann") (js "r0")),
    .message 1 2 (js "b") (joinMessage (js "SSS") (js "Bob") (js "r1")),
    .message 1 3 (js "c") (joinMessage (js "RRR") (js "Bob") (js "r2"))]

/-- Without its owner the room S would have let connection 1 in, and R never seen it. -/
theorem room_isolation_crowded :
    ¬ ∀ (cfg : Config) (R : JsString) (es : List ServerEvent) (s : Server) (log : List Sent),
      Server.run cfg es = some (s,log) →
      ∃ s' log', Server.run cfg (es.filter (fun e => s.joins R e.conn)) = some (s',log') ∧
        ∀ c, s.joins R c →
          log'.filter (fun m => m.ws = c) = log.filter (fun m => m.ws = c) := by
  intro h
  have hjoins : (Server.run tinyConfig crowdedRun).map (fun w =>
      (w.1.joins (js "RRR") 0,w.1.joins (js "RRR") 1)) = some (false,true) := by decide +kernel
  obtain ⟨⟨s,log⟩,hs,hj⟩ := Option.map_eq_some_iff.mp hjoins
  obtain ⟨h₀,h₁⟩ := Prod.mk.inj hj
  have hfilter : crowdedRun.filter (fun e => s.joins (js "RRR") e.conn) =
      crowdedRun.filter (fun e => e.conn = 1) := by
    apply List.filter_congr
    intro e he
    have hconn : e.conn = 0 ∨ e.conn = 1 := by
      simp only [crowdedRun,List.mem_cons,List.not_mem_nil,or_false] at he
      rcases he with rfl | rfl | rfl | rfl | rfl <;> simp [ServerEvent.conn]
    rcases hconn with hc | hc
    · simp [hc,h₀]
    · simp [hc,h₁]
  obtain ⟨s',log',hs',hall⟩ := h tinyConfig (js "RRR") crowdedRun s log hs
  have hsame := hall 1 h₁
  rw [hfilter] at hs'
  have hdiffer : (Server.run tinyConfig crowdedRun).map (fun w =>
        w.2.filter (fun m => m.ws = 1)) ≠
      (Server.run tinyConfig (crowdedRun.filter (fun e => e.conn = 1))).map (fun w =>
        w.2.filter (fun m => m.ws = 1)) := by decide +kernel
  apply hdiffer
  rw [hs,hs',Option.map_some,Option.map_some,hsame]

end MaiaMeet
