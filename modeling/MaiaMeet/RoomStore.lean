import MaiaMeet.Wire
set_option autoImplicit false

namespace MaiaMeet

theorem alive_put_self (s : Server) (c : ConnId) {conn : Connection}
    (h : conn.readyState ≠ .closed) : (s.put c conn).alive c = some conn := by
  simp [alive_eq_some_iff,h]

theorem alive_put_closed (s : Server) (c : ConnId) {conn : Connection}
    (h : conn.readyState = .closed) : (s.put c conn).alive c = none := by
  simp [Server.alive,Option.filter,h]

theorem alive_put_ne (s : Server) {c d : ConnId} (conn : Connection) (h : d ≠ c) :
    (s.put c conn).alive d = s.alive d := by
  simp [Server.alive,put_connections_ne s conn h]

theorem alive_congr {s t : Server} (h : s.connections = t.connections) (c : ConnId) :
    s.alive c = t.alive c := by simp [Server.alive,h]

theorem enter_rooms_self (s : Server) (c : ConnId) (conn : Connection) (p : Participant) :
    (s.enter c conn p).rooms.get p.roomId = some ((s.roomOrNew p.roomId).set p.id p) := by
  simp [Server.enter]

theorem enter_rooms_ne (s : Server) (c : ConnId) (conn : Connection) (p : Participant)
    {r : JsString} (h : r ≠ p.roomId) :
    (s.enter c conn p).rooms.get r = s.rooms.get r := by
  simp [Server.enter,OrderedMap.get_set_ne _ _ h]

theorem enter_alive (s : Server) (c : ConnId) (conn : Connection) (p : Participant)
    (d : ConnId) :
    (s.enter c conn p).alive d = (s.put c { conn with participant := some p }).alive d := rfl

theorem enter_connections_self (s : Server) (c : ConnId) (conn : Connection)
    (p : Participant) :
    (s.enter c conn p).connections c = some { conn with participant := some p } :=
  put_connections_self s c _

theorem enter_alive_self {s : Server} {c : ConnId} {conn : Connection} (p : Participant)
    (hc : s.alive c = some conn) :
    (s.enter c conn p).alive c = some { conn with participant := some p } :=
  alive_put_self s c ((alive_eq_some_iff s c conn).mp hc).2

def Server.seats (s : Server) : List (JsString × JsString × Participant) :=
  s.rooms.entries.flatMap (fun r => r.2.entries.map (fun e => (r.1,e.1,e.2)))

theorem mem_seats_iff (s : Server) (r i : JsString) (p : Participant) :
    (r,i,p) ∈ s.seats ↔ ∃ room, s.rooms.get r = some room ∧ room.get i = some p := by
  simp only [Server.seats,List.mem_flatMap,List.mem_map,Prod.exists,Prod.mk.injEq,
    OrderedMap.get_eq_some_iff]
  constructor
  · rintro ⟨_,room,hr,_,_,hi,rfl,rfl,rfl⟩; exact ⟨room,hr,hi⟩
  · rintro ⟨room,hr,hi⟩; exact ⟨r,room,hr,i,p,hi,rfl,rfl,rfl⟩

theorem seats_nodup (s : Server) : s.seats.Nodup := by
  refine List.nodup_flatMap.mpr ⟨?_,?_⟩
  · intro r _
    refine List.Nodup.map ?_ (List.Nodup.of_map Prod.fst r.2.nodup)
    intro e f hef
    simp only [Prod.mk.injEq,true_and] at hef
    exact Prod.ext hef.1 hef.2
  · refine (List.pairwise_map.mp s.rooms.nodup).imp ?_
    intro r q hne x hx hy
    obtain ⟨e,_,rfl⟩ := List.mem_map.mp hx
    obtain ⟨f,_,hf⟩ := List.mem_map.mp hy
    exact hne (Prod.mk.inj hf).1.symm

/-- The room-store invariant, read both ways: a stored participant belongs to a live
connection, and a live joined connection is stored. -/
structure RoomStore (cfg : Config) (s : Server) : Prop where
  bounded : ∀ r room, s.rooms.get r = some room →
    0 < room.size ∧ room.size ≤ cfg.maxParticipants
  present : ∀ r room i p, s.rooms.get r = some room → room.get i = some p →
    p.id = i ∧ p.roomId = r ∧ ∃ conn, s.alive p.ws = some conn ∧ conn.participant = some p
  joined : ∀ c conn p, s.alive c = some conn → conn.participant = some p →
    p.ws = c ∧ ∃ room, s.rooms.get p.roomId = some room ∧ room.get p.id = some p
  issued : ∀ c conn p, s.connections c = some conn → conn.participant = some p →
    p.id ∈ s.uuids

theorem roomStore_init (cfg : Config) : RoomStore cfg Server.init where
  bounded := by simp [Server.init]
  present := by simp [Server.init]
  joined := by simp [Server.init,Server.alive]
  issued := by simp [Server.init]

section
variable {cfg : Config} {s : Server} {c : ConnId} {conn conn' : Connection}

theorem RoomStore.issue (h : RoomStore cfg s) (uuid : JsString) :
    RoomStore cfg { s with uuids := uuid :: s.uuids } where
  bounded := h.bounded
  present := h.present
  joined := h.joined
  issued := fun d conn p hd hp => List.mem_cons_of_mem _ (h.issued d conn p hd hp)

/-- Rewriting one connection without touching who it is keeps the invariant. -/
theorem RoomStore.put (h : RoomStore cfg s) (hc : s.alive c = some conn)
    (hp : conn'.participant = conn.participant) (hr : conn'.readyState ≠ .closed) :
    RoomStore cfg (s.put c conn') where
  bounded := h.bounded
  present := by
    intro r room i p hroom hi
    obtain ⟨hid,hrid,k,hk,hkp⟩ := h.present r room i p hroom hi
    refine ⟨hid,hrid,?_⟩
    by_cases hw : p.ws = c
    · rw [hw,hc,Option.some.injEq] at hk
      subst k
      rw [hw]
      exact ⟨conn',alive_put_self s c hr,hp.trans hkp⟩
    · rw [alive_put_ne s conn' hw]
      exact ⟨k,hk,hkp⟩
  joined := by
    intro d k p hd hkp
    by_cases hdc : d = c
    · subst d
      rw [alive_put_self s c hr,Option.some.injEq] at hd
      subst k
      exact h.joined c conn p hc (hp ▸ hkp)
    · rw [alive_put_ne s conn' hdc] at hd
      exact h.joined d k p hd hkp
  issued := by
    intro d k p hd hkp
    by_cases hdc : d = c
    · subst d
      rw [put_connections_self,Option.some.injEq] at hd
      subst k
      exact h.issued c conn p ((alive_eq_some_iff s c conn).mp hc).1 (hp ▸ hkp)
    · rw [put_connections_ne s conn' hdc] at hd
      exact h.issued d k p hd hkp

theorem RoomStore.put_unjoined (h : RoomStore cfg s)
    (hc : ∀ k, s.alive c = some k → k.participant = none) (hp : conn'.participant = none) :
    RoomStore cfg (s.put c conn') where
  bounded := h.bounded
  present := by
    intro r room i p hroom hi
    obtain ⟨hid,hrid,k,hk,hkp⟩ := h.present r room i p hroom hi
    have hw : p.ws ≠ c := by
      intro hw
      rw [hw] at hk
      rw [hc k hk] at hkp
      cases hkp
    exact ⟨hid,hrid,k,by rw [alive_put_ne s conn' hw]; exact hk,hkp⟩
  joined := by
    intro d k p hd hkp
    by_cases hdc : d = c
    · subst d
      rw [alive_eq_some_iff,put_connections_self,Option.some.injEq] at hd
      rw [← hd.1,hp] at hkp
      cases hkp
    · rw [alive_put_ne s conn' hdc] at hd
      exact h.joined d k p hd hkp
  issued := by
    intro d k p hd hkp
    by_cases hdc : d = c
    · subst d
      rw [put_connections_self,Option.some.injEq] at hd
      rw [← hd,hp] at hkp
      cases hkp
    · rw [put_connections_ne s conn' hdc] at hd
      exact h.issued d k p hd hkp

theorem RoomStore.fresh_key (h : RoomStore cfg s) {uuid : JsString} (hu : uuid ∉ s.uuids)
    (r : JsString) : (s.roomOrNew r).get uuid = none := by
  unfold Server.roomOrNew
  cases hr : s.rooms.get r with
  | none => rfl
  | some room =>
    rw [Option.getD_some]
    by_contra hne
    obtain ⟨q,hq⟩ := Option.ne_none_iff_exists'.mp hne
    obtain ⟨hid,_,k,hk,hkp⟩ := h.present r room uuid q hr hq
    exact hu (hid ▸ h.issued _ k q ((alive_eq_some_iff s _ k).mp hk).1 hkp)

theorem RoomStore.enter (h : RoomStore cfg s) {p : Participant}
    (hc : s.alive c = some conn) (hp : conn.participant = none) (hw : p.ws = c)
    (hu : p.id ∈ s.uuids) (hkey : (s.roomOrNew p.roomId).get p.id = none)
    (hsize : (s.roomOrNew p.roomId).size < cfg.maxParticipants) :
    RoomStore cfg (s.enter c conn p) where
  bounded := by
    intro r room hr
    by_cases hrp : r = p.roomId
    · subst r
      rw [enter_rooms_self,Option.some.injEq] at hr
      subst room
      rw [OrderedMap.size_set_new p hkey]
      omega
    · rw [enter_rooms_ne s c conn p hrp] at hr
      exact h.bounded r room hr
  present := by
    have hself := enter_alive_self p hc
    have hold : ∀ r room i q, s.rooms.get r = some room → room.get i = some q →
        q.id = i ∧ q.roomId = r ∧
          ∃ k, (s.enter c conn p).alive q.ws = some k ∧ k.participant = some q := by
      intro r room i q hr hi
      obtain ⟨hid,hrid,k,hk,hkp⟩ := h.present r room i q hr hi
      have hne : q.ws ≠ c := by
        intro he
        rw [he,hc,Option.some.injEq] at hk
        rw [← hk,hp] at hkp
        cases hkp
      exact ⟨hid,hrid,k,by rw [enter_alive,alive_put_ne s _ hne]; exact hk,hkp⟩
    intro r room i q hr hi
    by_cases hrp : r = p.roomId
    · subst r
      rw [enter_rooms_self,Option.some.injEq] at hr
      subst room
      rw [OrderedMap.get_set] at hi
      split at hi
      · rename_i hip
        cases hi
        rw [hw]
        exact ⟨hip.symm,rfl,_,hself,rfl⟩
      · unfold Server.roomOrNew at hi
        cases hr : s.rooms.get p.roomId with
        | none => simp [hr] at hi
        | some old =>
          rw [hr,Option.getD_some] at hi
          exact hold _ old i q hr hi
    · rw [enter_rooms_ne s c conn p hrp] at hr
      exact hold r room i q hr hi
  joined := by
    intro d k q hd hkq
    by_cases hdc : d = c
    · rw [hdc,enter_alive_self p hc,Option.some.injEq] at hd
      subst k
      cases hkq
      exact ⟨hw.trans hdc.symm,_,enter_rooms_self s c conn p,by simp⟩
    · rw [enter_alive,alive_put_ne s _ hdc] at hd
      obtain ⟨hqd,room,hr,hq⟩ := h.joined d k q hd hkq
      refine ⟨hqd,?_⟩
      by_cases hrp : q.roomId = p.roomId
      · have hold : s.roomOrNew p.roomId = room := by
          unfold Server.roomOrNew
          rw [← hrp,hr,Option.getD_some]
        have hne : q.id ≠ p.id := by
          intro he
          rw [hold,← he,hq] at hkey
          cases hkey
        rw [hrp,enter_rooms_self,hold]
        exact ⟨_,rfl,by rw [OrderedMap.get_set_ne _ _ hne]; exact hq⟩
      · rw [enter_rooms_ne s c conn p hrp]
        exact ⟨room,hr,hq⟩
  issued := by
    intro d k q hd hkq
    by_cases hdc : d = c
    · rw [hdc,enter_connections_self,Option.some.injEq] at hd
      subst k
      cases hkq
      exact hu
    · exact h.issued d k q (by rw [← hd]; exact (put_connections_ne s _ hdc).symm) hkq

theorem get_leave_rooms (rooms : OrderedMap JsString Room) (room : Room) (r q : JsString) :
    (if room.size = 0 then (rooms.set r room).delete r else rooms.set r room).get q =
      if q = r then (if room.size = 0 then none else some room) else rooms.get q := by
  by_cases hq : q = r <;> by_cases hz : room.size = 0 <;>
    simp [OrderedMap.get_set,OrderedMap.get_delete,hq,hz]

theorem RoomStore.leave (h : RoomStore cfg s) {p : Participant} {room : Room}
    (hc : s.alive c = some conn) (hp : conn.participant = some p)
    (hr : s.rooms.get p.roomId = some room) (hx : conn'.readyState = .closed)
    (hp' : conn'.participant = some p) :
    RoomStore cfg { s.put c conn' with
      rooms := if (room.delete p.id).size = 0
        then (s.rooms.set p.roomId (room.delete p.id)).delete p.roomId
        else s.rooms.set p.roomId (room.delete p.id) } where
  bounded := by
    intro r rm hget
    simp only [get_leave_rooms] at hget
    by_cases hrp : r = p.roomId
    · have hle := room.size_delete_le p.id
      have hb := h.bounded p.roomId room hr
      by_cases hz : (room.delete p.id).size = 0
      · simp [hrp,hz] at hget
      · simp only [hrp,hz,if_true,if_false,Option.some.injEq] at hget
        subst rm
        omega
    · simp only [hrp,if_false] at hget
      exact h.bounded r rm hget
  present := by
    have hother : ∀ r rm i q, s.rooms.get r = some rm → rm.get i = some q →
        (r = p.roomId → i ≠ p.id) → q.id = i ∧ q.roomId = r ∧
          ∃ k, (s.put c conn').alive q.ws = some k ∧ k.participant = some q := by
      intro r rm i q hrm hi hne
      obtain ⟨hid,hrid,k,hk,hkp⟩ := h.present r rm i q hrm hi
      have hqc : q.ws ≠ c := by
        intro he
        rw [he,hc,Option.some.injEq] at hk
        rw [← hk,hp,Option.some.injEq] at hkp
        subst q
        exact hne hrid.symm hid.symm
      exact ⟨hid,hrid,k,by rw [alive_put_ne s conn' hqc]; exact hk,hkp⟩
    intro r rm i q hget hi
    simp only [get_leave_rooms] at hget
    by_cases hrp : r = p.roomId
    · by_cases hz : (room.delete p.id).size = 0
      · simp [hrp,hz] at hget
      · simp only [hrp,hz,if_true,if_false,Option.some.injEq] at hget
        subst rm
        rw [OrderedMap.get_delete] at hi
        split at hi
        · cases hi
        · rename_i hip
          exact hother r room i q (hrp ▸ hr) hi (fun _ => hip)
    · simp only [hrp,if_false] at hget
      exact hother r rm i q hget hi (fun he => absurd he hrp)
  joined := by
    intro d k q hd hkq
    have hdc : d ≠ c := by
      rintro rfl
      have hnone := alive_put_closed s d hx
      exact absurd (hnone.symm.trans hd) (by simp)
    have hd' : s.alive d = some k := (alive_put_ne s conn' hdc).symm.trans hd
    obtain ⟨hqd,rm,hrm,hq⟩ := h.joined d k q hd' hkq
    refine ⟨hqd,?_⟩
    simp only [get_leave_rooms]
    by_cases hrp : q.roomId = p.roomId
    · rw [hrp,hr,Option.some.injEq] at hrm
      subst rm
      have hne : q.id ≠ p.id := by
        intro he
        obtain ⟨hpc,rm,hrm,hpp⟩ := h.joined c conn p hc hp
        rw [hr,Option.some.injEq] at hrm
        subst rm
        rw [he,hpp,Option.some.injEq] at hq
        exact hdc (by rw [← hqd,← hpc,hq])
      have hq' : (room.delete p.id).get q.id = some q := by
        rw [OrderedMap.get_delete_ne _ hne]; exact hq
      have hz := OrderedMap.size_pos_of_get hq'
      exact ⟨room.delete p.id,by simp only [hrp,if_true]; rw [if_neg (by omega)],hq'⟩
    · exact ⟨rm,by simp only [hrp,if_false]; exact hrm,hq⟩
  issued := by
    intro d k q hd hkq
    by_cases hdc : d = c
    · subst d
      have hk : some conn' = some k := by rw [← hd]; exact (put_connections_self s c conn').symm
      cases hk
      exact h.issued c conn q ((alive_eq_some_iff s c conn).mp hc).1
        (hp.trans (hp'.symm.trans hkq))
    · exact h.issued d k q (by rw [← hd]; exact (put_connections_ne s conn' hdc).symm) hkq

end

theorem RoomStore.charge {cfg : Config} {s : Server} {c : ConnId} {conn : Connection}
    (h : RoomStore cfg s) (hc : s.alive c = some conn) (now : Nat) (uuid : JsString) :
    RoomStore cfg (s.charge cfg c conn now uuid) :=
  (h.issue uuid).put hc (by simp) (by simpa using ((alive_eq_some_iff s c conn).mp hc).2)

theorem charge_alive {cfg : Config} {s : Server} {c : ConnId} {conn : Connection}
    (hc : s.alive c = some conn) (now : Nat) (uuid : JsString) :
    (s.charge cfg c conn now uuid).alive c = some (conn.take cfg now) :=
  alive_put_self _ c (by simpa using ((alive_eq_some_iff s c conn).mp hc).2)

theorem roomStore_step {cfg : Config} {s t : Server} {e : ServerEvent} {out : List Sent}
    (hs : RoomStore cfg s) (h : s.step cfg e = some (t,out)) : RoomStore cfg t := by
  cases step_effect h with
  | connected c now hc =>
    exact hs.put_unjoined (fun k hk => by simp [Server.alive,hc] at hk) rfl
  | handled c conn now uuid data t out hc hu ho =>
    have hcharge := hs.charge hc now uuid
    cases ho with
    | reply body requestId hb => exact hcharge
    | joined m roomId displayName ht hm hk hp hj hsize =>
      exact hcharge.enter (charge_alive hc now uuid) hp rfl List.mem_cons_self
        (hs.fresh_key hu roomId) hsize
    | relayed m k p target room signal ht hm hk hp hr hd hne hv => exact hcharge
    | chatted m p room text ht hm hk hp hr hx => exact hcharge
  | kept e c conn conn' hc hp hr ho he => exact hs.put hc hp hr
  | left c conn p room hc hp hr => exact hs.leave hc hp hr rfl hp
  | closed c conn hc hp =>
    refine hs.put_unjoined (fun k hk => ?_) hp
    rw [hc,Option.some.injEq] at hk
    exact hk ▸ hp

theorem roomStore_run {cfg : Config} {es : List ServerEvent} {w : Server × List Sent}
    (h : Server.run cfg es = some w) : RoomStore cfg w.1 := by
  refine Runs.exec_invariant (I := fun w => RoomStore cfg w.1) ?_ (roomStore_init cfg) h
  intro w e v hw hv
  obtain ⟨out,hstep,_⟩ := advance_eq_some.mp hv
  exact roomStore_step hw hstep

def Server.participantOf (s : Server) (c : ConnId) : Option Participant :=
  (s.connections c).bind Connection.participant

theorem participantOf_put (s : Server) (c d : ConnId) (conn : Connection) :
    (s.put c conn).participantOf d = if d = c then conn.participant else s.participantOf d := by
  by_cases h : d = c
  · simp [Server.participantOf,h]
  · simp [Server.participantOf,put_connections_ne s conn h,h]

theorem participantOf_alive {s : Server} {c : ConnId} {conn : Connection}
    (h : s.alive c = some conn) : s.participantOf c = conn.participant := by
  simp [Server.participantOf,((alive_eq_some_iff s c conn).mp h).1]

theorem RoomStore.participantOf {cfg : Config} {s : Server} {c : ConnId} {r i : JsString}
    {room : Room} {p : Participant} (hs : RoomStore cfg s) (hr : s.rooms.get r = some room)
    (hi : room.get i = some p) (hw : p.ws = c) :
    p.id = i ∧ p.roomId = r ∧ s.participantOf c = some p := by
  obtain ⟨hid,hrid,conn,hc,hp⟩ := hs.present r room i p hr hi
  exact ⟨hid,hrid,hw ▸ (participantOf_alive hc).trans hp⟩

theorem charge_participantOf {cfg : Config} {s : Server} {c : ConnId} {conn : Connection}
    (hc : s.alive c = some conn) (now : Nat) (uuid : JsString) (d : ConnId) :
    (s.charge cfg c conn now uuid).participantOf d = s.participantOf d := by
  unfold Server.charge
  rw [participantOf_put,take_participant]
  split
  · rename_i hdc
    rw [hdc]
    exact (participantOf_alive hc).symm
  · rfl

theorem participantOf_step {cfg : Config} {s t : Server} {e : ServerEvent} {out : List Sent}
    (h : s.step cfg e = some (t,out)) {c : ConnId} {p : Participant}
    (hp : s.participantOf c = some p) : t.participantOf c = some p := by
  have hput : ∀ d conn conn', s.alive d = some conn → conn'.participant = conn.participant →
      (s.put d conn').participantOf c = some p := by
    intro d conn conn' hd he
    rw [participantOf_put]
    split
    · rename_i hcd
      rw [he,← participantOf_alive hd,← hcd,hp]
    · exact hp
  cases step_effect h with
  | connected d now hd =>
    rw [participantOf_put]
    split
    · rename_i hcd
      simp [Server.participantOf,hcd,hd] at hp
    · exact hp
  | handled d conn now uuid data t out hd hu ho =>
    have hcharge : (s.charge cfg d conn now uuid).participantOf c = some p :=
      hput d conn (conn.take cfg now) hd (take_participant cfg now conn)
    cases ho with
    | reply body requestId hb => exact hcharge
    | joined m roomId displayName ht hm hk hj hq hsize =>
      have hcd : c ≠ d := by
        rintro rfl
        rw [participantOf_alive hd] at hp
        rw [take_participant,hp] at hj
        cases hj
      have := participantOf_put (s.charge cfg d conn now uuid) d c
        { conn.take cfg now with participant := some ⟨uuid,displayName,roomId,d⟩ }
      rw [if_neg hcd] at this
      exact this.trans hcharge
    | relayed m k q target room signal ht hm hk hj hr hd hne hv => exact hcharge
    | chatted m q room text ht hm hk hj hr hx => exact hcharge
  | kept e d conn conn' hd he hr ho hc => exact hput d conn conn' hd he
  | left d conn q room hd hq hr => exact hput d conn _ hd rfl
  | closed d conn hd hq => exact hput d conn _ hd rfl

theorem participantOf_exec {cfg : Config} {w v : Server × List Sent} {es : List ServerEvent}
    (h : Runs.exec (Server.advance cfg) w es = some v) {c : ConnId} {p : Participant}
    (hp : w.1.participantOf c = some p) : v.1.participantOf c = some p := by
  refine Runs.exec_invariant (I := fun w => w.1.participantOf c = some p) ?_ hp h
  intro w e v hw hv
  obtain ⟨out,hstep,_⟩ := advance_eq_some.mp hv
  exact participantOf_step hstep hw

/-- Where the invariant holds no handler throws past its try block. -/
theorem RoomStore.handle_isSome {cfg : Config} {s : Server} (h : RoomStore cfg s)
    {e : ServerEvent} (he : s.enabled e) : (s.handle cfg e).isSome := by
  have halive : ∀ c, (s.alive c).isSome → ∃ conn, s.alive c = some conn :=
    fun c hc => Option.isSome_iff_exists.mp hc
  cases e with
  | connection c now => rfl
  | message c now uuid data =>
    simp only [Server.enabled,Bool.and_eq_true] at he
    obtain ⟨conn,hc⟩ := halive c he.1
    simp [Server.handle,hc]
  | pong c | closing c =>
    obtain ⟨conn,hc⟩ := halive c he
    simp [Server.handle,hc]
  | heartbeat c =>
    obtain ⟨conn,hc⟩ := halive c he
    cases ha : conn.isAlive <;> simp [Server.handle,hc,ha]
  | close c =>
    obtain ⟨conn,hc⟩ := halive c he
    cases hp : conn.participant with
    | none => simp [Server.handle,hc,Server.onClose,hp]
    | some p =>
      obtain ⟨_,room,hr,_⟩ := h.joined c conn p hc hp
      simp [Server.handle,hc,Server.onClose,hp,hr]

theorem filter_eq_singleton {α : Type} [DecidableEq α] {l : List α} {a : α} {P : α → Bool}
    (hl : l.Nodup) (ha : a ∈ l) (hP : ∀ b ∈ l, P b ↔ b = a) : l.filter P = [a] := by
  have hf : l.filter P = l.filter (· == a) := by
    apply List.filter_congr
    intro b hb
    rw [Bool.eq_iff_iff,hP b hb,beq_iff_eq]
  rw [hf,List.filter_beq,List.count_eq_one_of_mem hl ha]
  rfl

theorem RoomStore.seats_of {cfg : Config} {s : Server} (h : RoomStore cfg s) {c : ConnId}
    {conn : Connection} {p : Participant} (hc : s.alive c = some conn)
    (hp : conn.participant = some p) :
    s.seats.filter (fun seat => seat.2.2.ws = c) = [(p.roomId,p.id,p)] := by
  obtain ⟨hw,room,hr,hi⟩ := h.joined c conn p hc hp
  refine filter_eq_singleton (seats_nodup s) ((mem_seats_iff s _ _ _).mpr ⟨room,hr,hi⟩) ?_
  rintro ⟨r,i,q⟩ hq
  obtain ⟨rm,hrm,hqi⟩ := (mem_seats_iff s r i q).mp hq
  obtain ⟨hid,hrid,k,hk,hkq⟩ := h.present r rm i q hrm hqi
  simp only [decide_eq_true_eq,Prod.mk.injEq]
  constructor
  · intro hqc
    rw [hqc,hc,Option.some.injEq] at hk
    subst k
    rw [hp,Option.some.injEq] at hkq
    subst q
    exact ⟨hrid.symm,hid.symm,rfl⟩
  · rintro ⟨_,_,rfl⟩
    exact hw

/-- The store after any run: rooms are non-empty and within the limit; a live joined
connection has exactly one seat, its own, and no other seat exists; nobody joins twice;
no handler throws out of its event. -/
theorem room_store_always (cfg : Config) (es : List ServerEvent) (s : Server)
    (log : List Sent) (h : Server.run cfg es = some (s,log)) :
    (∀ r room, s.rooms.get r = some room → 0 < room.size ∧ room.size ≤ cfg.maxParticipants) ∧
    (∀ c conn p, s.alive c = some conn → conn.participant = some p →
      s.seats.filter (fun seat => seat.2.2.ws = c) = [(p.roomId,p.id,p)] ∧
        (s.rooms.get p.roomId).isSome) ∧
    (∀ seat ∈ s.seats, ∃ conn, s.alive seat.2.2.ws = some conn ∧
      conn.participant = some seat.2.2) ∧
    (∀ c p, s.participantOf c = some p → ∀ fs t log',
      Runs.exec (Server.advance cfg) (s,log) fs = some (t,log') → t.participantOf c = some p) ∧
    (∀ e, s.enabled e → (s.handle cfg e).isSome) := by
  have hs := roomStore_run h
  refine ⟨hs.bounded,?_,?_,?_,fun e he => hs.handle_isSome he⟩
  · intro c conn p hc hp
    obtain ⟨_,room,hr,_⟩ := hs.joined c conn p hc hp
    exact ⟨hs.seats_of hc hp,by rw [hr]; rfl⟩
  · rintro ⟨r,i,p⟩ hseat
    obtain ⟨room,hr,hi⟩ := (mem_seats_iff s r i p).mp hseat
    exact (hs.present r room i p hr hi).2.2
  · intro c p hp fs t log' ht
    exact participantOf_exec ht hp

def joinMessage (roomId displayName requestId : JsString) : Data :=
  clientMessage .roomJoin [(js "roomId",.str roomId),(js "displayName",.str displayName)]
    (some requestId)

theorem room_store_always_two_join :
    ∃ s log, Server.run (defaultConfig [])
        [.connection 0 0,.connection 1 1,
          .message 0 2 (js "a") (joinMessage (js "room1") (js "Ann") (js "r0")),
          .message 1 3 (js "b") (joinMessage (js "room1") (js "Bob") (js "r1")),.close 0] =
        some (s,log) ∧
      s.seats = [(js "room1",js "b",⟨js "b",js "Bob",js "room1",1⟩)] ∧
      ∀ e, s.enabled e → (s.handle (defaultConfig []) e).isSome := by
  have h : (Server.run (defaultConfig [])
      [.connection 0 0,.connection 1 1,
        .message 0 2 (js "a") (joinMessage (js "room1") (js "Ann") (js "r0")),
        .message 1 3 (js "b") (joinMessage (js "room1") (js "Bob") (js "r1")),.close 0]).map
      (fun w => w.1.seats) = some [(js "room1",js "b",⟨js "b",js "Bob",js "room1",1⟩)] := by
    decide +kernel
  obtain ⟨⟨s,log⟩,hrun,hseats⟩ := Option.map_eq_some_iff.mp h
  exact ⟨s,log,hrun,hseats,(room_store_always (defaultConfig []) _ s log hrun).2.2.2.2⟩

end MaiaMeet
