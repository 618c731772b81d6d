import MaiaMeet.Client
set_option autoImplicit false

/-! What the messages to one connection tell it of its room: the snapshot in room.joined and
the changes after it add up to the server's room map at every message. -/

namespace MaiaMeet

def ids (l : List PublicParticipant) : List JsString := l.map PublicParticipant.id

def Body.apply (l : List PublicParticipant) : Body → List PublicParticipant
  | .participantJoined p => l ++ [p]
  | .participantLeft id => l.filter (fun p => p.id ≠ id)
  | _ => l

/-- A member's own id and the members it knows of, once it has heard room.joined. -/
abbrev View := Option (JsString × List PublicParticipant)

def Body.view (v : View) (b : Body) : View :=
  match v, b with
  | none, .roomJoined own _ participants _ => some (own,participants)
  | none, _ => none
  | some (own,l), b => some (own,b.apply l)

def view (l : List Entry) : View := l.foldl (fun v e => e.message.body.view v) none

def Server.viewOf (s : Server) (c : ConnId) : View :=
  (s.participantOf c).map (fun p => (p.id,s.membersOf c))

def Hears (v : View) (e : Entry) : Prop :=
  match v with
  | none => e.message.body.isReply ∨ ∃ own roomId rtcConfig,
      e.message.body = .roomJoined own roomId e.members rtcConfig ∧
      (ids e.members).Nodup ∧ own ∈ ids e.members
  | some (own,l) => e.members = e.message.body.apply l ∧ (ids e.members).Nodup ∧
      own ∈ ids e.members ∧
      (∀ own' roomId participants rtcConfig,
        e.message.body ≠ .roomJoined own' roomId participants rtcConfig) ∧
      ∀ signal id, e.message.body = .signal signal id → id ∈ ids e.members ∧ id ≠ own

section
variable {cfg : Config} {s t : Server} {c d : ConnId}

theorem isOpen_iff : s.isOpen c ↔ ∃ conn, s.connections c = some conn ∧
    conn.readyState = .opened := by
  unfold Server.isOpen
  cases s.connections c <;> simp

theorem isOpen_alive (h : s.isOpen c) : ∃ conn, s.alive c = some conn := by
  obtain ⟨conn,hc,ho⟩ := isOpen_iff.mp h
  exact ⟨conn,(alive_eq_some_iff s c conn).mpr ⟨hc,by simp [ho]⟩⟩

theorem filter_send (s : Server) (c d : ConnId) (body : Body) (requestId : Option JsString) :
    (s.send d body requestId).filter (fun m => m.ws = c) =
      if d = c then s.send c body requestId else [] := by
  unfold Server.send
  by_cases hd : d = c
  · subst hd
    split <;> simp
  · split <;> simp [hd]

theorem filter_broadcast (s : Server) (room : Room) (body : Body) (except : Option JsString)
    (c : ConnId) : (s.broadcast room body except).filter (fun m => m.ws = c) =
      ((room.values.filter (fun p => p.ws = c)).filter (fun p => some p.id ≠ except)).flatMap
        (fun _ => s.send c body none) := by
  unfold Server.broadcast
  rw [List.filter_flatMap]
  simp only [filter_send]
  induction room.values with
  | nil => rfl
  | cons p l ih =>
    by_cases hp : p.ws = c <;> by_cases he : some p.id = except <;>
      simp_all

theorem RoomStore.room_ids (hs : RoomStore cfg s) {r : JsString} {room : Room}
    (hr : s.rooms.get r = some room) : room.values.map Participant.id = room.keys := by
  rw [OrderedMap.values,OrderedMap.keys,List.map_map]
  apply List.map_congr_left
  rintro ⟨i,p⟩ he
  exact (hs.present r room i p hr ((room.get_eq_some_iff i p).mpr he)).1

theorem RoomStore.values_nodup (hs : RoomStore cfg s) {r : JsString} {room : Room}
    (hr : s.rooms.get r = some room) : room.values.Nodup :=
  List.Nodup.of_map Participant.id (by rw [hs.room_ids hr]; exact room.keys_nodup)

theorem ids_public (l : List Participant) :
    ids (l.map publicParticipant) = l.map Participant.id := by
  simp [ids,publicParticipant,Function.comp_def]

theorem RoomStore.own_entry (hs : RoomStore cfg s) {p : Participant} {conn : Connection}
    (hc : s.alive c = some conn) (hp : s.participantOf c = some p) :
    ∃ room, s.rooms.get p.roomId = some room ∧ room.get p.id = some p ∧
      room.values.filter (fun q => q.ws = c) = [p] := by
  rw [participantOf_alive hc] at hp
  obtain ⟨hw,room,hr,hi⟩ := hs.joined c conn p hc hp
  refine ⟨room,hr,hi,filter_eq_singleton ?_ ((room.mem_values_iff p).mpr ⟨p.id,hi⟩) ?_⟩
  · exact hs.values_nodup hr
  · intro q hq
    obtain ⟨i,hi'⟩ := (room.mem_values_iff q).mp hq
    rw [decide_eq_true_eq]
    constructor
    · intro hqc
      have := (hs.participantOf hr hi' hqc).2.2
      rw [participantOf_alive hc,hp,Option.some.injEq] at this
      exact this.symm
    · rintro rfl
      exact hw

theorem RoomStore.no_entry (hs : RoomStore cfg s) {r : JsString} {room : Room}
    (hr : s.rooms.get r = some room) (hp : ∀ p, s.participantOf c = some p → p.roomId ≠ r) :
    room.values.filter (fun q => q.ws = c) = [] := by
  rw [List.filter_eq_nil_iff]
  intro q hq hqc
  obtain ⟨i,hi⟩ := (room.mem_values_iff q).mp hq
  obtain ⟨_,hqr,hof⟩ := hs.participantOf hr hi (by simpa using hqc)
  exact hp q hof hqr

theorem membersOf_eq {p : Participant} {room : Room} (hp : s.participantOf c = some p)
    (hr : s.rooms.get p.roomId = some room) :
    s.membersOf c = room.values.map publicParticipant := by
  simp [Server.membersOf,hp,Server.roomOrNew,hr]

theorem viewOf_eq {p : Participant} (hp : s.participantOf c = some p) :
    s.viewOf c = some (p.id,s.membersOf c) := by simp [Server.viewOf,hp]

theorem viewOf_none (hp : s.participantOf c = none) : s.viewOf c = none := by
  simp [Server.viewOf,hp]

theorem viewOf_congr (hp : t.participantOf c = s.participantOf c)
    (hr : ∀ p, s.participantOf c = some p → t.rooms.get p.roomId = s.rooms.get p.roomId) :
    t.viewOf c = s.viewOf c := by
  cases hc : s.participantOf c with
  | none => rw [viewOf_none hc,viewOf_none (hp.trans hc)]
  | some p =>
    rw [viewOf_eq hc,viewOf_eq (hp.trans hc),Server.membersOf,Server.membersOf,hp,hc]
    simp [Server.roomOrNew,hr p hc]

/-- The member list of a joined connection: distinct ids, its own among them. -/
theorem RoomStore.members (hs : RoomStore cfg s) {p : Participant} {conn : Connection}
    (hc : s.alive c = some conn) (hp : s.participantOf c = some p) :
    (ids (s.membersOf c)).Nodup ∧ p.id ∈ ids (s.membersOf c) := by
  obtain ⟨room,hr,hi,_⟩ := hs.own_entry hc hp
  rw [membersOf_eq hp hr,ids_public,hs.room_ids hr]
  exact ⟨room.keys_nodup,OrderedMap.mem_keys_of_get hi⟩

inductive Told (s t : Server) (c : ConnId) : List Sent → Prop where
  | nothing (h : t.isOpen c ∨ t.connections c = none → t.viewOf c = s.viewOf c) : Told s t c []
  | one (m : Sent) (h : Hears (s.viewOf c) ⟨m,t.membersOf c⟩)
      (hv : t.viewOf c = m.body.view (s.viewOf c)) : Told s t c [m]

theorem Told.same (ht : RoomStore cfg t) {m : Sent} (hc : t.isOpen c)
    (hv : t.viewOf c = s.viewOf c) (happly : ∀ l, m.body.apply l = l)
    (hnone : s.participantOf c = none → m.body.isReply)
    (hjoin : ∀ own roomId participants rtcConfig,
      m.body ≠ .roomJoined own roomId participants rtcConfig)
    (hsignal : ∀ signal id p, m.body = .signal signal id → t.participantOf c = some p →
      id ∈ ids (t.membersOf c) ∧ id ≠ p.id) : Told s t c [m] := by
  obtain ⟨conn,ha⟩ := isOpen_alive hc
  cases hp : t.participantOf c with
  | none =>
    rw [viewOf_none hp] at hv
    have hs : s.participantOf c = none := by
      simpa [Server.viewOf] using hv.symm
    refine .one m ?_ ?_
    · rw [← hv]
      exact .inl (hnone hs)
    · rw [viewOf_none hp,← hv]
      cases hm : m.body <;> first | rfl | exact absurd hm (hjoin _ _ _ _)
  | some p =>
    rw [viewOf_eq hp] at hv
    obtain ⟨hn,hown⟩ := ht.members ha hp
    refine .one m ?_ ?_
    · rw [← hv]
      exact ⟨(happly _).symm,hn,hown,hjoin,fun signal id hb => hsignal signal id p hb hp⟩
    · rw [viewOf_eq hp,← hv]
      simp [Body.view,happly]

theorem broadcast_to (hs : RoomStore cfg s) {room : Room} {r : JsString} (body : Body)
    (except : Option JsString) (hr : s.rooms.get r = some room) :
    (s.broadcast room body except).filter (fun m => m.ws = c) = [] ∨
      ∃ p, s.isOpen c ∧ s.participantOf c = some p ∧ p.roomId = r ∧ some p.id ≠ except ∧
        (s.broadcast room body except).filter (fun m => m.ws = c) = [⟨c,body,none⟩] := by
  rw [filter_broadcast]
  by_cases ho : s.isOpen c
  · obtain ⟨conn,hc⟩ := isOpen_alive ho
    by_cases hp : ∃ p, s.participantOf c = some p ∧ p.roomId = r
    · obtain ⟨p,hp,rfl⟩ := hp
      obtain ⟨room',hr',_,hf⟩ := hs.own_entry hc hp
      rw [hr,Option.some.injEq] at hr'
      subst room'
      rw [hf]
      by_cases he : some p.id = except
      · exact .inl (by simp [he])
      · exact .inr ⟨p,ho,hp,rfl,he,by simp [he,Server.send,ho]⟩
    · rw [hs.no_entry hr (fun p hof hpr => hp ⟨p,hof,hpr⟩)]
      exact .inl rfl
  · have hsend : s.send c body none = [] := by simp [Server.send,ho]
    exact .inl (by simp [hsend])

theorem broadcast_member (hs : RoomStore cfg s) {room : Room} {p : Participant} (body : Body)
    {except : Option JsString} (ho : s.isOpen c) (hp : s.participantOf c = some p)
    (hr : s.rooms.get p.roomId = some room) (he : some p.id ≠ except) :
    (s.broadcast room body except).filter (fun m => m.ws = c) = [⟨c,body,none⟩] := by
  obtain ⟨conn,hc⟩ := isOpen_alive ho
  obtain ⟨room',hr',_,hf⟩ := hs.own_entry hc hp
  rw [hr,Option.some.injEq] at hr'
  subst room'
  rw [filter_broadcast,hf]
  simp [he,Server.send,ho]

theorem viewOf_charge {conn : Connection} (hd : s.alive d = some conn) (now : Nat)
    (uuid : JsString) (c : ConnId) : (s.charge cfg d conn now uuid).viewOf c = s.viewOf c :=
  viewOf_congr (charge_participantOf hd now uuid c) (fun _ _ => rfl)

theorem viewOf_put {conn : Connection} (hp : conn.participant = s.participantOf d)
    (c : ConnId) : (s.put d conn).viewOf c = s.viewOf c := by
  refine viewOf_congr ?_ (fun _ _ => rfl)
  rw [participantOf_put]
  split
  · rename_i hcd; rw [hcd,hp]
  · rfl

theorem values_delete_public (hs : RoomStore cfg s) {r : JsString} {room : Room}
    (hr : s.rooms.get r = some room) (id : JsString) :
    (room.delete id).values.map publicParticipant =
      (room.values.map publicParticipant).filter (fun p => p.id ≠ id) := by
  have hid : ∀ e ∈ room.entries, e.2.id = e.1 := fun e he =>
    (hs.present r room e.1 e.2 hr ((room.get_eq_some_iff e.1 e.2).mpr he)).1
  simp only [OrderedMap.values,OrderedMap.entries_delete,List.filter_map,List.map_map]
  congr 1
  apply List.filter_congr
  intro e he
  simp [publicParticipant,hid e he]

/-- What a room is told changes its members' lists as it says, and reaches nobody else. -/
theorem told_broadcast (hts : RoomStore cfg t) {r : JsString} {room : Room} {body : Body}
    {except : Option JsString} (hroom : t.rooms.get r = some room)
    (hof : t.participantOf c = s.participantOf c)
    (hsame : (∀ q, s.participantOf c = some q → q.roomId ≠ r) → t.viewOf c = s.viewOf c)
    (hmember : ∀ q, s.participantOf c = some q → q.roomId = r → t.isOpen c →
      some q.id ≠ except ∧ t.membersOf c = body.apply (s.membersOf c))
    (hview : ∀ own members, body.view (some (own,members)) = some (own,body.apply members))
    (hjoin : ∀ own roomId participants rtcConfig,
      body ≠ .roomJoined own roomId participants rtcConfig)
    (hsignal : ∀ signal id, body ≠ .signal signal id) :
    Told s t c ((t.broadcast room body except).filter (fun m => m.ws = c)) := by
  by_cases hin : ∃ q, s.participantOf c = some q ∧ q.roomId = r
  · obtain ⟨q,hq,hqr⟩ := hin
    have hqt := hof.trans hq
    by_cases ho : t.isOpen c
    · obtain ⟨k,hk⟩ := isOpen_alive ho
      obtain ⟨hn,hown⟩ := hts.members hk hqt
      obtain ⟨hexcept,hmembers⟩ := hmember q hq hqr ho
      rw [broadcast_member hts _ ho hqt (hqr ▸ hroom) hexcept]
      refine .one _ ?_ ?_
      · rw [viewOf_eq hq]
        exact ⟨hmembers,hn,hown,hjoin,fun signal id hb => absurd hb (hsignal signal id)⟩
      · rw [viewOf_eq hq,viewOf_eq hqt,hmembers]
        exact (hview _ _).symm
    · rcases broadcast_to (c := c) hts body except hroom with hb | ⟨_,ho',_⟩
      · rw [hb]
        refine .nothing (fun ho' => ?_)
        rcases ho' with ho' | ho'
        · exact absurd ho' ho
        · simp [Server.participantOf,ho'] at hqt
      · exact absurd ho' ho
  · rcases broadcast_to (c := c) hts body except hroom with hb | ⟨q,_,hq,hqr,_⟩
    · rw [hb]
      exact .nothing (fun _ => hsame (fun q hq hqr => hin ⟨q,hq,hqr⟩))
    · exact absurd ⟨q,hof.symm.trans hq,hqr⟩ hin

theorem told_left (hs : RoomStore cfg s) {conn : Connection} {p : Participant} {room : Room}
    (hd : s.alive d = some conn) (hp : conn.participant = some p)
    (hr : s.rooms.get p.roomId = some room)
    (ht : t = { s.put d { conn with readyState := .closed } with
      rooms := if (room.delete p.id).size = 0
        then (s.rooms.set p.roomId (room.delete p.id)).delete p.roomId
        else s.rooms.set p.roomId (room.delete p.id) })
    (hts : RoomStore cfg t) (c : ConnId) :
    Told s t c ((t.broadcast (room.delete p.id) (.participantLeft p.id) none).filter
      (fun m => m.ws = c)) := by
  have hpd : s.participantOf d = some p := (participantOf_alive hd).trans hp
  have hget : ∀ r, t.rooms.get r = if r = p.roomId then
      (if (room.delete p.id).size = 0 then none else some (room.delete p.id))
      else s.rooms.get r := fun r => by rw [ht]; exact get_leave_rooms _ _ _ _
  have hof : ∀ c, t.participantOf c = s.participantOf c := by
    intro c
    have hput := participantOf_put s d c { conn with readyState := .closed }
    rw [ht]
    refine hput.trans ?_
    split
    · rename_i hcd; rw [hcd,hpd]; exact hp
    · rfl
  -- whoever is not in that room hears nothing and sees no change
  have hsame : (∀ q, s.participantOf c = some q → q.roomId ≠ p.roomId) →
      t.viewOf c = s.viewOf c := fun hne =>
    viewOf_congr (hof c) (fun q hq => by rw [hget,if_neg (hne q hq)])
  by_cases hz : (room.delete p.id).size = 0
  · have hnil : t.broadcast (room.delete p.id) (.participantLeft p.id) none = [] := by
      have hv : (room.delete p.id).values = [] := by
        rw [← List.length_eq_zero_iff]
        simpa [OrderedMap.values,OrderedMap.size] using hz
      simp [Server.broadcast,hv]
    rw [hnil]
    refine .nothing (fun ho => hsame (fun q hq hqr => ?_))
    rcases ho with ho | ho
    · obtain ⟨k,hk⟩ := isOpen_alive ho
      obtain ⟨room',hr',_⟩ := hts.own_entry hk ((hof c).trans hq)
      rw [hget,if_pos hqr,if_pos hz] at hr'
      cases hr'
    · have hnone := (hof c).trans hq
      simp [Server.participantOf,ho] at hnone
  · have hroom : t.rooms.get p.roomId = some (room.delete p.id) := by
      rw [hget,if_pos rfl,if_neg hz]
    refine told_broadcast hts hroom (hof c) hsame (fun q hq hqr _ => ⟨by simp,?_⟩)
      (fun _ _ => rfl) (by simp) (by simp)
    rw [membersOf_eq ((hof c).trans hq) (hqr ▸ hroom),membersOf_eq hq (hqr ▸ hr)]
    exact values_delete_public hs hr p.id

/-- A newcomer hears the snapshot, the others of its room hear the newcomer. -/
theorem told_joined (hs : RoomStore cfg s) {conn : Connection} {p : Participant}
    {requestId : Option JsString} (hd : s.alive d = some conn) (hp : conn.participant = none)
    (hkey : (s.roomOrNew p.roomId).get p.id = none) (ht : t = s.enter d conn p)
    (hts : RoomStore cfg t) (c : ConnId) :
    Told s t c ((t.send d (.roomJoined p.id p.roomId
        ((t.roomOrNew p.roomId).values.map publicParticipant) cfg.rtcConfig) requestId ++
      t.broadcast (t.roomOrNew p.roomId) (.participantJoined (publicParticipant p))
        (some p.id)).filter (fun m => m.ws = c)) := by
  have hroom : t.rooms.get p.roomId = some ((s.roomOrNew p.roomId).set p.id p) := by
    rw [ht]; exact enter_rooms_self s d conn p
  have hget : ∀ r, r ≠ p.roomId → t.rooms.get r = s.rooms.get r := by
    intro r hr; rw [ht]; exact enter_rooms_ne s d conn p hr
  have hof : ∀ c, t.participantOf c = if c = d then some p else s.participantOf c := by
    intro c
    rw [ht]
    exact participantOf_put s d c { conn with participant := some p }
  have hnew : t.roomOrNew p.roomId = (s.roomOrNew p.roomId).set p.id p := by
    simp [Server.roomOrNew,hroom]
  rw [hnew,List.filter_append,filter_send]
  by_cases hcd : d = c
  · subst hcd
    have hself : t.participantOf d = some p := by rw [hof,if_pos rfl]
    have hnone : s.viewOf d = none := viewOf_none ((participantOf_alive hd).trans hp)
    have hothers : (t.broadcast ((s.roomOrNew p.roomId).set p.id p)
        (.participantJoined (publicParticipant p)) (some p.id)).filter (fun m => m.ws = d) = [] := by
      rcases broadcast_to (c := d) hts (.participantJoined (publicParticipant p)) (some p.id) hroom
        with hb | ⟨q,_,hq,_,hne,_⟩
      · exact hb
      · rw [hself,Option.some.injEq] at hq
        rw [hq] at hne
        exact absurd rfl hne
    rw [hothers,if_pos rfl,List.append_nil]
    unfold Server.send
    split
    · rename_i ho
      obtain ⟨k,hk⟩ := isOpen_alive ho
      obtain ⟨hn,hown⟩ := hts.members hk hself
      rw [membersOf_eq hself hroom] at hn hown
      refine .one _ ?_ ?_
      · rw [hnone]
        exact .inr ⟨p.id,p.roomId,cfg.rtcConfig,by rw [membersOf_eq hself hroom],
          by rw [membersOf_eq hself hroom]; exact ⟨hn,hown⟩⟩
      · rw [hnone,viewOf_eq hself,membersOf_eq hself hroom]
        rfl
    · rename_i ho
      refine .nothing (fun ho' => ?_)
      rcases ho' with ho' | ho'
      · exact absurd ho' ho
      · simp [Server.participantOf,ho'] at hself
  · rw [if_neg hcd,List.nil_append]
    have hofc : t.participantOf c = s.participantOf c := by rw [hof,if_neg (Ne.symm hcd)]
    have hsame : (∀ q, s.participantOf c = some q → q.roomId ≠ p.roomId) →
        t.viewOf c = s.viewOf c := fun hne =>
      viewOf_congr hofc (fun q hq => hget q.roomId (hne q hq))
    refine told_broadcast hts hroom hofc hsame (fun q hq hqr ho => ?_)
      (fun _ _ => rfl) (by simp) (by simp)
    obtain ⟨k,hk⟩ := isOpen_alive ho
    have hqd : s.alive c = some k := by
      rw [ht,enter_alive,alive_put_ne s _ (Ne.symm hcd)] at hk
      exact hk
    obtain ⟨room,hr,hqi,_⟩ := hs.own_entry hqd hq
    have hold : s.roomOrNew p.roomId = room := by simp [Server.roomOrNew,← hqr,hr]
    have hne : q.id ≠ p.id := by
      intro he
      rw [hold,← he,hqi] at hkey
      cases hkey
    have hroomq : t.rooms.get q.roomId = some (room.set p.id p) := by rw [hqr,hroom,hold]
    refine ⟨by simpa using hne,?_⟩
    rw [membersOf_eq (hofc.trans hq) hroomq,membersOf_eq hq hr,
      OrderedMap.values_set_new p (hold ▸ hkey)]
    simp [Body.apply]

theorem Told.congr {u : Server} {out : List Sent} (h : Told u t c out)
    (hv : u.viewOf c = s.viewOf c) : Told s t c out := by
  cases h with
  | nothing h => exact .nothing (fun ho => (h ho).trans hv)
  | one m h hm =>
    rw [hv] at h hm
    exact .one m h hm

/-- One step says at most one thing to a connection, and that is what its room did. -/
theorem told_step (hs : RoomStore cfg s) {e : ServerEvent} {out : List Sent}
    (h : s.step cfg e = some (t,out)) (c : ConnId) :
    Told s t c (out.filter (fun m => m.ws = c)) := by
  have hts := roomStore_step hs h
  cases step_effect h with
  | connected d now hd =>
    exact .nothing (fun _ => viewOf_put (by simp [Server.participantOf,hd]) c)
  | kept e d conn conn' hd hp hr ho he =>
    exact .nothing (fun _ => viewOf_put (hp.trans (participantOf_alive hd).symm) c)
  | closed d conn hd hp =>
    have hsame : Connection.participant { conn with readyState := .closed } = s.participantOf d :=
      (participantOf_alive hd).symm
    exact .nothing (fun _ => viewOf_put hsame c)
  | left d conn p room hd hp hr => exact told_left hs hd hp hr rfl hts c
  | handled d conn now uuid data t out hd hu ho =>
    have hview : (s.charge cfg d conn now uuid).viewOf c = s.viewOf c :=
      viewOf_charge hd now uuid c
    cases ho with
    | reply body requestId hb =>
      rw [filter_send]
      by_cases hdc : d = c
      · rw [if_pos hdc]
        unfold Server.send
        split
        · rename_i ho
          refine Told.same hts ho hview ?_ (fun _ => hb) ?_ ?_
          · cases body <;> simp_all [Body.isReply,Body.apply]
          · rintro own roomId participants rtcConfig rfl
            cases hb
          · rintro signal id p rfl
            cases hb
        · exact .nothing (fun _ => hview)
      · rw [if_neg hdc]
        exact .nothing (fun _ => hview)
    | joined env roomId displayName htk hm hk hp hj hsize =>
      have hcharge : RoomStore cfg (s.charge cfg d conn now uuid) := hs.charge hd now uuid
      exact (told_joined (p := ⟨uuid,displayName,roomId,d⟩) hcharge (charge_alive hd now uuid) hp
        (hs.fresh_key hu roomId) rfl hts c).congr hview
    | relayed env k p q room signal htk hm hk hp hr hq hne hv =>
      rw [filter_send]
      by_cases hqc : q.ws = c
      · rw [if_pos hqc]
        unfold Server.send
        split
        · rename_i ho
          obtain ⟨i,_,hi⟩ := targetOf_eq_some hq
          obtain ⟨_,hqr,hqof⟩ := hts.participantOf hr hi hqc
          have hpof : (s.charge cfg d conn now uuid).participantOf d = some p :=
            (participantOf_alive (charge_alive hd now uuid)).trans hp
          obtain ⟨room',hr',hpi,_⟩ := hts.own_entry (charge_alive hd now uuid) hpof
          rw [hr,Option.some.injEq] at hr'
          subst room'
          refine Told.same hts ho hview (fun _ => rfl) (fun hn => ?_) (by simp) ?_
          · rw [charge_participantOf hd now uuid c,hn] at hqof
            cases hqof
          · intro signal' id q' hb hq'
            cases hb
            rw [hqof,Option.some.injEq] at hq'
            subst q'
            rw [membersOf_eq hqof (hqr ▸ hr),ids_public,hts.room_ids hr]
            exact ⟨OrderedMap.mem_keys_of_get hpi,Ne.symm hne⟩
        · exact .nothing (fun _ => hview)
      · rw [if_neg hqc]
        exact .nothing (fun _ => hview)
    | chatted env p room text htk hm hk hp hr hx =>
      rw [take_participant] at hp
      rcases broadcast_to (c := c) hts (.chatMessage p.id p.displayName text now) none hr with
        hb | ⟨q,ho,hq,_,_,hb⟩
      · rw [hb]
        exact .nothing (fun _ => hview)
      · rw [hb]
        refine Told.same hts ho hview (fun _ => rfl) (fun hn => ?_) (by simp) (by simp)
        rw [charge_participantOf hd now uuid c,hn] at hq
        cases hq

end

end MaiaMeet
