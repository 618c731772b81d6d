import MaiaMeet.RoomStore
set_option autoImplicit false

/-! A request is either accepted, and answered without an error, or refused with one error
that changes nothing but the sender's limiter. -/

namespace MaiaMeet

def Body.isError : Body → Bool
  | .error _ _ => true
  | _ => false

def Server.accepts (cfg : Config) (s : Server) (participant : Option Participant)
    (m : Envelope) : Bool :=
  match m.type, participant with
  | .ping, _ | .roomCreate, _ => true
  | .roomJoin, none =>
    (joinRequest m.payload).any (fun r => (s.roomOrNew r.1).size < cfg.maxParticipants)
  | .signal k, some p =>
    (targetOf (s.roomOrNew p.roomId) m.payload).any (fun target => target.id ≠ p.id) &&
      (validSignal m.payload k).isSome
  | .chatSend, some _ => (chatText m.payload).isSome
  | _, _ => false

def Connection.validated (cfg : Config) (conn : Connection) (now : Nat) (data : Data) :
    Option Envelope :=
  if (conn.take cfg now).tokens < 0 then none else (envelope data).toOption

inductive Verdict (s : Server) (c : ConnId) (requestId : Option JsString) (accepted : Bool) :
    Server × List Sent → Prop where
  | accepted (t : Server) (out : List Sent) (ha : accepted)
      (ho : ∀ x ∈ out, ¬ x.body.isError) : Verdict s c requestId accepted (t,out)
  | refused (code : Nat) (message : String) (ha : ¬ accepted) :
      Verdict s c requestId accepted (s,s.fail c code message requestId)

theorem send_not_error {s : Server} {c : ConnId} {body : Body} {requestId : Option JsString}
    (h : ¬ body.isError) : ∀ x ∈ s.send c body requestId, ¬ x.body.isError :=
  fun _ hx => body_of_send hx ▸ h

theorem broadcast_not_error {s : Server} {room : Room} {body : Body}
    {except : Option JsString} (h : ¬ body.isError) :
    ∀ x ∈ s.broadcast room body except, ¬ x.body.isError :=
  fun _ hx => body_of_broadcast hx ▸ h

section
variable {cfg : Config} {s : Server} {c : ConnId} {conn : Connection} {uuid : JsString}
  {m : Envelope}

theorem join_verdict (hk : m.type = .roomJoin) :
    Verdict s c m.requestId (s.accepts cfg conn.participant m)
      (s.join cfg c conn uuid m.payload m.requestId) := by
  unfold Server.join
  cases hp : conn.participant with
  | some p => exact .refused _ _ (by simp [Server.accepts,hk])
  | none =>
    cases hj : joinRequest m.payload with
    | none => exact .refused _ _ (by simp [Server.accepts,hk,hj])
    | some r =>
      obtain ⟨roomId,displayName⟩ := r
      simp only [Option.isSome_none,Bool.false_eq_true,if_false]
      split
      · rename_i hsize
        exact .refused _ _ (by simpa [Server.accepts,hk,hj] using hsize)
      · rename_i hsize
        refine .accepted _ _ (by simpa [Server.accepts,hk,hj] using hsize) ?_
        intro x hx
        rcases List.mem_append.mp hx with hx | hx
        · exact send_not_error (by simp [Body.isError]) x hx
        · exact broadcast_not_error (by simp [Body.isError]) x hx

theorem relay_verdict {p : Participant} {room : Room} {k : SignalType}
    (hk : m.type = .signal k) (hr : s.roomOrNew p.roomId = room) :
    Verdict s c m.requestId (s.accepts cfg (some p) m)
      (s,s.relay c p room k m.payload m.requestId) := by
  unfold Server.relay
  split
  · rename_i hd
    refine .refused _ _ ?_
    cases ht : targetOf room m.payload with
    | none => simp [Server.accepts,hk,hr,ht]
    | some target =>
      have hid := Option.filter_eq_none_iff.mp hd target ht
      simp_all [Server.accepts]
  · rename_i target hd
    obtain ⟨hd,hne⟩ := Option.filter_eq_some_iff.mp hd
    split
    · rename_i hv
      exact .refused _ _ (by simp [Server.accepts,hk,hv])
    · rename_i signal hv
      refine .accepted _ _ ?_ (send_not_error (by simp [Body.isError]))
      simpa [Server.accepts,hk,hr,hd,hv] using hne

theorem act_verdict {p : Participant} {room : Room} {now : Nat}
    (hr : s.rooms.get p.roomId = some room) (hping : m.type ≠ .ping)
    (hcreate : m.type ≠ .roomCreate) :
    Verdict s c m.requestId (s.accepts cfg (some p) m) (s,s.act c p now m) := by
  unfold Server.act
  cases hk : m.type with
  | signal k =>
    simp only [hr]
    exact relay_verdict hk (by rw [Server.roomOrNew,hr,Option.getD_some])
  | chatSend =>
    cases hx : chatText m.payload with
    | none => exact .refused _ _ (by simp [Server.accepts,hk,hx])
    | some text =>
      simp only [hr]
      exact .accepted _ _ (by simp [Server.accepts,hk,hx])
        (broadcast_not_error (by simp [Body.isError]))
  | ping => exact absurd hk hping
  | roomCreate => exact absurd hk hcreate
  | roomJoin | unknown => exact .refused _ _ (by simp [Server.accepts,hk])

theorem dispatch_verdict (hr : ∀ p, conn.participant = some p →
    ∃ room, s.rooms.get p.roomId = some room) (now : Nat) :
    Verdict s c m.requestId (s.accepts cfg conn.participant m)
      (s.dispatch cfg c conn now uuid m) := by
  have hact : m.type ≠ .ping → m.type ≠ .roomCreate → m.type ≠ .roomJoin →
      Verdict s c m.requestId (s.accepts cfg conn.participant m)
        (s.dispatch cfg c conn now uuid m) := by
    intro hping hcreate hjoin
    cases hp : conn.participant with
    | none =>
      have hdispatch : s.dispatch cfg c conn now uuid m =
          (s,s.fail c 403 "Join a room first" m.requestId) := by
        unfold Server.dispatch
        cases hk : m.type <;> simp_all
      rw [hdispatch]
      refine .refused _ _ ?_
      cases hk : m.type <;> simp_all [Server.accepts]
    | some p =>
      have hdispatch : s.dispatch cfg c conn now uuid m = (s,s.act c p now m) := by
        unfold Server.dispatch
        cases hk : m.type <;> simp_all
      obtain ⟨room,hr⟩ := hr p hp
      rw [hdispatch]
      exact act_verdict hr hping hcreate
  cases hk : m.type with
  | ping =>
    simp only [Server.dispatch,hk]
    exact .accepted _ _ (by simp [Server.accepts,hk]) (send_not_error (by simp [Body.isError]))
  | roomCreate =>
    simp only [Server.dispatch,hk]
    exact .accepted _ _ (by simp [Server.accepts,hk]) (send_not_error (by simp [Body.isError]))
  | roomJoin =>
    simp only [Server.dispatch,hk]
    exact join_verdict hk
  | signal k => exact hact (by simp [hk]) (by simp [hk]) (by simp [hk])
  | chatSend => exact hact (by simp [hk]) (by simp [hk]) (by simp [hk])
  | unknown => exact hact (by simp [hk]) (by simp [hk]) (by simp [hk])

end

theorem onMessage_verdict (cfg : Config) {s : Server} (c : ConnId) {conn : Connection}
    (hr : ∀ p, conn.participant = some p → ∃ room, s.rooms.get p.roomId = some room)
    (now : Nat) (uuid : JsString) (data : Data) :
    Verdict (s.put c (conn.take cfg now)) c ((conn.validated cfg now data).bind Envelope.requestId)
      ((conn.validated cfg now data).any (s.accepts cfg conn.participant))
      (s.onMessage cfg c conn now uuid data) := by
  unfold Server.onMessage Connection.validated
  simp only
  split
  · exact .refused _ _ (by simp)
  · cases envelope data with
    | error message => exact .refused _ _ (by simp [Except.toOption])
    | ok m =>
      have hput : ∀ p, (conn.take cfg now).participant = some p →
          ∃ room, (s.put c (conn.take cfg now)).rooms.get p.roomId = some room := by
        simpa using hr
      rw [← take_participant cfg now conn]
      exact dispatch_verdict hput now

theorem message_step {cfg : Config} {s : Server} {c : ConnId} {conn : Connection}
    {uuid : JsString} (hc : s.alive c = some conn) (hu : uuid ∉ s.uuids) (now : Nat)
    (data : Data) : s.step cfg (.message c now uuid data) =
      some ({ s with uuids := uuid :: s.uuids }.onMessage cfg c conn now uuid data) := by
  simp [Server.step,Server.enabled,Server.handle,hc,hu]

structure Charged (s t : Server) (c : ConnId) (conn : Connection) : Prop where
  rooms : t.rooms = s.rooms
  participants : ∀ d, t.participantOf d = s.participantOf d
  others : ∀ d, d ≠ c → t.connections d = s.connections d
  limiter : ∃ tokens lastRefill,
    t.connections c = some { conn with tokens := tokens, lastRefill := lastRefill }

def Server.CanJoin (cfg : Config) (s : Server) (c : ConnId) : Prop :=
  ∀ conn now uuid data m roomId displayName, s.alive c = some conn → uuid ∉ s.uuids →
    conn.validated cfg now data = some m → m.type = .roomJoin →
    joinRequest m.payload = some (roomId,displayName) →
    (s.roomOrNew roomId).size < cfg.maxParticipants →
    ∃ t out, s.step cfg (.message c now uuid data) = some (t,out) ∧
      t.participantOf c = some ⟨uuid,displayName,roomId,c⟩

theorem charged_charge (cfg : Config) {s : Server} {c : ConnId} {conn : Connection}
    (hc : s.alive c = some conn) (now : Nat) (uuid : JsString) :
    Charged s (s.charge cfg c conn now uuid) c conn where
  rooms := rfl
  participants := charge_participantOf hc now uuid
  others := fun d hd => put_connections_ne _ _ hd
  limiter := by
    refine ⟨(conn.take cfg now).tokens,(conn.take cfg now).lastRefill,?_⟩
    rw [Server.charge,put_connections_self,Option.some.injEq]
    unfold Connection.take
    split <;> rfl

theorem validated_eq_some {cfg : Config} {conn : Connection} {now : Nat} {data : Data}
    {m : Envelope} : conn.validated cfg now data = some m ↔
      0 ≤ (conn.take cfg now).tokens ∧ envelope data = .ok m := by
  unfold Connection.validated
  split
  · simp only [reduceCtorEq,false_iff,not_and]
    omega
  · cases envelope data <;> simp [Except.toOption]
    omega

theorem canJoin {cfg : Config} {s : Server} {c : ConnId} (h : s.participantOf c = none) :
    s.CanJoin cfg c := by
  intro conn now uuid data m roomId displayName hc hu hm hk hj hsize
  obtain ⟨htokens,hm⟩ := validated_eq_some.mp hm
  have hp : conn.participant = none := by rw [← participantOf_alive hc,h]
  have hsize : ¬ ((s.charge cfg c conn now uuid).roomOrNew roomId).size ≥ cfg.maxParticipants :=
    Nat.not_le.mpr hsize
  obtain ⟨t,out,hr⟩ : ∃ t out, { s with uuids := uuid :: s.uuids }.onMessage cfg c conn now
      uuid data = (t,out) := ⟨_,_,rfl⟩
  have hjoin : ({ s with uuids := uuid :: s.uuids }.onMessage cfg c conn now uuid data).1 =
      (s.charge cfg c conn now uuid).enter c (conn.take cfg now)
        ⟨uuid,displayName,roomId,c⟩ := by
    unfold Server.onMessage
    simp only [if_neg (Int.not_lt.mpr htokens),hm,Server.dispatch,hk,Server.join,
      take_participant,hp,Option.isSome_none,Bool.false_eq_true,if_false,hj]
    rw [← Server.charge,if_neg hsize]
  rw [hr] at hjoin
  simp only at hjoin
  refine ⟨t,out,by rw [message_step hc hu now data,hr],?_⟩
  rw [hjoin]
  exact (participantOf_put _ c c _).trans (if_pos rfl)

/-- One message from an open socket, in any reachable state: it is answered with an error
exactly when the server owes it nothing else; the error is then alone, for the sender,
under the request's id, and only the sender's limiter has changed. -/
theorem rejected_atomic (cfg : Config) (es : List ServerEvent) (s : Server)
    (log : List Sent) (h : Server.run cfg es = some (s,log)) (c : ConnId) (conn : Connection)
    (hc : s.connections c = some conn) (ho : conn.readyState = .opened) (now : Nat)
    (uuid : JsString) (hu : uuid ∉ s.uuids) (data : Data) :
    ∃ t out, s.step cfg (.message c now uuid data) = some (t,out) ∧
      ((∃ x ∈ out, x.body.isError) ↔
        ¬ (conn.validated cfg now data).any (s.accepts cfg conn.participant)) ∧
      ((∃ x ∈ out, x.body.isError) →
        (∃ code message, out = [⟨c,.error code message,
          (conn.validated cfg now data).bind Envelope.requestId⟩]) ∧
        Charged s t c conn ∧ (conn.participant = none → t.CanJoin cfg c)) := by
  have halive : s.alive c = some conn := (alive_eq_some_iff s c conn).mpr ⟨hc,by simp [ho]⟩
  have hroom : ∀ p, conn.participant = some p → ∃ room, s.rooms.get p.roomId = some room := by
    intro p hp
    obtain ⟨_,room,hr,_⟩ := (roomStore_run h).joined c conn p halive hp
    exact ⟨room,hr⟩
  obtain ⟨t,out,hr⟩ : ∃ t out, { s with uuids := uuid :: s.uuids }.onMessage cfg c conn now
      uuid data = (t,out) := ⟨_,_,rfl⟩
  refine ⟨t,out,by rw [message_step halive hu now data,hr],?_⟩
  have hverdict := onMessage_verdict cfg (s := { s with uuids := uuid :: s.uuids }) c hroom
    now uuid data
  rw [hr,← Server.charge] at hverdict
  cases hverdict with
  | accepted t out ha hout =>
    have hnone : ¬ ∃ x ∈ out, x.body.isError := fun ⟨x,hx,he⟩ => hout x hx he
    exact ⟨⟨fun he => absurd he hnone,fun hn => absurd ha hn⟩,fun he => absurd he hnone⟩
  | refused code message ha =>
    have hopen : (s.charge cfg c conn now uuid).isOpen c := by
      simp [Server.isOpen,Server.charge,ho]
    have hfail : (s.charge cfg c conn now uuid).fail c code message
        ((conn.validated cfg now data).bind Envelope.requestId) =
        [⟨c,.error code (js message),(conn.validated cfg now data).bind Envelope.requestId⟩] :=
      if_pos hopen
    have hcharged := charged_charge cfg halive now uuid
    rw [hfail]
    refine ⟨⟨fun _ => ha,fun _ => ⟨_,List.mem_singleton_self _,rfl⟩⟩,fun _ => ?_⟩
    refine ⟨⟨code,_,rfl⟩,hcharged,fun hp => canJoin ?_⟩
    rw [hcharged.participants c,participantOf_alive halive,hp]

/-- A join under a blank name: refused under the request's id, and no room is left. -/
theorem rejected_atomic_blank_name :
    ∃ t, (Server.init.put 0 ⟨none,120,0,true,.opened⟩).step (defaultConfig [])
        (.message 0 1 (js "a") (joinMessage (js "room1") (js " ") (js "r0"))) =
        some (t,[⟨0,.error 400 (js "Invalid room ID or display name"),some (js "r0")⟩]) ∧
      t.rooms = OrderedMap.empty ∧ t.CanJoin (defaultConfig []) 0 := by
  have hrefused : ¬ ((⟨none,120,0,true,.opened⟩ : Connection).validated (defaultConfig []) 1
      (joinMessage (js "room1") (js " ") (js "r0"))).any
        ((Server.init.put 0 ⟨none,120,0,true,.opened⟩).accepts (defaultConfig []) none) := by
    decide +kernel
  obtain ⟨t,out,hstep,hiff,hatomic⟩ := rejected_atomic (defaultConfig []) [.connection 0 0]
    (Server.init.put 0 ⟨none,120,0,true,.opened⟩) [] rfl 0 ⟨none,120,0,true,.opened⟩ rfl rfl
    1 (js "a") (by decide) (joinMessage (js "room1") (js " ") (js "r0"))
  obtain ⟨_,hcharged,hjoin⟩ := hatomic (hiff.mpr hrefused)
  have hout : ((Server.init.put 0 ⟨none,120,0,true,.opened⟩).step (defaultConfig [])
      (.message 0 1 (js "a") (joinMessage (js "room1") (js " ") (js "r0")))).map Prod.snd =
      some [⟨0,.error 400 (js "Invalid room ID or display name"),some (js "r0")⟩] := by
    decide +kernel
  rw [hstep,Option.map_some,Option.some.injEq] at hout
  exact ⟨t,by rw [hstep]; exact congrArg (fun o => some (t,o)) hout,hcharged.rooms,hjoin rfl⟩

end MaiaMeet
