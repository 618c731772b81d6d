import MaiaMeet.Query
import MaiaMeet.Reject
import MaiaMeet.Settings
set_option autoImplicit false

/-! The lobby of app.js: what it lets through to a room, the invitation link it shows, and how the
server answers the room.join that comes of it. -/

namespace MaiaMeet

/-- `/^[a-zA-Z0-9]{3,32}$/` -/
def roomIdOk (id : JsString) : Prop := 3 ≤ id.length ∧ id.length ≤ 32 ∧ id.all isAlnum

instance (id : JsString) : Decidable (roomIdOk id) := inferInstanceAs (Decidable (_ ∧ _ ∧ _))

abbrev RoomId := {id : JsString // roomIdOk id}

/-- The value of the name's input, which has a maxlength of 50. -/
abbrev NameInput := {name : JsString // name.length ≤ 50}

/-- What `crypto.randomUUID` returns. -/
abbrev Uuid := {u : JsString // u.length = 36 ∧ u.count 45 = 4 ∧ ∀ x ∈ u, isAlnum x ∨ x = 45}

def generateRoomId (uuid : Uuid) : JsString := (uuid.val.filter (· ≠ 45)).take 16

/-- The alert, or what is kept for the join. -/
def setupPreview (secure : Bool) (name roomId : JsString) : Except JsString (JsString × RoomId) :=
  if h : roomIdOk roomId then
    if secure then .ok (name,⟨roomId,h⟩)
    else .error (js "Use HTTPS (or localhost) to access the camera and microphone")
  else .error (js "Room ID must contain 3–32 letters or numbers")

/-- The room's input, or the room of the link in it; `room` is `searchParams.get('room') || ''` of
a URL, and empty if that throws. -/
def lobbyRoom (room : JsString → JsString) (value : JsString) : JsString :=
  let roomId := trim value
  if js "http://" <+: roomId ∨ js "https://" <+: roomId then room roomId else roomId

inductive LobbyClick where
  | newMeeting (uuid : Uuid)
  | joinLobby (value : JsString)

/-- onNewMeeting and onJoinLobbyClick. -/
def LobbyClick.run (room : JsString → JsString) (secure : Bool) (displayName : NameInput) :
    LobbyClick → Except JsString (JsString × RoomId)
  | .newMeeting uuid =>
    let name := trim displayName.val
    if name = [] then .error (js "Please enter a display name")
    else setupPreview secure name (generateRoomId uuid)
  | .joinLobby value =>
    let name := trim displayName.val
    let roomId := lobbyRoom room value
    if name = [] then .error (js "Please enter a display name")
    else if roomId = [] then .error (js "Please enter a room ID")
    else setupPreview secure name roomId

theorem generateRoomId_ok (uuid : Uuid) : roomIdOk (generateRoomId uuid) := by
  obtain ⟨u,hlen,hcount,hall⟩ := uuid
  have hsum := List.length_eq_countP_add_countP (fun x => decide (x ≠ 45)) (l := u)
  have hdash : u.countP (fun x => decide (¬decide (x ≠ 45) = true)) = u.count 45 := by
    refine List.countP_congr (fun x _ => ?_)
    simp
  have hfilter : (u.filter (· ≠ 45)).length = 32 := by
    rw [← List.countP_eq_length_filter]
    omega
  have htake : (generateRoomId ⟨u,hlen,hcount,hall⟩).length = 16 := by
    rw [generateRoomId,List.length_take,hfilter]
    rfl
  refine ⟨by omega,by omega,List.all_eq_true.mpr (fun x hx => ?_)⟩
  obtain ⟨hx,hne⟩ := List.mem_filter.mp (List.mem_of_mem_take hx)
  exact (hall x hx).resolve_right (of_decide_eq_true hne)

theorem setupPreview_ok {secure : Bool} {name roomId name' : JsString} {id : RoomId} :
    setupPreview secure name roomId = .ok (name',id) ↔
      secure ∧ name' = name ∧ id.val = roomId := by
  rw [setupPreview]
  by_cases hid : roomIdOk roomId
  · rw [dif_pos hid]
    cases secure with
    | false => simp
    | true =>
      simp only [if_true,Except.ok.injEq,Prod.mk.injEq,Subtype.ext_iff,true_and]
      exact ⟨fun h => ⟨h.1.symm,h.2.symm⟩,fun h => ⟨h.1.symm,h.2.symm⟩⟩
  · rw [dif_neg hid]
    refine ⟨fun h => (by cases h),?_⟩
    rintro ⟨_,_,rfl⟩
    exact absurd id.property hid

/-- What the lobby lets through: a trimmed name of up to 50 units, and a room id. -/
theorem run_ok {room : JsString → JsString} {secure : Bool} {displayName : NameInput}
    {click : LobbyClick} {name : JsString} {id : RoomId}
    (h : click.run room secure displayName = .ok (name,id)) :
    name = trim displayName.val ∧ name ≠ [] := by
  have hrun : ∀ roomId, trim displayName.val ≠ [] →
      setupPreview secure (trim displayName.val) roomId = .ok (name,id) →
      name = trim displayName.val ∧ name ≠ [] := by
    intro roomId hne h
    obtain ⟨_,rfl,_⟩ := setupPreview_ok.mp h
    exact ⟨rfl,hne⟩
  cases click with
  | newMeeting uuid =>
    simp only [LobbyClick.run] at h
    split at h
    · cases h
    · exact hrun _ (by assumption) h
  | joinLobby value =>
    simp only [LobbyClick.run] at h
    split at h
    · cases h
    · split at h
      · cases h
      · exact hrun _ (by assumption) h

/-- The server's check agrees with the lobby's. -/
theorem joinRequest_lobby {name : JsString} (id : RoomId) (hlen : name.length ≤ 50)
    (hne : name ≠ []) (htrim : trim name = name) :
    joinRequest (.obj [(js "roomId",.str id.val),(js "displayName",.str name)]) =
      some (id.val,name) := by
  have hkeys : js "roomId" ≠ js "displayName" := by decide
  have hok : (3 ≤ id.val.length ∧ id.val.length ≤ 32 ∧ id.val.all isAlnum) ∧
      trim name ≠ [] ∧ name.length ≤ 50 := ⟨id.property,by rwa [htrim],hlen⟩
  simp only [joinRequest,get_cons_self,get_cons_ne _ _ hkeys,Json.string?]
  rw [if_pos hok,htrim]

structure Refused (s : Server) (c : ConnId) (conn : Connection) (t : Server) (out : List Sent)
    (code : Nat) (message : String) (requestId : Option JsString) : Prop where
  charged : Charged s t c conn
  out_eq : out = t.fail c code message requestId

/-- A room.join that came through the lobby, in every state of the server: it is refused for the
rate, a second join or a full room, by the error that says so, and else it is a join under the
name and room that the lobby keeps. It is never refused as malformed. -/
theorem lobby_join_answered (cfg : Config) {room : JsString → JsString} {secure : Bool}
    {displayName : NameInput} {click : LobbyClick} {name : JsString} {id : RoomId}
    (hclick : click.run room secure displayName = .ok (name,id)) (s : Server) {c : ConnId}
    {conn : Connection} (hc : s.alive c = some conn) (now : Nat) {uuid : JsString}
    (hu : uuid ∉ s.uuids) (requestId : JsString) :
    ∃ t out, s.step cfg (.message c now uuid (joinMessage id.val name requestId)) = some (t,out) ∧
      if (conn.take cfg now).tokens < 0 then
        Refused s c conn t out 429 "Rate limit exceeded" none
      else if conn.participant.isSome then
        Refused s c conn t out 409 "Already joined a room" (some requestId)
      else if cfg.maxParticipants ≤ (s.roomOrNew id.val).size then
        Refused s c conn t out 409 "Room is full" (some requestId)
      else
        t.participantOf c = some ⟨uuid,name,id.val,c⟩ ∧ (∀ d, d ≠ c → t.participantOf d =
          s.participantOf d) ∧ (conn.readyState = .opened →
            ⟨c,.roomJoined uuid id.val ((t.roomOrNew id.val).values.map publicParticipant)
              cfg.rtcConfig,some requestId⟩ ∈ out) := by
  obtain ⟨rfl,hne⟩ := run_ok hclick
  have hlen := Nat.le_trans (trim_length_le displayName.val) displayName.property
  have hj := joinRequest_lobby id hlen hne (trim_trim displayName.val)
  have henv : envelope (joinMessage id.val (trim displayName.val) requestId) = .ok ⟨.roomJoin,
      .obj [(js "roomId",.str id.val),(js "displayName",.str (trim displayName.val))],
      some requestId⟩ := envelope_clientMessage _ _ _
  have hcharged := charged_charge cfg hc now uuid
  obtain ⟨t,out,hr⟩ : ∃ t out, { s with uuids := uuid :: s.uuids }.onMessage cfg c conn now uuid
      (joinMessage id.val (trim displayName.val) requestId) = (t,out) := ⟨_,_,rfl⟩
  refine ⟨t,out,by rw [message_step hc hu now,hr],?_⟩
  unfold Server.onMessage at hr
  simp only [henv] at hr
  rw [← Server.charge] at hr
  by_cases htokens : (conn.take cfg now).tokens < 0
  · rw [if_pos htokens] at hr ⊢
    cases hr
    exact ⟨hcharged,rfl⟩
  · rw [if_neg htokens] at hr ⊢
    simp only [Server.dispatch,Server.join,take_participant,hj] at hr
    cases hp : conn.participant with
    | some p =>
      simp only [hp,Option.isSome_some,if_true] at hr ⊢
      cases hr
      exact ⟨hcharged,rfl⟩
    | none =>
      simp only [hp,Option.isSome_none,Bool.false_eq_true,if_false] at hr ⊢
      by_cases hsize : cfg.maxParticipants ≤ (s.roomOrNew id.val).size
      · have hfull : ((s.charge cfg c conn now uuid).roomOrNew id.val).size ≥
            cfg.maxParticipants := hsize
        rw [if_pos hfull] at hr
        rw [if_pos hsize]
        cases hr
        exact ⟨hcharged,rfl⟩
      · have hplace : ¬((s.charge cfg c conn now uuid).roomOrNew id.val).size ≥
            cfg.maxParticipants := hsize
        rw [if_neg hplace] at hr
        rw [if_neg hsize]
        cases hr
        have hof := fun d => participantOf_put (s.charge cfg c conn now uuid) c d
          { conn.take cfg now with participant := some ⟨uuid,trim displayName.val,id.val,c⟩ }
        refine ⟨(hof c).trans (if_pos rfl),fun d hd => ?_,fun ho => ?_⟩
        · exact ((hof d).trans (if_neg hd)).trans (charge_participantOf hc now uuid d)
        · refine List.mem_append_left _ (mem_send.mpr ⟨?_,rfl⟩)
          simp [Server.isOpen,Server.enter,Server.put,ho]

theorem annInput_ok : (js "Ann ").length ≤ 50 := by decide
theorem room1_ok : roomIdOk (js "room1") := by decide

def annInput : NameInput := ⟨js "Ann ",annInput_ok⟩
def room1 : RoomId := ⟨js "room1",room1_ok⟩

/-- Ann joins on the first connection of a new server. -/
theorem lobby_join_answered_first : ∃ t out,
    (Server.init.put 0 ⟨none,120,0,true,.opened⟩).step (defaultConfig []) (.message 0 1 (js "a")
        (joinMessage (js "room1") (js "Ann") (js "r0"))) = some (t,out) ∧
      t.participantOf 0 = some ⟨js "a",js "Ann",js "room1",0⟩ := by
  have hclick : (LobbyClick.joinLobby (js " room1")).run id true annInput =
      .ok (js "Ann",room1) := rfl
  have hc : (Server.init.put 0 ⟨none,120,0,true,.opened⟩).alive 0 =
      some ⟨none,120,0,true,.opened⟩ := rfl
  have hu : js "a" ∉ (Server.init.put 0 ⟨none,120,0,true,.opened⟩).uuids := by
    simp [Server.init,Server.put]
  obtain ⟨t,out,hstep,h⟩ := lobby_join_answered (defaultConfig []) hclick _ hc 1 hu (js "r0")
  rw [if_neg (by decide),if_neg (by decide),if_neg (by decide)] at h
  exact ⟨t,out,hstep,h.1⟩

/-- The address of a page, as `href` gives it: no space, and a query that begins with the first
question mark and ends before the first number sign. -/
structure Href where
  start : JsString
  query : Option JsString
  fragment : Option JsString
  web : js "http://" <+: start ∨ js "https://" <+: start
  start_ok : ∀ u ∈ start, u ≠ 63 ∧ u ≠ 35 ∧ isSpace u = false
  query_ok : ∀ u ∈ query.getD [], u ≠ 35 ∧ isSpace u = false ∧ u < 128
  fragment_ok : ∀ u ∈ fragment.getD [], isSpace u = false

namespace Href

def text (h : Href) : JsString :=
  h.start ++ h.query.elim [] (63 :: ·) ++ h.fragment.elim [] (35 :: ·)

def params (h : Href) : Query.Params := Query.parse (h.query.getD [])

theorem serialize_ok (params : Query.Params) :
    ∀ u ∈ (some (Query.serialize params)).getD [], u ≠ 35 ∧ isSpace u = false ∧ u < 128 := by
  intro u hu
  have hplain : ∀ k : Fin 128, Query.plain (UInt16.ofNat k) → UInt16.ofNat k ≠ 35 ∧
      isSpace (UInt16.ofNat k) = false ∧ UInt16.ofNat k < 128 := by decide +kernel
  rcases Query.serialize_plain hu with h | rfl | rfl
  · have hu := hplain ⟨u.toNat,Query.plain_lt h⟩
    rw [UInt16.ofNat_toNat] at hu
    exact hu h
  · decide
  · decide

/-- `url.searchParams.set`; the text of a list that is not empty is not empty. -/
def setParam (h : Href) (name value : List UInt8) : Href :=
  { h with
    query := some (Query.serialize (Query.set h.params name value))
    query_ok := serialize_ok _ }

end Href

def octets (s : JsString) : List UInt8 := s.map UInt16.toUInt8
def ofOctets (l : List UInt8) : JsString := l.map UInt8.toUInt16

/-- `invite.searchParams.set('room', currentRoomId)` of the page's address. -/
def Href.invite (h : Href) (id : RoomId) : Href := h.setParam (octets (js "room")) (octets id.val)

/-- `searchParams.get('room') || ''`, where that is ASCII. -/
def Href.room (h : Href) : JsString := ofOctets ((Query.get h.params (octets (js "room"))).getD [])

theorem text_octets {s : JsString} (h : s.all isAlnum) : ofOctets (octets s) = s := by
  rw [ofOctets,octets,List.map_map]
  refine (List.map_congr_left (fun u hu => ?_)).trans (List.map_id s)
  have hlt := isAlnum_lt (List.all_eq_true.mp h u hu)
  refine UInt16.toNat_inj.mp ?_
  simp
  omega

theorem octets_ascii {s : JsString} (h : s.all isAlnum) : ∀ b ∈ octets s, b < 128 := by
  intro b hb
  obtain ⟨u,hu,rfl⟩ := List.mem_map.mp hb
  have hlt := isAlnum_lt (List.all_eq_true.mp h u hu)
  rw [UInt8.lt_iff_toNat_lt]
  simp
  omega

theorem alnum_not_space {s : JsString} (h : s.all isAlnum) : ∀ u ∈ s, isSpace u = false := by
  have hall : ∀ k : Fin 128, isAlnum (UInt16.ofNat k) → isSpace (UInt16.ofNat k) = false := by
    decide +kernel
  intro u hu
  have hspace := hall ⟨u.toNat,isAlnum_lt (List.all_eq_true.mp h u hu)⟩
  rw [UInt16.ofNat_toNat] at hspace
  exact hspace (List.all_eq_true.mp h u hu)

namespace Href

theorem text_not_space (h : Href) : ∀ u ∈ h.text, isSpace u = false := by
  intro u hu
  rcases List.mem_append.mp hu with hu | hu
  · rcases List.mem_append.mp hu with hu | hu
    · exact (h.start_ok u hu).2.2
    · cases hq : h.query with
      | none => simp [hq] at hu
      | some q =>
        rw [hq] at hu
        rcases List.mem_cons.mp hu with rfl | hu
        · decide
        · exact (h.query_ok u (by rw [hq]; exact hu)).2.1
  · cases hf : h.fragment with
    | none => simp [hf] at hu
    | some f =>
      rw [hf] at hu
      rcases List.mem_cons.mp hu with rfl | hu
      · decide
      · exact h.fragment_ok u (by rw [hf]; exact hu)

theorem text_web (h : Href) : js "http://" <+: h.text ∨ js "https://" <+: h.text := by
  rw [text,List.append_assoc]
  exact h.web.imp (·.trans (List.prefix_append _ _)) (·.trans (List.prefix_append _ _))

theorem params_setParam (h : Href) {name value : List UInt8} (hname : Utf8.decode name = name)
    (hvalue : Utf8.decode value = value) :
    (h.setParam name value).params = Query.set h.params name value :=
  Query.parse_serialize (Query.set_texts _ _ _ (Query.parse_texts _) hname hvalue)

theorem params_invite (h : Href) (id : RoomId) :
    (h.invite id).params = Query.set h.params (octets (js "room")) (octets id.val) :=
  h.params_setParam (by decide) (Utf8.decode_ascii (octets_ascii id.property.2.2))

theorem invite_invite (h : Href) (id : RoomId) : (h.invite id).invite id = h.invite id := by
  have hset : Query.set (h.invite id).params (octets (js "room")) (octets id.val) =
      Query.set h.params (octets (js "room")) (octets id.val) := by
    rw [params_invite,Query.set_set]
  have hquery : ((h.invite id).invite id).query = (h.invite id).query :=
    congrArg (some ∘ Query.serialize) hset
  cases h
  simpa [invite,setParam] using hquery

theorem room_invite (h : Href) (id : RoomId) : (h.invite id).room = id.val := by
  rw [room,params_invite,Query.get_set]
  exact text_octets id.property.2.2

end Href

/-- A room id is no link. -/
theorem not_web {id : JsString} (h : id.all isAlnum) :
    ¬(js "http://" <+: id ∨ js "https://" <+: id) := by
  have hcolon : ∀ {p : JsString}, 58 ∈ p → ¬p <+: id := fun hp hpre =>
    absurd (List.all_eq_true.mp h 58 (hpre.subset hp)) (by decide)
  exact not_or.mpr ⟨hcolon (by decide),hcolon (by decide)⟩

theorem run_join {room : JsString → JsString} {displayName : NameInput} {value : JsString}
    {id : RoomId} (hname : trim displayName.val ≠ []) (hroom : lobbyRoom room value = id.val) :
    (LobbyClick.joinLobby value).run room true displayName = .ok (trim displayName.val,id) := by
  have hne : id.val ≠ [] := by
    intro h
    have hlen := id.property.1
    rw [h] at hlen
    simp at hlen
  simp only [LobbyClick.run,hroom]
  rw [if_neg hname,if_neg hne]
  exact setupPreview_ok.mpr ⟨rfl,rfl,rfl⟩

def queryOf (text : JsString) : JsString :=
  ((text.takeWhile (· ≠ 35)).dropWhile (· ≠ 63)).drop 1

theorem queryOf_text (h : Href) : queryOf h.text = h.query.getD [] := by
  have hstart : ∀ u ∈ h.start, decide (u ≠ 35) = true := fun u hu => decide_eq_true (h.start_ok u hu).2.1
  have hstart' : ∀ u ∈ h.start, decide (u ≠ 63) = true := fun u hu => decide_eq_true (h.start_ok u hu).1
  have hend : (h.fragment.elim [] (35 :: ·)).takeWhile (fun u => decide (u ≠ 35)) = [] := by
    cases h.fragment <;> rfl
  have hquery : ∀ u ∈ h.query.elim [] (63 :: ·), decide (u ≠ 35) = true := by
    intro u hu
    cases hq : h.query with
    | none => simp [hq] at hu
    | some q =>
      rw [hq] at hu
      rcases List.mem_cons.mp hu with rfl | hu
      · rfl
      · exact decide_eq_true (h.query_ok u (by rw [hq]; exact hu)).1
  rw [queryOf,Href.text,List.append_assoc,List.takeWhile_append_of_pos hstart,
    List.takeWhile_append_of_pos hquery,hend,List.append_nil,List.dropWhile_append_of_pos hstart']
  cases h.query <;> rfl

def roomOf (text : JsString) : JsString :=
  ofOctets ((Query.get (Query.parse (queryOf text)) (octets (js "room"))).getD [])

theorem meetStart_ok : ∀ u ∈ js "https://meet.example/meet/",
    u ≠ 63 ∧ u ≠ 35 ∧ isSpace u = false := units_of_all (by decide)
theorem meetQuery_ok : ∀ u ∈ js "x=%FF&lang=pt&room=old", u ≠ 35 ∧ isSpace u = false ∧ u < 128 :=
  units_of_all (by decide)

def oldPage : Href where
  start := js "https://meet.example/meet/"
  query := some (js "x=%FF&lang=pt&room=old")
  fragment := none
  web := .inr (by decide)
  start_ok := meetStart_ok
  query_ok := meetQuery_ok
  fragment_ok := by simp

end MaiaMeet
