import MaiaMeet.Transcript
import MaiaMeet.Reject
set_option autoImplicit false

/-! Chat and presence notices: who is sent a notice at one event, and in which order any two
connections are sent the notices of a run. -/

namespace MaiaMeet

def Body.isChat : Body → Bool
  | .chatMessage _ _ _ _ => true
  | _ => false

def Body.isNotice : Body → Bool
  | .chatMessage _ _ _ _ | .participantJoined _ | .participantLeft _ => true
  | _ => false

/-- The chat.send an event brings, if the server accepts it: sender, trimmed text, time. -/
def Server.chat (cfg : Config) (s : Server) : ServerEvent → Option (Participant × JsString × Nat)
  | .message c now _ data => do
    let conn ← s.alive c
    let m ← conn.validated cfg now data
    let p ← conn.participant
    if m.type = .chatSend then (chatText m.payload).map (fun text => (p,text,now)) else none
  | _ => none

def Server.present (s : Server) (r : JsString) (c : ConnId) : Bool :=
  (s.roomOrNew r).values.any (fun p => p.ws = c) && s.isOpen c

def Server.outputs (cfg : Config) : Server → List ServerEvent → List (List Sent)
  | _, [] => []
  | s, e :: es =>
    match s.step cfg e with
    | none => []
    | some (t,out) => out :: t.outputs cfg es

/-- The notices sent to a connection, each with the number of the event that caused it. -/
def notices (c : ConnId) : Nat → List (List Sent) → List (Nat × Body)
  | _, [] => []
  | k, out :: outs =>
    (out.filter (fun m => m.ws = c ∧ m.body.isNotice)).map (fun m => (k,m.body)) ++
      notices c (k+1) outs

theorem run_outputs {cfg : Config} {s t : Server} {es : List ServerEvent} {log log' : List Sent}
    (h : Runs.exec (Server.advance cfg) (s,log) es = some (t,log')) :
    log' = log ++ (s.outputs cfg es).flatten := by
  induction es generalizing s log with
  | nil => cases h; simp [Server.outputs]
  | cons e es ih =>
    obtain ⟨⟨u,log''⟩,hstep,hrun⟩ := Runs.exec_cons_some.mp h
    obtain ⟨out,hstep,rfl⟩ := advance_eq_some.mp hstep
    simp only at hstep
    rw [ih hrun]
    simp [Server.outputs,hstep]

section
variable {cfg : Config} {s t : Server} {c d : ConnId} {r : JsString}

theorem RoomStore.present_iff (hs : RoomStore cfg s) :
    s.present r c ↔ s.isOpen c ∧ ∃ p, s.participantOf c = some p ∧ p.roomId = r := by
  unfold Server.present
  rw [Bool.and_eq_true,and_comm,and_congr_right_iff]
  intro ho
  obtain ⟨conn,hc⟩ := isOpen_alive ho
  rw [List.any_eq_true]
  constructor
  · rintro ⟨p,hp,hw⟩
    cases hr : s.rooms.get r with
    | none => simp [Server.roomOrNew,hr] at hp
    | some room =>
      simp only [Server.roomOrNew,hr,Option.getD_some] at hp
      obtain ⟨i,hi⟩ := (room.mem_values_iff p).mp hp
      obtain ⟨_,hpr,hof⟩ := hs.participantOf hr hi (by simpa using hw)
      exact ⟨p,hof,hpr⟩
  · rintro ⟨p,hp,rfl⟩
    obtain ⟨room,hr,hi,_⟩ := hs.own_entry hc hp
    rw [participantOf_alive hc] at hp
    have hw := (hs.joined c conn p hc hp).1
    exact ⟨p,by simpa [Server.roomOrNew,hr] using (room.mem_values_iff p).mpr ⟨_,hi⟩,by simpa using hw⟩

theorem RoomStore.broadcast_present (hs : RoomStore cfg s) (r : JsString) (body : Body)
    (except : Option JsString) (c : ConnId) :
    (s.broadcast (s.roomOrNew r) body except).filter (fun m => m.ws = c) =
      if s.present r c ∧ (except = none ∨ (s.participantOf c).map Participant.id ≠ except) then
        [⟨c,body,none⟩] else [] := by
  cases hr : s.rooms.get r with
  | none =>
    simp [Server.present,Server.roomOrNew,hr,Server.broadcast]
  | some room =>
    have hroom : s.roomOrNew r = room := by simp [Server.roomOrNew,hr]
    rw [hroom]
    split
    · rename_i h
      obtain ⟨ho,p,hp,rfl⟩ := hs.present_iff.mp h.1
      refine broadcast_member hs body ho hp hr ?_
      have he := h.2
      rw [hp] at he
      rcases he with rfl | he
      · simp
      · simpa using he
    · rename_i h
      rcases broadcast_to (c := c) hs body except hr with hb | ⟨p,ho,hp,hpr,he,_⟩
      · exact hb
      · exact absurd ⟨hs.present_iff.mpr ⟨ho,p,hp,hpr⟩,Or.inr (by rw [hp]; exact he)⟩ h

theorem filter_notice (out : List Sent) (c : ConnId) :
    out.filter (fun m => m.ws = c ∧ m.body.isNotice) =
      (out.filter (fun m => m.ws = c)).filter (fun m => m.body.isNotice) := by
  rw [List.filter_filter]
  apply List.filter_congr
  intro m _
  simp [Bool.and_comm]

/-- The notices of one step: none, or one for all that are present in a room after it,
but for a newcomer the notice is about. -/
inductive Announces (s t : Server) (out : List Sent) : Prop where
  | silent (h : ∀ m ∈ out, ¬ m.body.isNotice)
  | announced (r : JsString) (body : Body) (newcomer : Option ConnId)
      (hn : ∀ c, newcomer = some c → s.participantOf c = none)
      (h : ∀ c, out.filter (fun m => m.ws = c ∧ m.body.isNotice) =
        if t.present r c ∧ newcomer ≠ some c then [⟨c,body,none⟩] else [])

theorem announces_broadcast (ht : RoomStore cfg t) (r : JsString) {body : Body}
    (hb : body.isNotice) : Announces s t (t.broadcast (t.roomOrNew r) body none) := by
  refine .announced r body none (by simp) ?_
  intro c
  rw [filter_notice,ht.broadcast_present r body none c]
  by_cases hc : t.present r c <;> simp [hc,hb]

theorem announces_joined (ht : RoomStore cfg t) {p : Participant}
    {requestId : Option JsString} (hd : s.participantOf d = none)
    (hp : t.participantOf d = some p) (hother : ∀ c q, t.participantOf c = some q →
      q.id = p.id → c = d) :
    Announces s t (t.send d (.roomJoined p.id p.roomId
        ((t.roomOrNew p.roomId).values.map publicParticipant) cfg.rtcConfig) requestId ++
      t.broadcast (t.roomOrNew p.roomId) (.participantJoined (publicParticipant p))
        (some p.id)) := by
  refine .announced p.roomId (.participantJoined (publicParticipant p)) (some d) ?_ ?_
  · intro c hc
    cases hc
    exact hd
  · intro c
    have hsend : (t.send d (.roomJoined p.id p.roomId
        ((t.roomOrNew p.roomId).values.map publicParticipant) cfg.rtcConfig) requestId).filter
        (fun m => m.ws = c ∧ m.body.isNotice) = [] := by
      rw [List.filter_eq_nil_iff]
      intro m hm
      obtain ⟨_,rfl⟩ := mem_send.mp hm
      simp [Body.isNotice]
    rw [List.filter_append,hsend,List.nil_append,filter_notice,
      ht.broadcast_present p.roomId _ (some p.id) c]
    by_cases hc : t.present p.roomId c
    · obtain ⟨_,q,hq,_⟩ := ht.present_iff.mp hc
      have hiff : q.id = p.id ↔ d = c := by
        constructor
        · intro he
          exact (hother c q hq he).symm
        · rintro rfl
          rw [hp,Option.some.injEq] at hq
          rw [hq]
      by_cases he : d = c <;> simp [hc,hq,hiff,he,Body.isNotice]
    · simp [hc]

theorem announces_step (hs : RoomStore cfg s) {e : ServerEvent} {out : List Sent}
    (h : s.step cfg e = some (t,out)) : Announces s t out := by
  have ht := roomStore_step hs h
  cases step_effect h with
  | connected | kept | closed => exact .silent (by simp)
  | left d conn p room hd hp hr =>
    generalize htt : ({ s.put d { conn with readyState := .closed } with
      rooms := if (room.delete p.id).size = 0
        then (s.rooms.set p.roomId (room.delete p.id)).delete p.roomId
        else s.rooms.set p.roomId (room.delete p.id) } : Server) = t at ht ⊢
    have hget := get_leave_rooms s.rooms (room.delete p.id) p.roomId p.roomId
    have hvalues : (t.roomOrNew p.roomId).values = (room.delete p.id).values := by
      rw [← htt,Server.roomOrNew,hget,if_pos rfl]
      split
      · rename_i hz
        have hnil : (room.delete p.id).entries = [] := List.length_eq_zero_iff.mp hz
        rw [OrderedMap.values,OrderedMap.values,hnil]
        rfl
      · rfl
    have hout : (s.put d { conn with readyState := .closed }).broadcast (room.delete p.id)
        (.participantLeft p.id) none =
        t.broadcast (t.roomOrNew p.roomId) (.participantLeft p.id) none := by
      unfold Server.broadcast
      rw [hvalues,← htt]
      rfl
    rw [hout]
    exact announces_broadcast ht p.roomId rfl
  | handled d conn now uuid data t out hd hu ho =>
    cases ho with
    | reply body requestId hb =>
      refine .silent ?_
      intro m hm
      obtain ⟨_,rfl⟩ := mem_send.mp hm
      cases body <;> simp_all [Body.isReply,Body.isNotice]
    | joined m roomId displayName htk hm hk hp hj hsize =>
      have hof : ∀ c, ((s.charge cfg d conn now uuid).enter d (conn.take cfg now)
          ⟨uuid,displayName,roomId,d⟩).participantOf c =
          if c = d then some ⟨uuid,displayName,roomId,d⟩
          else (s.charge cfg d conn now uuid).participantOf c :=
        fun c => participantOf_put _ d c _
      refine announces_joined (p := ⟨uuid,displayName,roomId,d⟩) ht ?_
        ((hof d).trans (if_pos rfl)) ?_
      · rw [participantOf_alive hd,← take_participant cfg now,hp]
      · intro c q hq hid
        rw [hof] at hq
        by_contra hcd
        rw [if_neg hcd,charge_participantOf hd] at hq
        obtain ⟨k,hk,hkq⟩ := Option.bind_eq_some_iff.mp hq
        have hissued := hs.issued c k q hk hkq
        rw [hid] at hissued
        exact hu hissued
    | relayed m k p q room signal htk hm hk hp hr hq hne hv =>
      refine .silent ?_
      intro m hm
      obtain ⟨_,rfl⟩ := mem_send.mp hm
      simp [Body.isNotice]
    | chatted m p room text htk hm hk hp hr hx =>
      have hroom : (s.charge cfg d conn now uuid).roomOrNew p.roomId = room := by
        simp [Server.roomOrNew,hr]
      rw [← hroom]
      exact announces_broadcast ht p.roomId rfl

theorem isOpen_charge {conn : Connection} (hd : s.alive d = some conn) (now : Nat)
    (uuid : JsString) (c : ConnId) :
    (s.charge cfg d conn now uuid).isOpen c = s.isOpen c := by
  by_cases hc : c = d
  · subst hc
    simp [Server.isOpen,Server.charge,((alive_eq_some_iff s c conn).mp hd).1]
  · simp [Server.isOpen,Server.charge,put_connections_ne _ _ hc]

theorem present_charge {conn : Connection} (hd : s.alive d = some conn) (now : Nat)
    (uuid : JsString) (r : JsString) (c : ConnId) :
    (s.charge cfg d conn now uuid).present r c = s.present r c := by
  unfold Server.present
  rw [isOpen_charge hd]
  rfl

/-- An accepted chat.send goes to all that are present in the sender's room. -/
theorem chat_step (hs : RoomStore cfg s) {e : ServerEvent} {out : List Sent}
    {p : Participant} {text : JsString} {now : Nat} (h : s.step cfg e = some (t,out))
    (hchat : s.chat cfg e = some (p,text,now)) (c : ConnId) :
    out.filter (fun m => m.ws = c) =
      if s.present p.roomId c then [⟨c,.chatMessage p.id p.displayName text now,none⟩]
      else [] := by
  have ht := roomStore_step hs h
  cases e with
  | connection | pong | heartbeat | closing | close => cases hchat
  | message d now' uuid data =>
    simp only [Server.chat,Option.bind_eq_bind,Option.bind_eq_some_iff,
      Option.ite_none_right_eq_some,Option.map_eq_some_iff,Prod.mk.injEq] at hchat
    obtain ⟨conn,hd,m,hm,q,hq,hk,text',hx,rfl,rfl,rfl⟩ := hchat
    obtain ⟨htokens,hm⟩ := validated_eq_some.mp hm
    obtain ⟨_,room,hr,_⟩ := hs.joined d conn q hd hq
    have hu : uuid ∉ s.uuids := by
      unfold Server.step at h
      split at h
      · rename_i he
        simp only [Server.enabled,Bool.and_eq_true,decide_eq_true_eq] at he
        exact he.2
      · cases h
    have hroom : s.roomOrNew q.roomId = room := by simp [Server.roomOrNew,hr]
    have hcharge := (hs.charge hd now' uuid).broadcast_present q.roomId
      (.chatMessage q.id q.displayName text' now') none c
    have hout : out = (s.charge cfg d conn now' uuid).broadcast
        ((s.charge cfg d conn now' uuid).roomOrNew q.roomId)
        (.chatMessage q.id q.displayName text' now') none := by
      rw [message_step hd hu now' data,Option.some.injEq] at h
      have hsnd := congrArg Prod.snd h
      simp only at hsnd
      rw [← hsnd]
      unfold Server.onMessage
      simp only [if_neg (Int.not_lt.mpr htokens),hm,Server.dispatch,hk,take_participant,hq,
        Server.act,hx,put_rooms,hr]
      have : (s.charge cfg d conn now' uuid).roomOrNew q.roomId = room := hroom
      rw [this]
      rfl
    rw [hout,hcharge,present_charge hd]
    simp

theorem chat_of_mem {e : ServerEvent} {out : List Sent} (h : s.step cfg e = some (t,out))
    {m : Sent} (hm : m ∈ out) (hb : m.body.isChat) : (s.chat cfg e).isSome := by
  cases step_effect h with
  | connected | kept | closed => cases hm
  | left =>
    obtain ⟨_,_,_,_,rfl⟩ := mem_broadcast.mp hm
    cases hb
  | handled d conn now uuid data t out hd hu ho =>
    cases ho with
    | reply body requestId hrep =>
      obtain ⟨_,rfl⟩ := mem_send.mp hm
      cases body <;> simp_all [Body.isReply,Body.isChat]
    | joined =>
      rcases List.mem_append.mp hm with hm | hm
      · obtain ⟨_,rfl⟩ := mem_send.mp hm
        cases hb
      · obtain ⟨_,_,_,_,rfl⟩ := mem_broadcast.mp hm
        cases hb
    | relayed =>
      obtain ⟨_,rfl⟩ := mem_send.mp hm
      cases hb
    | chatted env p room text htk henv hk hp hr hx =>
      rw [take_participant] at hp
      have hv : conn.validated cfg now data = some env := validated_eq_some.mpr ⟨htk,henv⟩
      simp [Server.chat,hd,hv,hp,hk,hx]

end

theorem filter_mem_of_sublist {α : Type} [BEq α] [LawfulBEq α] {l n : List α} (hn : n.Nodup)
    (h : l.Sublist n) : n.filter (fun x => x ∈ l) = l := by
  induction h with
  | slnil => rfl
  | cons a h ih =>
    obtain ⟨ha,hn⟩ := List.nodup_cons.mp hn
    rw [List.filter_cons_of_neg (by simpa using fun hl => ha (h.subset hl)),ih hn]
  | cons_cons a h ih =>
    obtain ⟨ha,hn⟩ := List.nodup_cons.mp hn
    rw [List.filter_cons_of_pos (by simp)]
    refine congrArg (List.cons a) (Eq.trans (List.filter_congr ?_) (ih hn))
    intro x hx
    have hxa : x ≠ a := by
      rintro rfl
      exact ha hx
    simp [hxa]

/-- Two selections from one sequence agree on the order of what they share. -/
theorem filter_mem_comm {α : Type} [BEq α] [LawfulBEq α] {l m n : List α} (hn : n.Nodup)
    (hl : l.Sublist n) (hm : m.Sublist n) :
    l.filter (fun x => x ∈ m) = m.filter (fun x => x ∈ l) := by
  conv_lhs => rw [← filter_mem_of_sublist hn hl]
  conv_rhs => rw [← filter_mem_of_sublist hn hm]
  rw [List.filter_filter,List.filter_filter]
  apply List.filter_congr
  intro x _
  simp [Bool.and_comm]

def announcements : Nat → List (List Sent) → List (Nat × Body)
  | _, [] => []
  | k, out :: outs =>
    (((out.filter (fun m => m.body.isNotice)).head?).map (fun m => (k,m.body))).toList ++
      announcements (k+1) outs

theorem le_of_mem_announcements {k : Nat} {outs : List (List Sent)} {n : Nat × Body}
    (h : n ∈ announcements k outs) : k ≤ n.1 := by
  induction outs generalizing k with
  | nil => cases h
  | cons out outs ih =>
    rcases List.mem_append.mp h with h | h
    · simp only [Option.mem_toList,Option.map_eq_some_iff] at h
      obtain ⟨m,_,rfl⟩ := h
      exact Nat.le_refl k
    · have := ih h
      omega

theorem announcements_nodup (k : Nat) (outs : List (List Sent)) :
    (announcements k outs).Nodup := by
  induction outs generalizing k with
  | nil => exact List.nodup_nil
  | cons out outs ih =>
    refine List.nodup_append.mpr ⟨?_,ih (k+1),?_⟩
    · cases (out.filter (fun m => m.body.isNotice)).head? <;> simp
    · rintro n hn _ hm rfl
      simp only [Option.mem_toList,Option.map_eq_some_iff] at hn
      obtain ⟨m,_,rfl⟩ := hn
      have := le_of_mem_announcements hm
      omega

theorem Announces.sublist {s t : Server} {out : List Sent} (h : Announces s t out)
    (c : ConnId) (k : Nat) :
    ((out.filter (fun m => m.ws = c ∧ m.body.isNotice)).map (fun m => (k,m.body))).Sublist
      (((out.filter (fun m => m.body.isNotice)).head?).map (fun m => (k,m.body))).toList := by
  cases h with
  | silent h =>
    have hnil : out.filter (fun m => m.ws = c ∧ m.body.isNotice) = [] := by
      rw [List.filter_eq_nil_iff]
      intro m hm
      simp [h m hm]
    rw [hnil]
    exact List.nil_sublist _
  | announced r body newcomer hn h =>
    rw [h c]
    split
    · rename_i hc
      have hall : ∀ m ∈ out.filter (fun m => m.body.isNotice), m.body = body := by
        intro m hm
        obtain ⟨hm,hb⟩ := List.mem_filter.mp hm
        have hmem : m ∈ out.filter (fun x => x.ws = m.ws ∧ x.body.isNotice) :=
          List.mem_filter.mpr ⟨hm,by simpa using hb⟩
        rw [h m.ws] at hmem
        split at hmem
        · rw [List.mem_singleton] at hmem
          rw [hmem]
        · cases hmem
      have hne : (⟨c,body,none⟩ : Sent) ∈ out.filter (fun m => m.body.isNotice) := by
        have hmem : (⟨c,body,none⟩ : Sent) ∈ out.filter (fun m => m.ws = c ∧ m.body.isNotice) := by
          rw [h c,if_pos hc]
          exact List.mem_singleton_self _
        obtain ⟨hm,hb⟩ := List.mem_filter.mp hmem
        simp only [decide_eq_true_eq] at hb
        exact List.mem_filter.mpr ⟨hm,hb.2⟩
      cases hl : out.filter (fun m => m.body.isNotice) with
      | nil =>
        rw [hl] at hne
        cases hne
      | cons m ms =>
        have hmb := hall m (by rw [hl]; exact List.mem_cons_self)
        simp [hmb]
    · exact List.nil_sublist _

theorem notices_sublist {cfg : Config} {s : Server} (hs : RoomStore cfg s) (c : ConnId)
    (k : Nat) (es : List ServerEvent) :
    (notices c k (s.outputs cfg es)).Sublist (announcements k (s.outputs cfg es)) := by
  induction es generalizing s k with
  | nil => exact List.nil_sublist _
  | cons e es ih =>
    unfold Server.outputs
    cases hstep : s.step cfg e with
    | none => exact List.nil_sublist _
    | some r =>
      obtain ⟨t,out⟩ := r
      exact ((announces_step hs hstep).sublist c k).append (ih (roomStore_step hs hstep) (k+1))

/-- What the server's next step sends in the way of chat and notices: a chat.message
exactly to those present in the room of an accepted chat.send, and the same notices to any
two that are present in one room before and after it. -/
def Fair (cfg : Config) (s : Server) (e : ServerEvent) : Prop :=
  ∀ t out, s.step cfg e = some (t,out) →
    (∀ c, out.filter (fun m => m.ws = c ∧ m.body.isChat) =
      match s.chat cfg e with
      | some (p,text,now) =>
        if s.present p.roomId c then [⟨c,.chatMessage p.id p.displayName text now,none⟩] else []
      | none => []) ∧
    ∀ r a b, s.present r a → s.present r b → t.present r a → t.present r b →
      (out.filter (fun m => m.ws = a ∧ m.body.isNotice)).map Sent.body =
        (out.filter (fun m => m.ws = b ∧ m.body.isNotice)).map Sent.body

theorem RoomStore.fair {cfg : Config} {s : Server} (hs : RoomStore cfg s) (e : ServerEvent) :
    Fair cfg s e := by
  intro t out h
  refine ⟨?_,?_⟩
  · intro c
    have hsplit : out.filter (fun m => m.ws = c ∧ m.body.isChat) =
        (out.filter (fun m => m.ws = c)).filter (fun m => m.body.isChat) := by
      rw [List.filter_filter]
      apply List.filter_congr
      intro m _
      simp [Bool.and_comm]
    cases hchat : s.chat cfg e with
    | none =>
      simp only
      rw [List.filter_eq_nil_iff]
      intro m hm hb
      simp only [decide_eq_true_eq] at hb
      have := chat_of_mem h hm hb.2
      rw [hchat] at this
      cases this
    | some r =>
      obtain ⟨p,text,now⟩ := r
      rw [hsplit,chat_step hs h hchat c]
      simp only
      split <;> rfl
  · intro r a b ha hb hat hbt
    have ht := roomStore_step hs h
    obtain ⟨_,p,hp,hpr⟩ := hs.present_iff.mp ha
    obtain ⟨_,q,hq,hqr⟩ := hs.present_iff.mp hb
    cases announces_step hs h with
    | silent hsilent =>
      have hnil : ∀ c, out.filter (fun m => m.ws = c ∧ m.body.isNotice) = [] := by
        intro c
        rw [List.filter_eq_nil_iff]
        intro m hm
        simp [hsilent m hm]
      rw [hnil a,hnil b]
    | announced r' body newcomer hn hout =>
      have hna : newcomer ≠ some a := fun he => by
        rw [hn a he] at hp
        cases hp
      have hnb : newcomer ≠ some b := fun he => by
        rw [hn b he] at hq
        cases hq
      have hroom : t.present r' a ↔ t.present r' b := by
        have hpt := participantOf_step h hp
        have hqt := participantOf_step h hq
        have hao := (ht.present_iff.mp hat).1
        have hbo := (ht.present_iff.mp hbt).1
        simp [ht.present_iff,hpt,hqt,hpr,hqr,hao,hbo]
      rw [hout a,hout b]
      by_cases hin : t.present r' a
      · simp [hin,hroom.mp hin,hna,hnb]
      · have hin' : ¬ t.present r' b := fun hb => hin (hroom.mpr hb)
        simp [hin,hin']

/-- Chat over any run: every accepted chat.send reaches each present member once and nobody
else, members that stay are sent the same notices, and what any two connections have
received so far agrees on the order of the notices they share. -/
theorem chat_order (cfg : Config) (es : List ServerEvent) (s : Server) (log : List Sent)
    (h : Server.run cfg es = some (s,log)) :
    Runs.Along (Server.advance cfg) (fun w e => Fair cfg w.1 e) (Server.init,[]) es ∧
    log = (Server.init.outputs cfg es).flatten ∧
    ∀ a b i j,
      ((notices a 0 (Server.init.outputs cfg es)).take i).filter
          (fun n => n ∈ (notices b 0 (Server.init.outputs cfg es)).take j) =
        ((notices b 0 (Server.init.outputs cfg es)).take j).filter
          (fun n => n ∈ (notices a 0 (Server.init.outputs cfg es)).take i) := by
  have hinit : RoomStore cfg Server.init := roomStore_init cfg
  refine ⟨?_,?_,?_⟩
  · refine Runs.along_of_invariant (I := fun w => RoomStore cfg w.1) ?_ ?_ hinit
    · intro w e v hw hv
      obtain ⟨out,hstep,_⟩ := advance_eq_some.mp hv
      exact roomStore_step hw hstep
    · intro w e hw
      exact hw.fair e
  · simpa using run_outputs h
  · intro a b i j
    refine filter_mem_comm (announcements_nodup 0 (Server.init.outputs cfg es)) ?_ ?_
    · exact (List.take_sublist i _).trans (notices_sublist hinit a 0 es)
    · exact (List.take_sublist j _).trans (notices_sublist hinit b 0 es)

def coupleChat : List ServerEvent :=
  [.connection 0 0,.connection 1 1,
    .message 0 2 (js "a") (joinMessage (js "room1") (js "Ann") (js "r0")),
    .message 1 3 (js "b") (joinMessage (js "room1") (js "Bob") (js "r1")),
    .message 1 4 (js "c") (clientMessage .chatSend [(js "text",.str (js " hi "))] none),
    .closing 1,.close 1]

theorem chat_order_couple :
    notices 0 0 (Server.init.outputs (defaultConfig []) coupleChat) =
        [(3,.participantJoined ⟨js "b",js "Bob"⟩),
          (4,.chatMessage (js "b") (js "Bob") (js "hi") 4),(6,.participantLeft (js "b"))] ∧
      Runs.Along (Server.advance (defaultConfig []))
        (fun w e => Fair (defaultConfig []) w.1 e) (Server.init,[]) coupleChat ∧
      ∀ i j, ((notices 0 0 (Server.init.outputs (defaultConfig []) coupleChat)).take i).filter
          (fun n => n ∈ (notices 1 0 (Server.init.outputs (defaultConfig []) coupleChat)).take j) =
        ((notices 1 0 (Server.init.outputs (defaultConfig []) coupleChat)).take j).filter
          (fun n => n ∈ (notices 0 0 (Server.init.outputs (defaultConfig []) coupleChat)).take i) := by
  have hrun : (Server.run (defaultConfig []) coupleChat).isSome := by decide +kernel
  obtain ⟨⟨s,log⟩,hrun⟩ := Option.isSome_iff_exists.mp hrun
  obtain ⟨hfair,_,horder⟩ := chat_order (defaultConfig []) coupleChat s log hrun
  exact ⟨by decide +kernel,hfair,horder 0 1⟩

end MaiaMeet
