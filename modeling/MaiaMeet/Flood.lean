import Mathlib.Data.List.Perm.Subperm
import MaiaMeet.RateLimit
import MaiaMeet.Transcript
set_option autoImplicit false

/-! What one connection can make the server send to the others. -/

namespace MaiaMeet

/-- What the server sent to others on the messages of one connection, each with the time at which
that message came. -/
def Server.caused (cfg : Config) (c : ConnId) : Server → List ServerEvent → List (Nat × Sent)
  | _, [] => []
  | s, e :: es =>
    match s.step cfg e with
    | some (t,out) =>
      (e.arrival c).toList.flatMap (fun now =>
        (out.filter (fun m => m.ws ≠ c)).map (fun m => (now,m))) ++ t.caused cfg c es
    | none => []

section
variable {cfg : Config} {s t : Server} {c : ConnId} {e : ServerEvent} {out : List Sent}

theorem step_ws_nodup (hs : RoomStore cfg s) (h : s.step cfg e = some (t,out)) :
    (out.map Sent.ws).Nodup := by
  rw [List.nodup_iff_count_le_one]
  intro d
  have hcount : (out.map Sent.ws).count d = (out.filter (fun m => m.ws = d)).length := by
    rw [List.count,List.countP_map,List.countP_eq_length_filter]
    rfl
  have htold := told_step hs h d
  generalize out.filter (fun m => m.ws = d) = mine at hcount htold
  cases htold with
  | nothing => simp [hcount]
  | one => simp [hcount]

/-- Others hear of a connection's message only if it got past the limiter, and as members of its
room. -/
theorem heard_by_members {now : Nat} (harrival : e.arrival c = some now)
    (h : s.step cfg e = some (t,out)) {m : Sent} (hm : m ∈ out) (hc : m.ws ≠ c) :
    s.admits cfg c now ∧ ∃ conn p room, t.alive c = some conn ∧ conn.participant = some p ∧
      t.rooms.get p.roomId = some room ∧ ∃ q ∈ room.values, q.ws = m.ws := by
  cases e with
  | message d now' uuid data =>
    simp only [ServerEvent.arrival,Option.ite_none_right_eq_some,Option.some.injEq] at harrival
    obtain ⟨rfl,rfl⟩ := harrival
    obtain ⟨conn,ha,hu,ho⟩ := message_outcome h
    have hcharge : (s.charge cfg d conn now' uuid).alive d = some (conn.take cfg now') :=
      charge_alive ha now' uuid
    have hadmits : 0 ≤ (conn.take cfg now').tokens → s.admits cfg d now' := by
      intro ht
      simp [Server.admits,ha,ht]
    cases ho with
    | reply body requestId hb =>
      obtain ⟨_,rfl⟩ := mem_send.mp hm
      exact absurd rfl hc
    | joined m' roomId displayName ht hm' hk hp hj hsize =>
      refine ⟨hadmits ht,_,⟨uuid,displayName,roomId,d⟩,_,enter_alive_self _ hcharge,rfl,
        enter_rooms_self _ _ _ _,?_⟩
      rcases List.mem_append.mp hm with hm | hm
      · obtain ⟨_,rfl⟩ := mem_send.mp hm
        exact absurd rfl hc
      · obtain ⟨q,hq,_,_,rfl⟩ := mem_broadcast.mp hm
        rw [Server.roomOrNew,enter_rooms_self] at hq
        exact ⟨q,hq,rfl⟩
    | relayed m' k p target room signal ht hm' hk hp hr hd hne hv =>
      refine ⟨hadmits ht,_,p,room,hcharge,hp,hr,target,?_,?_⟩
      · obtain ⟨id,_,hget⟩ := targetOf_eq_some hd
        exact (room.mem_values_iff target).mpr ⟨id,hget⟩
      · obtain ⟨_,rfl⟩ := mem_send.mp hm
        rfl
    | chatted m' p room text ht hm' hk hp hr hx =>
      refine ⟨hadmits ht,_,p,room,hcharge,hp,hr,?_⟩
      obtain ⟨q,hq,_,_,rfl⟩ := mem_broadcast.mp hm
      exact ⟨q,hq,rfl⟩
  | connection | pong | heartbeat | closing | close => cases harrival

/-- One message of a connection causes at most one for each other seat of its room, and none if
the limiter refused it. -/
theorem caused_step (hs : RoomStore cfg s) {now : Nat} (harrival : e.arrival c = some now)
    (h : s.step cfg e = some (t,out)) :
    (out.filter (fun m => m.ws ≠ c)).length ≤
      if s.admits cfg c now then cfg.maxParticipants-1 else 0 := by
  have hmembers := fun m hm hc => heard_by_members harrival h (m := m) hm hc
  cases hothers : out.filter (fun m => m.ws ≠ c) with
  | nil => exact Nat.zero_le _
  | cons m l =>
    have hm : m ∈ out.filter (fun m => m.ws ≠ c) := hothers ▸ List.mem_cons_self
    obtain ⟨hm,hmc⟩ := List.mem_filter.mp hm
    obtain ⟨hadmits,conn,p,room,ha,hp,hr,_⟩ := hmembers m hm (of_decide_eq_true hmc)
    rw [if_pos hadmits,← hothers]
    have hts := roomStore_step hs h
    obtain ⟨room',hr',_,hown⟩ := hts.own_entry ha ((participantOf_alive ha).trans hp)
    obtain rfl := Option.some.inj (hr.symm.trans hr')
    have hsub : (out.filter (fun m => m.ws ≠ c)).map Sent.ws ⊆
        (room.values.filter (fun q => ¬q.ws = c)).map Participant.ws := by
      intro d hd
      obtain ⟨m',hm',rfl⟩ := List.mem_map.mp hd
      obtain ⟨hm',hmc'⟩ := List.mem_filter.mp hm'
      obtain ⟨_,conn',p',room',ha',hp',hroom,q,hq,hws⟩ := hmembers m' hm' (of_decide_eq_true hmc')
      obtain rfl := Option.some.inj (ha.symm.trans ha')
      obtain rfl := Option.some.inj (hp.symm.trans hp')
      obtain rfl := Option.some.inj (hr.symm.trans hroom)
      exact List.mem_map.mpr ⟨q,List.mem_filter.mpr ⟨hq,by simpa [hws] using hmc'⟩,hws⟩
    have hnodup : ((out.filter (fun m => m.ws ≠ c)).map Sent.ws).Nodup :=
      (step_ws_nodup hs h).sublist (List.filter_sublist.map Sent.ws)
    have hle := (List.subperm_of_subset hnodup hsub).length_le
    rw [List.length_map,List.length_map] at hle
    have hsplit := List.length_eq_length_filter_add (l := room.values) (fun q => decide (q.ws = c))
    rw [hown,List.length_singleton] at hsplit
    have hsize := (hts.bounded _ _ hr).2
    have hvalues : room.values.length = room.size := List.length_map _
    simp only [decide_not] at hle hsplit ⊢
    omega

theorem countP_caused (P : Nat → Bool) {es : List ServerEvent} {log : List Sent}
    {v : Server × List Sent} (hs : RoomStore cfg s)
    (h : Runs.exec (Server.advance cfg) (s,log) es = some v) :
    (s.caused cfg c es).countP (fun x => P x.1) ≤
      (s.passed cfg c es).countP P * (cfg.maxParticipants-1) := by
  induction es generalizing s log with
  | nil => exact Nat.zero_le _
  | cons e es ih =>
    obtain ⟨⟨t,log'⟩,hadvance,hrun⟩ := Runs.exec_cons_some.mp h
    obtain ⟨out,hstep,_⟩ := advance_eq_some.mp hadvance
    simp only at hstep
    have hrest := ih (roomStore_step hs hstep) hrun
    rw [Server.caused,hstep,Server.passed,hstep]
    simp only [List.countP_append,Nat.add_mul]
    refine Nat.add_le_add ?_ hrest
    cases ha : e.arrival c with
    | none => exact Nat.zero_le _
    | some now =>
      have hcaused := caused_step hs ha hstep
      simp only [Option.toList_some,List.flatMap_singleton,List.countP_map,Function.comp_def]
      cases hP : P now with
      | false => simp
      | true =>
        by_cases hadmits : s.admits cfg c now
        · rw [if_pos hadmits] at hcaused
          simpa [Option.filter,hadmits,hP] using hcaused
        · rw [if_neg hadmits] at hcaused
          simpa [Option.filter,hadmits] using hcaused

/-- In any interval of the limiter's length one connection makes the server send the others at
most twice its tokens, for each other seat of a room. -/
theorem flood_bound (cfg : Config) {es : List ServerEvent} {s : Server} {log : List Sent}
    (h : Server.run cfg es = some (s,log)) (c : ConnId)
    (hclock : (es.filterMap (ServerEvent.clock c)).Pairwise (· ≤ ·)) (a : Nat) :
    (Server.init.caused cfg c es).countP (fun x => Window.within a cfg.rateLimitInterval x.1) ≤
      2*cfg.rateLimitTokens*(cfg.maxParticipants-1) := by
  refine Nat.le_trans (countP_caused _ (roomStore_init cfg) h) (Nat.mul_le_mul_right _ ?_)
  rcases passed_of_unconnected rfl h with ⟨hpassed,_⟩ | ⟨start,hclocks,hpassed⟩
  · rw [hpassed]
    exact Nat.zero_le _
  · rw [hclocks,List.pairwise_cons] at hclock
    rw [hpassed]
    have hfull : Window.tokens ⟨cfg.rateLimitTokens,start⟩ ≤ cfg.rateLimitTokens := Int.le_refl _
    exact Window.countP_passed_le hfull hclock.2 a

end

def chatPair : List ServerEvent :=
  [.connection 0 0,.connection 1 1,
    .message 0 2 (js "a") (joinMessage (js "room1") (js "Ann") (js "r0")),
    .message 1 3 (js "b") (joinMessage (js "room1") (js "Bob") (js "r1")),
    .message 0 4 (js "c") (clientMessage .chatSend [(js "text",.str (js "hi"))] none)]

theorem flood_bound_pair :
    (Server.init.caused (defaultConfig []) 0 chatPair).countP (fun x => Window.within 0 1000 x.1) ≤
      2*120*5 := by
  have hrun : (Server.run (defaultConfig []) chatPair).isSome := by decide +kernel
  obtain ⟨⟨s,log⟩,h⟩ := Option.isSome_iff_exists.mp hrun
  exact flood_bound (defaultConfig []) h 0 (by decide) 0

end MaiaMeet
