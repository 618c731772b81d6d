import MaiaMeet.OfferPlan
set_option autoImplicit false

/-! Which plans the server hands out: the newcomer's lists whoever is in the room before it,
and nobody's lists who joins later. -/

namespace MaiaMeet

section
variable {cfg : Config} {s t : Server} {e : ServerEvent} {out : List Sent}

/-- A plan goes to whoever joins by this step, and lists the others of its room. -/
theorem plan_step (hs : RoomStore cfg s) (h : s.step cfg e = some (t,out)) {m : Sent}
    (hm : m ∈ out) {l : List JsString} (hl : m.body.plan = some l) :
    s.participantOf m.ws = none ∧ ∃ q, t.participantOf m.ws = some q ∧ t.isOpen m.ws ∧
      l = (ids (t.membersOf m.ws)).filter (· ≠ q.id) := by
  have hmem : m ∈ out.filter (fun m' => m'.ws = m.ws) := List.mem_filter.mpr ⟨hm,by simp⟩
  have htold := told_step hs h m.ws
  generalize out.filter (fun m' => m'.ws = m.ws) = mine at htold hmem
  cases htold with
  | nothing => cases hmem
  | one m' hears hv =>
    obtain rfl := List.mem_singleton.mp hmem
    cases hp : s.participantOf m.ws with
    | some p =>
      rw [viewOf_eq hp] at hears
      cases hb : m.body with
      | roomJoined => exact absurd hb (hears.2.2.2.1 _ _ _ _)
      | participantJoined | participantLeft | signal | error | pong | roomCreated
      | chatMessage => rw [hb] at hl; cases hl
    | none =>
      rw [viewOf_none hp] at hears hv
      obtain hreply | ⟨own,roomId,rtcConfig,hb,_⟩ := hears
      · cases hb : m.body <;> simp [hb,Body.plan,Body.isReply] at hl hreply
      · simp only at hb
        rw [hb] at hl hv
        cases hq : t.participantOf m.ws with
        | none => rw [viewOf_none hq] at hv; cases hv
        | some q =>
          rw [viewOf_eq hq] at hv
          have hown : q.id = own := (Prod.mk.inj (Option.some.inj hv)).1
          refine ⟨rfl,q,rfl,step_out_open h hm,?_⟩
          simp only [Body.plan,Option.some.injEq] at hl
          rw [← hl,hown,ids,List.filter_map]
          rfl

theorem uuids_step (h : s.step cfg e = some (t,out)) : s.uuids ⊆ t.uuids := by
  cases step_effect h with
  | connected | kept | left | closed => exact List.Subset.refl _
  | handled c conn now uuid data t out hc hu ho =>
    cases ho with
    | reply | joined | relayed | chatted => exact List.subset_cons_self uuid s.uuids

theorem joined_fresh (h : s.step cfg e = some (t,out)) {c : ConnId} {q : Participant}
    (hs : s.participantOf c = none) (ht : t.participantOf c = some q) : q.id ∉ s.uuids := by
  have hput : ∀ (d : ConnId) (conn conn' : Connection), s.alive d = some conn →
      conn'.participant = conn.participant → (s.put d conn').participantOf c = some q → False := by
    intro d conn conn' hd hp hc
    rw [participantOf_put] at hc
    split at hc
    · rename_i hcd
      rw [hp,← participantOf_alive hd,← hcd,hs] at hc
      cases hc
    · rw [hs] at hc; cases hc
  cases step_effect h with
  | connected d now hd =>
    rw [participantOf_put] at ht
    split at ht
    · cases ht
    · rw [hs] at ht; cases ht
  | kept e d conn conn' hd hp hr ho he => exact (hput d conn conn' hd hp ht).elim
  | left d conn p room hd hp hr =>
    exact (hput d conn { conn with readyState := .closed } hd rfl ht).elim
  | closed d conn hd hp =>
    exact (hput d conn { conn with readyState := .closed } hd rfl ht).elim
  | handled d conn now uuid data t out hd hu ho =>
    have hcharge : (s.charge cfg d conn now uuid).participantOf c = none :=
      (charge_participantOf hd now uuid c).trans hs
    cases ho with
    | reply | relayed | chatted => rw [hcharge] at ht; cases ht
    | joined env roomId displayName =>
      have hof := participantOf_put (s.charge cfg d conn now uuid) d c
        { conn.take cfg now with participant := some ⟨uuid,displayName,roomId,d⟩ }
      rw [show ((s.charge cfg d conn now uuid).enter d (conn.take cfg now)
        ⟨uuid,displayName,roomId,d⟩).participantOf c = _ from hof] at ht
      split at ht
      · cases ht; exact hu
      · rw [hcharge] at ht; cases ht

theorem alive_before (h : s.step cfg e = some (t,out)) {c : ConnId} {p : Participant}
    (hp : s.participantOf c = some p) {conn : Connection} (ht : t.alive c = some conn) :
    ∃ conn', s.alive c = some conn' := by
  have hput : ∀ (u : Server) (d : ConnId) (k k' : Connection), s.alive d = some k →
      u.connections = (s.put d k').connections → u.alive c = some conn →
      ∃ conn', s.alive c = some conn' := by
    intro u d k k' hd hu hc
    by_cases hcd : c = d
    · exact ⟨k,hcd ▸ hd⟩
    · rw [alive_congr hu,alive_put_ne s k' hcd] at hc
      exact ⟨conn,hc⟩
  cases step_effect h with
  | connected d now hd =>
    by_cases hcd : c = d
    · subst hcd
      simp [Server.participantOf,hd] at hp
    · rw [alive_put_ne s _ hcd] at ht
      exact ⟨conn,ht⟩
  | kept e d k k' hd hk hr ho he => exact hput _ d k k' hd rfl ht
  | left d k q room hd hk hr => exact hput _ d k _ hd rfl ht
  | closed d k hd hk => exact hput _ d k _ hd rfl ht
  | handled d k now uuid data t out hd hu ho =>
    cases ho with
    | reply | relayed | chatted => exact hput _ d k _ hd rfl ht
    | joined env roomId displayName =>
      refine hput _ d k { k.take cfg now with
        participant := some ⟨uuid,displayName,roomId,d⟩ } hd ?_ ht
      simp [Server.enter,Server.charge,Server.put]

end

structure Planning (w : Net) : Prop where
  issued : ∀ c, ∀ e ∈ w.log c, ∀ l ∈ e.message.body.plan, l ⊆ w.server.uuids
  unjoined : ∀ c, w.server.participantOf c = none → ∀ e ∈ w.log c, e.message.body.plan = none

structure Precedes (a b : ConnId) (p : Participant) (known : List JsString) (w : Net) : Prop where
  first : w.server.participantOf a = some p
  uuids : known ⊆ w.server.uuids
  fresh : ∀ q, w.server.participantOf b = some q → q.id ∉ known
  plans : ∀ e ∈ w.log a, ∀ l ∈ e.message.body.plan, l ⊆ known

def Greets (a b : ConnId) (p : Participant) (w : Net) : Prop :=
  (∃ conn, w.server.alive a = some conn) → ∀ q, w.server.participantOf b = some q →
    q.roomId = p.roomId → ∀ e ∈ w.log b, ∀ l ∈ e.message.body.plan, p.id ∈ l

section
variable {cfg : Config} {w u : Net}

theorem mem_serve {e : ServerEvent} {t : Server} {out : List Sent} {c : ConnId} {entry : Entry}
    (h : entry ∈ (w.serve e t out).log c) : entry ∈ w.log c ∨
      (entry.message ∈ out ∧ entry.message.ws = c ∧ entry.members = t.membersOf c) := by
  rcases List.mem_append.mp h with h | h
  · exact .inl h
  · obtain ⟨m,hm,rfl⟩ := List.mem_map.mp h
    obtain ⟨hm,hc⟩ := List.mem_filter.mp hm
    exact .inr ⟨hm,by simpa using hc,rfl⟩

theorem server_participantOf {c : ConnId} {p : Participant}
    (h : w.server.participantOf c = some p) {e : NetEvent} (hstep : w.step cfg e = some u) :
    u.server.participantOf c = some p := by
  obtain ⟨hs,_⟩ | ⟨ev,t,out,ht,rfl⟩ := net_server hstep
  · exact hs ▸ h
  · exact participantOf_step ht h

theorem planning_step (h : Planning w) (hw : Presence cfg w) {e : NetEvent}
    (hstep : w.step cfg e = some u) : Planning u := by
  obtain ⟨hs,hl⟩ | ⟨ev,t,out,ht,rfl⟩ := net_server hstep
  · exact ⟨by rw [hs,hl]; exact h.issued,by rw [hs,hl]; exact h.unjoined⟩
  · have hts := roomStore_step hw.store ht
    refine ⟨fun c entry hentry l hplan => ?_,fun c hc entry hentry => ?_⟩
    · rcases mem_serve hentry with hold | ⟨hm,rfl,_⟩
      · exact List.Subset.trans (h.issued c entry hold l hplan) (uuids_step ht)
      · obtain ⟨_,q,hq,ho,rfl⟩ := plan_step hw.store ht hm hplan
        intro id hid
        obtain ⟨conn,hconn⟩ := isOpen_alive ho
        obtain ⟨room,hr,_⟩ := hts.own_entry hconn hq
        rw [membersOf_eq hq hr,ids_public] at hid
        obtain ⟨r,hr',rfl⟩ := List.mem_map.mp (List.mem_filter.mp hid).1
        obtain ⟨i,hi⟩ := (room.mem_values_iff r).mp hr'
        obtain ⟨_,_,k,hk,hkr⟩ := hts.present _ room i r hr hi
        exact hts.issued _ k r ((alive_eq_some_iff _ _ _).mp hk).1 hkr
    · have hc : t.participantOf c = none := hc
      rcases mem_serve hentry with hold | ⟨hm,rfl,_⟩
      · refine h.unjoined c ?_ entry hold
        cases hp : w.server.participantOf c with
        | none => rfl
        | some p => rw [participantOf_step ht hp] at hc; cases hc
      · cases hplan : entry.message.body.plan with
        | none => rfl
        | some l =>
          obtain ⟨_,q,hq,_⟩ := plan_step hw.store ht hm hplan
          rw [hq] at hc
          cases hc

theorem precedes_step {a b : ConnId} {p : Participant} {known : List JsString}
    (h : Precedes a b p known w) (hw : Presence cfg w) {e : NetEvent}
    (hstep : w.step cfg e = some u) : Precedes a b p known u := by
  obtain ⟨hs,hl⟩ | ⟨ev,t,out,ht,rfl⟩ := net_server hstep
  · exact ⟨hs ▸ h.first,hs ▸ h.uuids,hs ▸ h.fresh,hl ▸ h.plans⟩
  · refine ⟨participantOf_step ht h.first,List.Subset.trans h.uuids (uuids_step ht),fun q hq => ?_,
      fun entry hentry l hplan => ?_⟩
    · cases hb : w.server.participantOf b with
      | none => exact fun hmem => joined_fresh ht hb hq (h.uuids hmem)
      | some r =>
        have hr := participantOf_step ht hb
        rw [show t.participantOf b = some q from hq,Option.some.injEq] at hr
        exact hr ▸ h.fresh r hb
    · rcases mem_serve hentry with hold | ⟨hm,rfl,_⟩
      · exact h.plans entry hold l hplan
      · have hnone := (plan_step hw.store ht hm hplan).1
        rw [h.first] at hnone
        cases hnone

theorem greets_step {a b : ConnId} {p : Participant} (h : Greets a b p w)
    (hw : Presence cfg w) (hplan : Planning w) (hab : a ≠ b)
    (hp : w.server.participantOf a = some p) {e : NetEvent} (hstep : w.step cfg e = some u) :
    Greets a b p u := by
  obtain ⟨hs,hl⟩ | ⟨ev,t,out,ht,rfl⟩ := net_server hstep
  · unfold Greets
    rw [hs,hl]
    exact h
  · have hts := roomStore_step hw.store ht
    rintro ⟨conn,hconn⟩ q hq hqr entry hentry l hl
    have hq : t.participantOf b = some q := hq
    have hconn : t.alive a = some conn := hconn
    rcases mem_serve hentry with hold | ⟨hm,rfl,_⟩
    · cases hb : w.server.participantOf b with
      | none => rw [hplan.unjoined b hb entry hold] at hl; cases hl
      | some r =>
        have hr := participantOf_step ht hb
        rw [hq,Option.some.injEq] at hr
        exact h (alive_before ht hp hconn) r hb (hr ▸ hqr) entry hold l hl
    · -- the newcomer's plan lists its room, where the first still is
      obtain ⟨_,q',hq',ho,rfl⟩ := plan_step hw.store ht hm hl
      rw [hq,Option.some.injEq] at hq'
      subst q'
      obtain ⟨room,hr,hpi,_⟩ := hts.own_entry hconn (participantOf_step ht hp)
      obtain ⟨conn',hconn'⟩ := isOpen_alive ho
      obtain ⟨room',hr',hqi,_⟩ := hts.own_entry hconn' hq
      rw [hqr,hr,Option.some.injEq] at hr'
      subst room'
      rw [membersOf_eq hq (hqr ▸ hr),ids_public,hts.room_ids hr]
      refine List.mem_filter.mpr ⟨OrderedMap.mem_keys_of_get hpi,?_⟩
      have hne : p.id ≠ q.id := by
        intro he
        rw [← he,hpi,Option.some.injEq] at hqi
        have hpw := (hts.participantOf hr hpi rfl).2.2
        have hpa := (hts.joined a conn p hconn
          ((participantOf_alive hconn).symm.trans (participantOf_step ht hp))).1
        have hqb := (hts.joined _ conn' q hconn'
          ((participantOf_alive hconn').symm.trans hq)).1
        exact hab (hpa.symm.trans ((congrArg Participant.ws hqi).trans hqb))
      simpa using hne

structure Greeted (b : ConnId) (p : Participant) (w : Net) : Prop where
  joined : (w.server.participantOf b).isSome
  plans : ∀ e ∈ w.log b, ∀ l ∈ e.message.body.plan, p.id ∈ l

theorem greeted_step {b : ConnId} {p : Participant} (h : Greeted b p w) (hw : Presence cfg w)
    {e : NetEvent} (hstep : w.step cfg e = some u) : Greeted b p u := by
  obtain ⟨hs,hl⟩ | ⟨ev,t,out,ht,rfl⟩ := net_server hstep
  · exact ⟨hs ▸ h.joined,hl ▸ h.plans⟩
  · obtain ⟨q,hq⟩ := Option.isSome_iff_exists.mp h.joined
    refine ⟨Option.isSome_iff_exists.mpr ⟨q,participantOf_step ht hq⟩,fun entry hentry l hl => ?_⟩
    rcases mem_serve hentry with hold | ⟨hm,rfl,_⟩
    · exact h.plans entry hold l hl
    · rw [(plan_step hw.store ht hm hl).1] at hq
      cases hq

theorem planning_init : Planning Net.init :=
  ⟨fun _ _ he => (by cases he),fun _ _ _ he => (by cases he)⟩

theorem plans_init : Plans Net.init := fun _ =>
  ⟨fun _ => Nat.le_refl _,fun _ hs => (by cases hs)⟩

theorem planning_run {es : List NetEvent} (h : Runs.exec (Net.step cfg) Net.init es = some w) :
    Presence cfg w ∧ Planning w :=
  Runs.exec_invariant (I := fun w => Presence cfg w ∧ Planning w)
    (fun _ _ _ hi hu => ⟨presence_step hi.1 hu,planning_step hi.2 hi.1 hu⟩)
    ⟨presence_init cfg,planning_init⟩ h

theorem plans_run {es : List NetEvent} (h : Runs.exec (Net.step cfg) Net.init es = some w)
    (ho : Runs.Along (Net.step cfg) Net.Offering Net.init es) : Plans w :=
  (Runs.exec_invariant_along (I := fun w => Presence cfg w ∧ Plans w)
    (fun _ _ _ hi ho hu => ⟨presence_step hi.1 hu,plans_step hi.2 hi.1 ho hu⟩)
    ⟨presence_init cfg,plans_init⟩ ho h).2

theorem Presence.plan_nodup (h : Presence cfg w) (c : ConnId) (k : Nat) :
    (plan ((w.log c).take k)).Nodup := by
  rw [plan]
  cases hf : ((w.log c).take k).findSome? (fun e => e.message.body.plan) with
  | none => exact List.nodup_nil
  | some l =>
    obtain ⟨e,he,hl⟩ := List.exists_of_findSome?_eq_some hf
    obtain ⟨i,hi⟩ := List.mem_iff_getElem?.mp (List.mem_of_mem_take he)
    have hears := h.heard c i e hi
    cases hb : e.message.body with
    | roomJoined own roomId participants rtcConfig =>
      have hn : (ids participants).Nodup := by
        cases hv : view ((w.log c).take i) with
        | none =>
          rw [hv] at hears
          obtain hreply | ⟨_,_,_,hb',hn,_⟩ := hears
          · rw [hb] at hreply; cases hreply
          · rw [hb] at hb'; cases hb'; exact hn
        | some v => rw [hv] at hears; exact absurd hb (hears.2.2.2.1 _ _ _ _)
      rw [hb] at hl
      simp only [Body.plan,Option.some.injEq] at hl
      rw [← hl,Option.getD_some]
      exact hn.sublist (List.filter_sublist.map _)
    | participantJoined | participantLeft | signal | error | pong | roomCreated
    | chatMessage => rw [hb] at hl; cases hl

theorem plan_of_joined {l : List Entry} {v : JsString × List PublicParticipant}
    (h : view l = some v) : ∃ e ∈ l, ∃ participants, e.message.body.plan = some participants := by
  induction l using List.reverseRecOn generalizing v with
  | nil => cases h
  | append_singleton l e ih =>
    rw [view_append] at h
    cases hl : view l with
    | some v' =>
      obtain ⟨e',he',hp⟩ := ih hl
      exact ⟨e',List.mem_append_left _ he',hp⟩
    | none =>
      rw [hl] at h
      refine ⟨e,by simp,?_⟩
      cases hp : e.message.body.plan with
      | some participants => exact ⟨participants,rfl⟩
      | none => cases hb : e.message.body <;> simp [hb,Body.view,Body.plan] at h hp

theorem mem_plan_of_session {b : ConnId} {p : Participant} (h : Presence cfg w)
    (hb : Greeted b p w) {s : Session} (hs : (w.clients b).session = some s) :
    p.id ∈ plan ((w.log b).take (w.handled b)) := by
  have hf := h.follows b
  cases hv : view ((w.log b).take (w.handled b)) with
  | none =>
    cases hl : (w.clients b).listening with
    | false => rw [hf.gone hl] at hs; cases hs
    | true => rw [(hf.outside hv hl).1] at hs; cases hs
  | some v =>
    obtain ⟨e,he,participants,hp⟩ := plan_of_joined hv
    rw [plan]
    cases hfind : ((w.log b).take (w.handled b)).findSome? (fun e => e.message.body.plan) with
    | none =>
      rw [List.findSome?_eq_none_iff.mp hfind e he] at hp
      cases hp
    | some l =>
      obtain ⟨e',he',hl⟩ := List.exists_of_findSome?_eq_some hfind
      exact hb.plans e' (List.mem_of_mem_take he') l hl

/-- The first of two never offers to the second. -/
theorem first_offers {a b : ConnId} {p q : Participant} {known : List JsString}
    (h : Precedes a b p known w) (hplans : Plans w) (hq : w.server.participantOf b = some q) :
    offersTo q.id (w.sent a) = 0 := by
  have hnot : q.id ∉ plan ((w.log a).take (w.handled a)) := by
    rw [plan]
    cases hf : ((w.log a).take (w.handled a)).findSome? (fun e => e.message.body.plan) with
    | none => exact List.not_mem_nil
    | some l =>
      obtain ⟨e,he,hl⟩ := List.exists_of_findSome?_eq_some hf
      exact fun hmem => h.fresh q hq (h.plans e (List.mem_of_mem_take he) l hl hmem)
  have hb := (hplans a).bound q.id
  rw [List.count_eq_zero_of_not_mem hnot] at hb
  omega

end

/-- Of two participants that are in a room together, the one that joined first never offers
to the other; the other offers at most once, and, until it closes or hears that the first
has left, its one offer is sent or on its way: its queue can go on with it. -/
theorem offer_plan (cfg : Config) {es fs gs : List NetEvent} {u v w : Net}
    {p q : Participant} {roomId : JsString} {room : Room}
    (hu : Runs.exec (Net.step cfg) Net.init es = some u)
    (hfirst : u.server.participantOf p.ws = some p)
    (hsecond : u.server.participantOf q.ws = none)
    (hv : Runs.exec (Net.step cfg) u fs = some v)
    (hroom : v.server.rooms.get roomId = some room)
    (hp : room.get p.id = some p) (hq : room.get q.id = some q)
    (hw : Runs.exec (Net.step cfg) v gs = some w)
    (ho : Runs.Along (Net.step cfg) Net.Offering Net.init (es ++ fs ++ gs)) :
    offersTo q.id (w.sent p.ws) = 0 ∧ offersTo p.id (w.sent q.ws) ≤ 1 ∧
      ∀ s, (w.clients q.ws).session = some s → p.id ∉ s.departed →
        offersTo p.id (w.sent q.ws) + (s.queue p.id).offers = 1 ∧
        ((s.queue p.id).offers = 1 → (s.step (.next p.id)).isSome ∨
          ∀ sdp kinds, (s.step (.settle p.id sdp kinds)).isSome) := by
  have hinit : Runs.exec (Net.step cfg) Net.init (es ++ fs) = some v :=
    Runs.exec_append_some.mpr ⟨u,hu,hv⟩
  have hplans := plans_run (Runs.exec_append_some.mpr ⟨v,hinit,hw⟩) ho
  obtain ⟨hpu,hplu⟩ := planning_run hu
  have hpv := (planning_run hinit).1
  have hne : p.ws ≠ q.ws := by
    intro he
    rw [he,hsecond] at hfirst
    cases hfirst
  -- up to the moment both are there
  obtain ⟨_,_,hprec,hgreets⟩ := Runs.exec_invariant
    (I := fun w => Presence cfg w ∧ Planning w ∧ Precedes p.ws q.ws p u.server.uuids w ∧
      Greets p.ws q.ws p w)
    (fun _ _ _ hi hs => ⟨presence_step hi.1 hs,planning_step hi.2.1 hi.1 hs,
      precedes_step hi.2.2.1 hi.1 hs,
      greets_step hi.2.2.2 hi.1 hi.2.1 hne hi.2.2.1.first hs⟩)
    ⟨hpu,hplu,⟨hfirst,List.Subset.refl _,fun q' hq' => (by rw [hsecond] at hq'; cases hq'),
      hplu.issued p.ws⟩,fun _ q' hq' => (by rw [hsecond] at hq'; cases hq')⟩ hv
  obtain ⟨_,hqroom,hqv⟩ := hpv.store.participantOf hroom hq rfl
  obtain ⟨_,hproom,conn,hconn,_⟩ := hpv.store.present roomId room p.id p hroom hp
  have hgreeted : Greeted q.ws p v :=
    ⟨Option.isSome_iff_exists.mpr ⟨q,hqv⟩,hgreets ⟨conn,hconn⟩ q hqv (hqroom.trans hproom.symm)⟩
  -- and from then on
  obtain ⟨hpw,hprec,hgreeted⟩ := Runs.exec_invariant
    (I := fun w => Presence cfg w ∧ Precedes p.ws q.ws p u.server.uuids w ∧ Greeted q.ws p w)
    (fun _ _ _ hi hs => ⟨presence_step hi.1 hs,precedes_step hi.2.1 hi.1 hs,
      greeted_step hi.2.2 hi.1 hs⟩) ⟨hpv,hprec,hgreeted⟩ hw
  have hqw : w.server.participantOf q.ws = some q :=
    Runs.exec_invariant (I := fun w => w.server.participantOf q.ws = some q)
      (fun _ _ _ hi hs => server_participantOf hi hs) hqv hw
  have hbound := (hplans q.ws).bound p.id
  have hcount := (hpw.plan_nodup q.ws (w.handled q.ws)).count (a := p.id)
  refine ⟨first_offers hprec hplans hqw,?_,fun s hs hd => ?_⟩
  · rw [hcount] at hbound
    split at hbound <;> omega
  · obtain ⟨_,hmanned,hlead,hexact⟩ := (hplans q.ws).exact s hs
    have hone := hexact p.id hd
    rw [hcount,if_pos (mem_plan_of_session hpw hgreeted hs)] at hone
    exact ⟨hone,fun hn => offers_progress hmanned (hlead p.id) (by omega)⟩

def coupleOffers : List NetEvent :=
  [.session 1 (.next (js "a")),.session 1 (.settle (js "a") (js "sdp") []),
    .session 1 (.settle (js "a") (js "sdp") [])]

theorem offer_plan_couple :
    ∃ w s, Runs.exec (Net.step (defaultConfig [])) Net.init (coupleJoins ++ coupleOffers) =
        some w ∧ (w.clients 1).session = some s ∧ s.departed = [] ∧
      offersTo (js "b") (w.sent 0) = 0 ∧ offersTo (js "a") (w.sent 1) ≤ 1 ∧
      offersTo (js "a") (w.sent 1) + (s.queue (js "a")).offers = 1 := by
  have hrun : ((Runs.exec (Net.step (defaultConfig [])) Net.init (coupleJoins.take 4)).bind
      (fun u => (Runs.exec (Net.step (defaultConfig [])) u (coupleJoins.drop 4)).bind
        (fun v => (Runs.exec (Net.step (defaultConfig [])) v coupleOffers).bind
          (fun w => (w.clients 1).session.bind (fun s => (v.server.rooms.get (js "room1")).filter
            (fun room => s.departed = [] ∧
              u.server.participantOf 0 = some ⟨js "a",js "Ann",js "room1",0⟩ ∧
              u.server.participantOf 1 = none ∧
              room.get (js "a") = some ⟨js "a",js "Ann",js "room1",0⟩ ∧
              room.get (js "b") = some ⟨js "b",js "Bob",js "room1",1⟩ ∧
              Runs.Along (Net.step (defaultConfig [])) Net.Offering Net.init
                (coupleJoins.take 4 ++ coupleJoins.drop 4 ++ coupleOffers))))))).isSome := by
    decide +kernel
  obtain ⟨room,hroom⟩ := Option.isSome_iff_exists.mp hrun
  obtain ⟨u,hu,hroom⟩ := Option.bind_eq_some_iff.mp hroom
  obtain ⟨v,hv,hroom⟩ := Option.bind_eq_some_iff.mp hroom
  obtain ⟨w,hw,hroom⟩ := Option.bind_eq_some_iff.mp hroom
  obtain ⟨s,hs,hroom⟩ := Option.bind_eq_some_iff.mp hroom
  obtain ⟨hroom,hc⟩ := Option.filter_eq_some_iff.mp hroom
  obtain ⟨hd,hfirst,hsecond,hp,hq,ho⟩ := of_decide_eq_true hc
  obtain ⟨hnone,hbound,hexact⟩ := offer_plan (defaultConfig [])
    (p := ⟨js "a",js "Ann",js "room1",0⟩) (q := ⟨js "b",js "Bob",js "room1",1⟩)
    hu hfirst hsecond hv hroom hp hq hw ho
  exact ⟨w,s,Runs.exec_append_some.mpr ⟨v,Runs.exec_append_some.mpr ⟨u,hu,hv⟩,hw⟩,hs,hd,hnone,
    hbound,(hexact s hs (by simp [hd])).1⟩

end MaiaMeet
