import MaiaMeet.Presence
import MaiaMeet.RateLimit
set_option autoImplicit false

/-! The heartbeat timer over whole runs: which sockets it gives up, and what they still hear. -/

namespace MaiaMeet

def Unanswered (c : ConnId) (es : List ServerEvent) : Prop :=
  ∃ l m, es = l ++ .heartbeat c :: m ∧ .pong c ∉ m

/-- `ws.isAlive` -/
def Server.isAlive (s : Server) (c : ConnId) : Option Bool :=
  (s.connections c).map Connection.isAlive

inductive Marked (c : ConnId) : ServerEvent → Option Bool → Option Bool → Prop where
  | connected (now : Nat) : Marked c (.connection c now) none (some true)
  | pong (b : Bool) : Marked c (.pong c) (some b) (some true)
  | heartbeat (b : Bool) : Marked c (.heartbeat c) (some b) (some false)
  | other {e : ServerEvent} {b : Option Bool} (hpong : e ≠ .pong c) (hbeat : e ≠ .heartbeat c) :
      Marked c e b b

section
variable {cfg : Config} {s t : Server} {c : ConnId} {e : ServerEvent} {es : List ServerEvent}
  {out : List Sent}

theorem unanswered_snoc : Unanswered c (es ++ [e]) ↔
    e = .heartbeat c ∨ e ≠ .pong c ∧ Unanswered c es := by
  constructor
  · rintro ⟨l,m,heq,hpong⟩
    rcases List.eq_nil_or_concat m with rfl | ⟨m,d,rfl⟩
    · obtain ⟨_,h⟩ := List.append_inj' heq rfl
      cases h
      exact .inl rfl
    · rw [List.concat_eq_append,← List.cons_append,← List.append_assoc] at heq
      obtain ⟨rfl,h⟩ := List.append_inj' heq rfl
      cases h
      rw [List.concat_eq_append,List.mem_append,not_or] at hpong
      exact .inr ⟨fun he => hpong.2 (he ▸ List.mem_singleton_self _),l,m,rfl,hpong.1⟩
  · rintro (rfl | ⟨he,l,m,rfl,hpong⟩)
    · exact ⟨es,[],rfl,by simp⟩
    · refine ⟨l,m ++ [e],by simp,?_⟩
      rw [List.mem_append,List.mem_singleton,not_or]
      exact ⟨hpong,fun h => he h.symm⟩

theorem take_isAlive (cfg : Config) (now : Nat) (conn : Connection) :
    (conn.take cfg now).isAlive = conn.isAlive := by
  unfold Connection.take
  split <;> rfl

theorem put_isAlive (s : Server) (c : ConnId) (conn : Connection) :
    (s.put c conn).isAlive c = some conn.isAlive := by
  rw [Server.isAlive,put_connections_self]
  rfl

theorem isAlive_of_alive {conn : Connection} (h : s.alive c = some conn) :
    s.isAlive c = some conn.isAlive := by
  rw [Server.isAlive,((alive_eq_some_iff s c conn).mp h).1]
  rfl

theorem message_isAlive {now : Nat} {uuid : JsString} {data : Data}
    (h : s.step cfg (.message c now uuid data) = some (t,out)) : t.isAlive c = s.isAlive c := by
  obtain ⟨conn,hc,_,ho⟩ := message_outcome h
  have hcharge : (s.charge cfg c conn now uuid).isAlive c = s.isAlive c := by
    rw [Server.charge,put_isAlive,take_isAlive,isAlive_of_alive hc]
  cases ho with
  | reply | relayed | chatted => exact hcharge
  | joined m roomId displayName =>
    rw [Server.isAlive,enter_connections_self,isAlive_of_alive hc]
    exact congrArg some (take_isAlive cfg now conn)

theorem close_isAlive (h : s.step cfg (.close c) = some (t,out)) :
    t.isAlive c = s.isAlive c := by
  unfold Server.step at h
  split at h
  · simp only [Server.handle,Option.bind_eq_bind,Option.bind_eq_some_iff] at h
    obtain ⟨conn,hc,hclose⟩ := h
    rw [Server.isAlive,onClose_connections hclose,isAlive_of_alive hc]
    exact put_isAlive s c { conn with readyState := .closed }
  · cases h

theorem heartbeat_step (h : s.step cfg (.heartbeat c) = some (t,out)) :
    ∃ conn, s.alive c = some conn ∧ out = [] ∧ t = s.put c (if conn.isAlive
      then { conn with isAlive := false } else { conn with readyState := .closing }) := by
  unfold Server.step at h
  split at h
  · simp only [Server.handle,Option.bind_eq_bind,Option.bind_eq_some_iff,Option.pure_def] at h
    obtain ⟨conn,hc,h⟩ := h
    split at h
    · rename_i hmark
      cases h
      exact ⟨conn,hc,rfl,by rw [if_pos hmark]⟩
    · rename_i hmark
      cases h
      exact ⟨conn,hc,rfl,by rw [if_neg hmark]⟩
  · cases h

theorem marked_step (h : s.step cfg e = some (t,out)) :
    Marked c e (s.isAlive c) (t.isAlive c) := by
  by_cases hec : e.conn = c
  · subst hec
    cases e with
    | message d now uuid data =>
      rw [ServerEvent.conn,message_isAlive h]
      exact .other (by simp) (by simp)
    | close d =>
      rw [ServerEvent.conn,close_isAlive h]
      exact .other (by simp) (by simp)
    | connection d now =>
      unfold Server.step at h
      split at h
      · rename_i henabled
        cases h
        have hd : s.connections d = none := by simpa [Server.enabled] using henabled
        have hs : s.isAlive d = none := by
          rw [Server.isAlive,hd]
          rfl
        rw [ServerEvent.conn,hs,put_isAlive]
        exact .connected now
      · cases h
    | heartbeat d =>
      obtain ⟨conn,hc,rfl,rfl⟩ := heartbeat_step h
      rw [ServerEvent.conn,isAlive_of_alive hc,put_isAlive]
      cases hmark : conn.isAlive with
      | true => exact .heartbeat true
      | false =>
        rw [if_neg (by simp)]
        exact .heartbeat false
    | pong d | closing d =>
      unfold Server.step at h
      split at h
      · simp only [Server.handle,Option.bind_eq_bind,Option.bind_eq_some_iff,Option.pure_def] at h
        obtain ⟨conn,hc,ht⟩ := h
        cases ht
        rw [ServerEvent.conn,isAlive_of_alive hc,put_isAlive]
        first | exact .pong _ | exact .other (by simp) (by simp)
      · cases h
  · have hsame : t.isAlive c = s.isAlive c := by
      rw [Server.isAlive,connections_step h hec,Server.isAlive]
    rw [hsame]
    refine .other ?_ ?_
    · rintro rfl
      exact hec rfl
    · rintro rfl
      exact hec rfl

theorem mark_run {es : List ServerEvent} {v : Server × List Sent}
    (h : Server.run cfg es = some v) (c : ConnId) :
    v.1.isAlive c = some false ↔ Unanswered c es := by
  induction es using List.reverseRecOn generalizing v with
  | nil =>
    cases h
    constructor
    · intro h
      cases h
    · rintro ⟨l,m,heq,_⟩
      simp at heq
  | append_singleton es e ih =>
    obtain ⟨u,hu,hstep⟩ := Runs.exec_snoc_some.mp h
    obtain ⟨out,hstep,_⟩ := advance_eq_some.mp hstep
    have hbefore := ih hu
    have hmarked := marked_step (c := c) hstep
    rw [unanswered_snoc]
    generalize u.1.isAlive c = a at hbefore hmarked
    generalize v.1.isAlive c = b at hmarked
    cases hmarked with
    | connected now =>
      have hno : ¬Unanswered c es := fun hes => by cases hbefore.mpr hes
      simp [hno]
    | pong => simp
    | heartbeat => simp
    | other hpong hbeat => simp [hpong,hbeat,hbefore]

def Server.Shut (s : Server) (c : ConnId) : Prop := ¬(s.isOpen c ∨ s.connections c = none)

theorem shut_run {w v : Server × List Sent} {es : List ServerEvent}
    (h : Runs.exec (Server.advance cfg) w es = some v) (hshut : w.1.Shut c) :
    ∃ new, v.2 = w.2 ++ new ∧ ∀ m ∈ new, m.ws ≠ c := by
  induction es generalizing w with
  | nil =>
    cases h
    exact ⟨[],by simp,by simp⟩
  | cons e es ih =>
    obtain ⟨u,hu,hrest⟩ := Runs.exec_cons_some.mp h
    obtain ⟨out,hstep,hlog⟩ := advance_eq_some.mp hu
    have hshut' : u.1.Shut c := fun ho => hshut (open_before hstep ho)
    obtain ⟨new,hnew,hmem⟩ := ih hrest hshut'
    refine ⟨out ++ new,by rw [hnew,hlog,List.append_assoc],?_⟩
    intro m hm
    rcases List.mem_append.mp hm with hm | hm
    · rintro rfl
      exact hshut' (.inl (step_out_open hstep hm))
    · exact hmem m hm

end

/-- When the timer comes to an open socket it gives it up if, and only if, the last ping was not
answered; and a socket it has given up is sent nothing from then on. -/
theorem heartbeat_reaps (cfg : Config) {es : List ServerEvent} {s t : Server}
    {log out : List Sent} {c : ConnId} (hrun : Server.run cfg es = some (s,log)) (ho : s.isOpen c)
    (h : s.step cfg (.heartbeat c) = some (t,out)) :
    out = [] ∧ (t.isOpen c = false ↔ Unanswered c es) ∧
      (Unanswered c es → ∀ fs v, Runs.exec (Server.advance cfg) (t,log) fs = some v →
        ∃ new, v.2 = log ++ new ∧ ∀ m ∈ new, m.ws ≠ c) := by
  obtain ⟨conn,hc,rfl,rfl⟩ := heartbeat_step h
  have hmark := mark_run hrun c
  simp only [isAlive_of_alive hc,Option.some.injEq] at hmark
  obtain ⟨conn',hconn,hopened⟩ := isOpen_iff.mp ho
  obtain rfl := Option.some.inj (((alive_eq_some_iff s c conn).mp hc).1.symm.trans hconn)
  rw [← hmark]
  cases conn.isAlive with
  | true =>
    refine ⟨rfl,?_,fun h => by cases h⟩
    simp [Server.isOpen,hopened]
  | false =>
    refine ⟨rfl,by simp [Server.isOpen],fun _ fs v hv => shut_run hv ?_⟩
    simp [Server.Shut,Server.isOpen]

def silentSocket : List ServerEvent := [.connection 0 0,.heartbeat 0]

theorem heartbeat_reaps_silent : ∃ s log t out,
    Server.run (defaultConfig []) silentSocket = some (s,log) ∧
      s.step (defaultConfig []) (.heartbeat 0) = some (t,out) ∧ t.isOpen 0 = false := by
  have hrun : ((Server.run (defaultConfig []) silentSocket).filter (fun v =>
      v.1.isOpen 0 ∧ (v.1.step (defaultConfig []) (.heartbeat 0)).isSome)).isSome := by decide +kernel
  obtain ⟨⟨s,log⟩,hs⟩ := Option.isSome_iff_exists.mp hrun
  obtain ⟨hs,hrest⟩ := Option.filter_eq_some_iff.mp hs
  obtain ⟨ho,hstep⟩ := of_decide_eq_true hrest
  obtain ⟨⟨t,out⟩,h⟩ := Option.isSome_iff_exists.mp hstep
  refine ⟨s,log,t,out,hs,h,(heartbeat_reaps (defaultConfig []) hs ho h).2.1.mpr ?_⟩
  exact ⟨[.connection 0 0],[],rfl,by simp⟩

end MaiaMeet
