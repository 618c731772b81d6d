import MaiaMeet.Window
import MaiaMeet.RoomStore
set_option autoImplicit false

/-! The limiter of one connection over whole runs of the server. -/

namespace MaiaMeet

def Connection.limiter (conn : Connection) : Window := ⟨conn.tokens,conn.lastRefill⟩

def Server.limiter (s : Server) (c : ConnId) : Option Window :=
  (s.connections c).map Connection.limiter

theorem take_limiter (cfg : Config) (now : Nat) (conn : Connection) :
    (conn.take cfg now).limiter =
      conn.limiter.take cfg.rateLimitTokens cfg.rateLimitInterval now := by
  by_cases h : conn.lastRefill + cfg.rateLimitInterval ≤ now <;>
    simp [Connection.take,Connection.limiter,Window.take,h]

def ServerEvent.arrival (c : ConnId) : ServerEvent → Option Nat
  | .message d now _ _ => if d = c then some now else none
  | _ => none

def ServerEvent.clock (c : ConnId) : ServerEvent → Option Nat
  | .connection d now | .message d now _ _ => if d = c then some now else none
  | _ => none

def arrivals (c : ConnId) (es : List ServerEvent) : List Nat :=
  es.filterMap (ServerEvent.arrival c)

def Server.admits (cfg : Config) (s : Server) (c : ConnId) (now : Nat) : Bool :=
  (s.alive c).any (fun conn => 0 ≤ (conn.take cfg now).tokens)

def Server.passed (cfg : Config) (c : ConnId) : Server → List ServerEvent → List Nat
  | _, [] => []
  | s, e :: es =>
    ((e.arrival c).filter (s.admits cfg c)).toList ++
      match s.step cfg e with
      | some (t,_) => t.passed cfg c es
      | none => []

/-- What the handler does with a message behind the limiter. -/
def Server.pastLimiter (cfg : Config) (s : Server) (c : ConnId) (conn : Connection) (now : Nat)
    (uuid : JsString) (data : Data) : Server × List Sent :=
  match envelope data with
  | .error message => (s,s.fail c 400 message none)
  | .ok m => s.dispatch cfg c conn now uuid m

def Body.isLimit : Body → Bool
  | .error code _ => code = 429
  | _ => false

structure Server.Limits (cfg : Config) (s : Server) (c : ConnId) (conn : Connection) (now : Nat)
    (uuid : JsString) (data : Data) (t : Server) (out : List Sent) : Prop where
  admitted : s.admits cfg c now → (t,out) = (s.charge cfg c conn now uuid).pastLimiter cfg c
    (conn.take cfg now) now uuid data
  refused : ¬s.admits cfg c now → t = s.charge cfg c conn now uuid ∧
    out = t.fail c 429 "Rate limit exceeded" none
  answered : s.isOpen c → (s.admits cfg c now ↔ ∀ m ∈ out, ¬m.body.isLimit)

theorem put_limiter (s : Server) (c d : ConnId) (conn : Connection) :
    (s.put d conn).limiter c = if c = d then some conn.limiter else s.limiter c := by
  unfold Server.limiter
  split
  · rename_i h
    rw [h,put_connections_self]
    rfl
  · rename_i h
    rw [put_connections_ne s conn h]

theorem limiter_congr {s t : Server} (h : s.connections = t.connections) (c : ConnId) :
    s.limiter c = t.limiter c := by simp [Server.limiter,h]

theorem limiter_of_alive {s : Server} {c : ConnId} {conn : Connection}
    (h : s.alive c = some conn) : s.limiter c = some conn.limiter := by
  rw [Server.limiter,((alive_eq_some_iff s c conn).mp h).1]
  rfl

theorem outcome_limiter {cfg : Config} {s t : Server} {c d : ConnId} {conn : Connection}
    {now : Nat} {uuid : JsString} {data : Data} {out : List Sent}
    (h : Outcome cfg s d conn now uuid data t out) (hd : s.connections d = some conn) :
    t.limiter c = s.limiter c := by
  cases h with
  | reply | relayed | chatted => rfl
  | joined m roomId displayName =>
    have := put_limiter s c d { conn with participant := some ⟨uuid,displayName,roomId,d⟩ }
    refine Eq.trans this ?_
    split
    · rename_i hcd
      rw [hcd,Server.limiter,hd]
      rfl
    · rfl

theorem onClose_connections {s t : Server} {conn : Connection} {out : List Sent}
    (h : s.onClose conn = some (t,out)) : t.connections = s.connections := by
  unfold Server.onClose at h
  split at h
  · cases h
    rfl
  · simp only [Option.bind_eq_bind,Option.bind_eq_some_iff,Option.pure_def,Option.some.injEq,
      Prod.mk.injEq] at h
    obtain ⟨room,hr,rfl,rfl⟩ := h
    rfl

/-- One event: a message of the connection charges its limiter, any other event leaves
it alone. -/
theorem limiter_step {cfg : Config} {s t : Server} {e : ServerEvent} {out : List Sent}
    (h : s.step cfg e = some (t,out)) {c : ConnId} {w : Window} (hw : s.limiter c = some w) :
    t.limiter c = some (match e.arrival c with
      | some now => w.take cfg.rateLimitTokens cfg.rateLimitInterval now
      | none => w) := by
  have hkeep : ∀ d conn conn', s.alive d = some conn → conn'.limiter = conn.limiter →
      (s.put d conn').limiter c = some w := by
    intro d conn conn' hd he
    rw [put_limiter]
    split
    · rename_i hcd
      rw [he,← limiter_of_alive hd,← hcd,hw]
    · exact hw
  unfold Server.step at h
  split at h
  case isFalse => cases h
  case isTrue he =>
    cases e with
    | connection d now =>
      simp only [Server.handle,Option.some.injEq,Prod.mk.injEq] at h
      obtain ⟨rfl,rfl⟩ := h
      have hd : s.connections d = none := by simpa [Server.enabled] using he
      rw [put_limiter,if_neg]
      · exact hw
      · rintro rfl
        simp [Server.limiter,hd] at hw
    | message d now uuid data =>
      simp only [Server.handle,Option.bind_eq_bind,Option.bind_eq_some_iff,Option.pure_def,
        Option.some.injEq] at h
      obtain ⟨conn,hd,ht⟩ := h
      have ho := onMessage_outcome cfg { s with uuids := uuid :: s.uuids } d conn now uuid data
      rw [ht] at ho
      rw [outcome_limiter ho (put_connections_self _ d _),put_limiter,take_limiter]
      by_cases hcd : c = d
      · subst hcd
        rw [limiter_of_alive hd,Option.some.injEq] at hw
        simp [ServerEvent.arrival,hw]
      · have hdc : d ≠ c := fun hdc => hcd hdc.symm
        simp only [if_neg hcd,ServerEvent.arrival,if_neg hdc]
        exact hw
    | pong d | closing d =>
      simp only [Server.handle,Option.bind_eq_bind,Option.bind_eq_some_iff,Option.pure_def,
        Option.some.injEq,Prod.mk.injEq] at h
      obtain ⟨conn,hd,rfl,rfl⟩ := h
      exact hkeep d conn _ hd rfl
    | heartbeat d =>
      simp only [Server.handle,Option.bind_eq_bind,Option.bind_eq_some_iff,Option.pure_def] at h
      obtain ⟨conn,hd,h⟩ := h
      split at h
      · cases h
        exact hkeep d conn _ hd rfl
      · cases h
        exact hkeep d conn _ hd rfl
    | close d =>
      simp only [Server.handle,Option.bind_eq_bind,Option.bind_eq_some_iff] at h
      obtain ⟨conn,hd,h⟩ := h
      rw [limiter_congr (onClose_connections h)]
      exact hkeep d conn _ hd rfl

theorem connections_step {cfg : Config} {s t : Server} {e : ServerEvent} {out : List Sent}
    (h : s.step cfg e = some (t,out)) {c : ConnId} (hc : e.conn ≠ c) :
    t.connections c = s.connections c := by
  have hc : c ≠ e.conn := fun he => hc he.symm
  cases step_effect h with
  | connected d now hd => exact put_connections_ne s _ hc
  | handled d conn now uuid data t out hd hu ho =>
    have hcharge := put_connections_ne { s with uuids := uuid :: s.uuids }
      (conn.take cfg now) hc
    cases ho with
    | reply | relayed | chatted => exact hcharge
    | joined => exact (put_connections_ne _ _ hc).trans hcharge
  | kept _ d conn conn' hd hp hr ho he => exact put_connections_ne s _ (he ▸ hc)
  | left d conn => exact put_connections_ne s _ hc
  | closed d conn => exact put_connections_ne s _ hc

theorem clock_eq_none {c : ConnId} {e : ServerEvent} (h : e.conn ≠ c) : e.clock c = none := by
  cases e <;> simp_all [ServerEvent.conn,ServerEvent.clock]

theorem arrival_eq_none {c : ConnId} {e : ServerEvent} (h : e.conn ≠ c) :
    e.arrival c = none := by
  cases e <;> simp_all [ServerEvent.conn,ServerEvent.arrival]

section
variable {cfg : Config} {s : Server} {c : ConnId} {log : List Sent} {es : List ServerEvent}
  {v : Server × List Sent}

theorem admits_eq {conn : Connection} (h : s.alive c = some conn) (now : Nat) :
    s.admits cfg c now ↔
      0 ≤ (conn.limiter.take cfg.rateLimitTokens cfg.rateLimitInterval now).tokens := by
  rw [← take_limiter,Server.admits,h]
  simp [Connection.limiter]

theorem alive_of_arrival {t : Server} {e : ServerEvent} {out : List Sent} {now : Nat}
    (h : s.step cfg e = some (t,out)) (he : e.arrival c = some now) :
    ∃ conn, s.alive c = some conn := by
  cases e with
  | message d now uuid data =>
    simp only [ServerEvent.arrival,Option.ite_none_right_eq_some] at he
    obtain ⟨rfl,_⟩ := he
    unfold Server.step at h
    split at h
    · rename_i henabled
      simp only [Server.enabled,Bool.and_eq_true] at henabled
      exact Option.isSome_iff_exists.mp henabled.1
    · cases h
  | connection | pong | heartbeat | closing | close => cases he

theorem clock_eq_arrival {t : Server} {e : ServerEvent} {out : List Sent} {w : Window}
    (h : s.step cfg e = some (t,out)) (hw : s.limiter c = some w) :
    e.clock c = e.arrival c := by
  cases e with
  | connection d now =>
    unfold Server.step at h
    split at h
    · rename_i henabled
      have hd : s.connections d = none := by simpa [Server.enabled] using henabled
      simp only [ServerEvent.clock,ServerEvent.arrival,ite_eq_right_iff]
      rintro rfl
      simp [Server.limiter,hd] at hw
    · cases h
  | message | pong | heartbeat | closing | close => rfl

/-- From its connection event on, a connection's messages meet a window of their own. -/
theorem passed_of_limiter {w : Window} (hw : s.limiter c = some w)
    (h : Runs.exec (Server.advance cfg) (s,log) es = some v) :
    s.passed cfg c es = w.passed cfg.rateLimitTokens cfg.rateLimitInterval (arrivals c es) ∧
      es.filterMap (ServerEvent.clock c) = arrivals c es := by
  induction es generalizing s log w with
  | nil => exact ⟨rfl,rfl⟩
  | cons e es ih =>
    obtain ⟨⟨t,log'⟩,hstep,hrun⟩ := Runs.exec_cons_some.mp h
    obtain ⟨out,hstep,_⟩ := advance_eq_some.mp hstep
    obtain ⟨hpassed,hclock⟩ := ih (limiter_step hstep hw) hrun
    simp only at hstep
    have he := clock_eq_arrival hstep hw
    cases ha : e.arrival c with
    | none =>
      rw [ha] at hpassed he
      simp [Server.passed,hstep,ha,he,arrivals,hpassed,hclock]
    | some now =>
      obtain ⟨conn,hd⟩ := alive_of_arrival hstep ha
      rw [limiter_of_alive hd,Option.some.injEq] at hw
      subst hw
      rw [ha] at hpassed he
      have hadmits : s.admits cfg c now ↔
        0 ≤ (conn.limiter.take cfg.rateLimitTokens cfg.rateLimitInterval now).tokens :=
          admits_eq hd now
      simp only at hpassed
      simp only [arrivals] at hpassed hclock ⊢
      simp only [Server.passed,hstep,List.filterMap_cons,ha,he,Window.passed,← hpassed,hclock,
        ← hadmits,and_true,Option.filter_some]
      split <;> rfl

theorem limiter_none_step {t : Server} {e : ServerEvent} {out : List Sent}
    (h : s.step cfg e = some (t,out)) (hs : s.limiter c = none) :
    (e.clock c = none ∧ e.arrival c = none ∧ t.limiter c = none) ∨
      ∃ now, e.clock c = some now ∧ e.arrival c = none ∧
        t.limiter c = some ⟨cfg.rateLimitTokens,now⟩ := by
  by_cases hec : e.conn = c
  · have hd : s.connections c = none := by simpa [Server.limiter] using hs
    have halive : s.alive c = none := by simp [Server.alive,hd]
    unfold Server.step at h
    split at h
    · rename_i henabled
      cases e with
      | connection d now =>
        simp only [ServerEvent.conn] at hec
        subst hec
        cases h
        exact Or.inr ⟨now,by simp [ServerEvent.clock],rfl,by rw [put_limiter,if_pos rfl]; rfl⟩
      | message d | pong d | heartbeat d | closing d | close d =>
        simp only [ServerEvent.conn] at hec
        subst hec
        simp [Server.enabled,halive] at henabled
    · cases h
  · have ht : t.limiter c = s.limiter c := by
      rw [Server.limiter,connections_step h hec,Server.limiter]
    exact Or.inl ⟨clock_eq_none hec,arrival_eq_none hec,ht.trans hs⟩

theorem passed_of_unconnected (hs : s.limiter c = none)
    (h : Runs.exec (Server.advance cfg) (s,log) es = some v) :
    (s.passed cfg c es = [] ∧ arrivals c es = []) ∨
      ∃ start, es.filterMap (ServerEvent.clock c) = start :: arrivals c es ∧
        s.passed cfg c es = Window.passed cfg.rateLimitTokens cfg.rateLimitInterval
          ⟨cfg.rateLimitTokens,start⟩ (arrivals c es) := by
  induction es generalizing s log with
  | nil => exact Or.inl ⟨rfl,rfl⟩
  | cons e es ih =>
    obtain ⟨⟨t,log'⟩,hstep,hrun⟩ := Runs.exec_cons_some.mp h
    obtain ⟨out,hstep,_⟩ := advance_eq_some.mp hstep
    simp only at hstep
    rcases limiter_none_step hstep hs with ⟨hclock,ha,ht⟩ | ⟨start,hclock,ha,ht⟩
    · have hpassed : s.passed cfg c (e :: es) = t.passed cfg c es := by
        simp [Server.passed,hstep,ha]
      have harrivals : arrivals c (e :: es) = arrivals c es := by simp [arrivals,ha]
      rw [hpassed,harrivals,List.filterMap_cons_none hclock]
      exact ih ht hrun
    · obtain ⟨hpassed,hclocks⟩ := passed_of_limiter ht hrun
      have hcons : s.passed cfg c (e :: es) = t.passed cfg c es := by
        simp [Server.passed,hstep,ha]
      have harrivals : arrivals c (e :: es) = arrivals c es := by simp [arrivals,ha]
      rw [hcons,harrivals,List.filterMap_cons_some hclock,hclocks,hpassed]
      exact Or.inr ⟨start,rfl,rfl⟩

end

section
variable {cfg : Config} {s : Server} {c : ConnId} {conn : Connection} {uuid : JsString}

theorem fail_not_limit {code : Nat} (h : code ≠ 429) (message : String)
    (requestId : Option JsString) : ∀ m ∈ s.fail c code message requestId, ¬m.body.isLimit := by
  intro m hm
  rw [body_of_send hm,Body.isLimit]
  simpa using h

theorem join_not_limit (payload : Json) (requestId : Option JsString) :
    ∀ m ∈ (s.join cfg c conn uuid payload requestId).2, ¬m.body.isLimit := by
  intro m hm
  unfold Server.join at hm
  split at hm
  · exact fail_not_limit (by decide) _ _ m hm
  · split at hm
    · exact fail_not_limit (by decide) _ _ m hm
    · split at hm
      · exact fail_not_limit (by decide) _ _ m hm
      · rcases List.mem_append.mp hm with hm | hm
        · simp [body_of_send hm,Body.isLimit]
        · simp [body_of_broadcast hm,Body.isLimit]

theorem act_not_limit (p : Participant) (now : Nat) (e : Envelope) :
    ∀ m ∈ s.act c p now e, ¬m.body.isLimit := by
  intro m hm
  unfold Server.act at hm
  split at hm
  · split at hm
    · exact fail_not_limit (by decide) _ _ m hm
    · unfold Server.relay at hm
      split at hm
      · exact fail_not_limit (by decide) _ _ m hm
      · split at hm
        · exact fail_not_limit (by decide) _ _ m hm
        · simp [body_of_send hm,Body.isLimit]
  · split at hm
    · exact fail_not_limit (by decide) _ _ m hm
    · split at hm
      · exact fail_not_limit (by decide) _ _ m hm
      · simp [body_of_broadcast hm,Body.isLimit]
  · exact fail_not_limit (by decide) _ _ m hm

theorem pastLimiter_not_limit (now : Nat) (data : Data) :
    ∀ m ∈ (s.pastLimiter cfg c conn now uuid data).2, ¬m.body.isLimit := by
  intro m hm
  unfold Server.pastLimiter at hm
  split at hm
  · exact fail_not_limit (by decide) _ _ m hm
  · unfold Server.dispatch at hm
    split at hm
    · simp [body_of_send hm,Body.isLimit]
    · simp [body_of_send hm,Body.isLimit]
    · exact join_not_limit _ _ m hm
    · split at hm
      · exact fail_not_limit (by decide) _ _ m hm
      · exact act_not_limit _ _ _ m hm

theorem limits_step {t : Server} {now : Nat} {data : Data} {out : List Sent}
    (hc : s.alive c = some conn) (h : s.step cfg (.message c now uuid data) = some (t,out)) :
    s.Limits cfg c conn now uuid data t out := by
  have hadmits : s.admits cfg c now ↔ ¬(conn.take cfg now).tokens < 0 := by
    simp [Server.admits,hc]
  have hhandled : (t,out) = if (conn.take cfg now).tokens < 0
      then (s.charge cfg c conn now uuid,
        (s.charge cfg c conn now uuid).fail c 429 "Rate limit exceeded" none)
      else (s.charge cfg c conn now uuid).pastLimiter cfg c (conn.take cfg now) now uuid data := by
    unfold Server.step at h
    split at h
    · simp only [Server.handle,hc,Option.bind_eq_bind,Option.bind_some,Option.pure_def,
        Option.some.injEq] at h
      exact h.symm
    · cases h
  by_cases ht : (conn.take cfg now).tokens < 0
  · rw [if_pos ht,Prod.mk.injEq] at hhandled
    obtain ⟨rfl,rfl⟩ := hhandled
    refine ⟨fun ha => absurd ht (hadmits.mp ha),fun _ => ⟨rfl,rfl⟩,fun ho => ?_⟩
    refine ⟨fun ha => absurd ht (hadmits.mp ha),fun hall => ?_⟩
    have hopen : (s.charge cfg c conn now uuid).isOpen c := by
      rw [Server.isOpen,((alive_eq_some_iff s c conn).mp hc).1] at ho
      simpa [Server.isOpen,Server.charge] using ho
    exact absurd rfl (hall _ (mem_send.mpr ⟨hopen,rfl⟩))
  · rw [if_neg ht] at hhandled
    refine ⟨fun _ => hhandled,fun ha => absurd (hadmits.mpr ht) ha,fun _ => ?_⟩
    refine ⟨fun _ m hm => ?_,fun _ => hadmits.mpr ht⟩
    exact pastLimiter_not_limit now data m (by rw [← hhandled]; exact hm)

end

/-- The limiter over any run: at most twice the tokens pass in an interval of the window's
length, and arrivals within the tokens in every such interval all pass. To pass is to be
dispatched, and not to pass is to be answered by the error alone. -/
theorem rate_limit (cfg : Config) (es : List ServerEvent) (s : Server) (log : List Sent)
    (h : Server.run cfg es = some (s,log)) (c : ConnId)
    (hclock : (es.filterMap (ServerEvent.clock c)).Pairwise (· ≤ ·)) :
    (∀ a, (Server.init.passed cfg c es).countP (Window.within a cfg.rateLimitInterval) ≤
      2*cfg.rateLimitTokens) ∧
    ((∀ a, (arrivals c es).countP (Window.within a cfg.rateLimitInterval) ≤
      cfg.rateLimitTokens) → Server.init.passed cfg c es = arrivals c es) ∧
    ∀ es₁ now uuid data es₂ u log₁, es = es₁ ++ .message c now uuid data :: es₂ →
      Server.run cfg es₁ = some (u,log₁) → ∃ conn t out, u.alive c = some conn ∧
        u.step cfg (.message c now uuid data) = some (t,out) ∧
        u.Limits cfg c conn now uuid data t out := by
  have hsteps : ∀ es₁ now uuid data es₂ u log₁, es = es₁ ++ .message c now uuid data :: es₂ →
      Server.run cfg es₁ = some (u,log₁) → ∃ conn t out, u.alive c = some conn ∧
        u.step cfg (.message c now uuid data) = some (t,out) ∧
        u.Limits cfg c conn now uuid data t out := by
    rintro es₁ now uuid data es₂ u log₁ rfl hu
    obtain ⟨v,hv,hrest⟩ := Runs.exec_append_some.mp h
    cases hv.symm.trans hu
    obtain ⟨⟨t,log₂⟩,hstep,_⟩ := Runs.exec_cons_some.mp hrest
    obtain ⟨out,hstep,_⟩ := advance_eq_some.mp hstep
    obtain ⟨conn,hc,_⟩ := message_outcome hstep
    exact ⟨conn,t,out,hc,hstep,limits_step hc hstep⟩
  rcases passed_of_unconnected rfl h with ⟨hpassed,harrivals⟩ | ⟨start,hclocks,hpassed⟩
  · rw [hpassed,harrivals]
    exact ⟨fun a => Nat.zero_le _,fun _ => rfl,hsteps⟩
  · rw [hclocks,List.pairwise_cons] at hclock
    obtain ⟨hstart,harrivals⟩ := hclock
    rw [hpassed]
    exact ⟨Window.countP_passed_le (Int.le_refl _) harrivals,
      Window.passed_eq_self hstart harrivals cfg.rateLimitInterval_pos,hsteps⟩

def flood : List ServerEvent :=
  [.connection 0 0,.message 0 1 (js "a") .binary,.message 0 2 (js "b") .binary,
    .message 0 3 (js "c") .binary,.message 0 1000 (js "d") .binary]

def paced : List ServerEvent :=
  [.connection 0 0,.message 0 1 (js "a") .binary,.message 0 1001 (js "b") .binary,
    .message 0 2500 (js "c") .binary]

/-- A flood in the first second costs the next second nothing, its second message is refused, and
paced messages all pass. -/
theorem rate_limit_flood :
    ((∀ a, (Server.init.passed strictConfig 0 flood).countP (Window.within a 1000) ≤ 2) ∧
      Server.init.passed strictConfig 0 flood = [1,1000] ∧
      ∃ u log conn t, Server.run strictConfig (flood.take 2) = some (u,log) ∧
        u.step strictConfig (.message 0 2 (js "b") .binary) =
          some (t,[⟨0,.error 429 (js "Rate limit exceeded"),none⟩]) ∧
        u.Limits strictConfig 0 conn 2 (js "b") .binary t
          [⟨0,.error 429 (js "Rate limit exceeded"),none⟩]) ∧
    Server.init.passed strictConfig 0 paced = [1,1001,2500] := by
  refine ⟨?_,?_⟩
  · have hrun : (Server.run strictConfig flood).isSome := by decide +kernel
    obtain ⟨⟨s,log⟩,hrun⟩ := Option.isSome_iff_exists.mp hrun
    have h := rate_limit strictConfig flood s log hrun 0 (by decide)
    refine ⟨h.1,by decide +kernel,?_⟩
    have hout : (Server.run strictConfig (flood.take 2)).bind (fun w =>
        (w.1.step strictConfig (.message 0 2 (js "b") .binary)).map Prod.snd) =
        some [⟨0,.error 429 (js "Rate limit exceeded"),none⟩] := by decide +kernel
    obtain ⟨⟨u,log₁⟩,hu,hstep⟩ := Option.bind_eq_some_iff.mp hout
    obtain ⟨⟨t,out⟩,hstep,rfl⟩ := Option.map_eq_some_iff.mp hstep
    obtain ⟨conn,t',out',_,hstep',hlimits⟩ := h.2.2 _ 2 (js "b") .binary _ u log₁ rfl hu
    cases hstep.symm.trans hstep'
    exact ⟨u,log₁,conn,t,hu,hstep,hlimits⟩
  · have hrun : (Server.run strictConfig paced).isSome := by decide +kernel
    obtain ⟨⟨s,log⟩,hrun⟩ := Option.isSome_iff_exists.mp hrun
    refine (rate_limit strictConfig paced s log hrun 0 (by decide)).2.1 ?_
    intro a
    have harrivals : arrivals 0 paced = [1,1001,2500] := rfl
    rw [harrivals]
    simp only [List.countP_cons,List.countP_nil,Window.within,strictConfig,defaultConfig,decide_eq_true_eq]
    split <;> split <;> split <;> omega

end MaiaMeet
