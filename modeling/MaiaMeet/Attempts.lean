import MaiaMeet.Page
set_option autoImplicit false

/-! What the sockets and timers of earlier join attempts may still do to the page. -/

namespace MaiaMeet

def SignalingClient.Left (c : SignalingClient) : Prop :=
  c.isIntentionalClose = true ∧ (c.readyState = .closing ∨ c.readyState = .closed)

def PageEvent.attempt : PageEvent → Option Nat
  | .opened i _ | .message i _ | .error i | .close i | .connectTimeout i | .requestTimeout i _ =>
    some i
  | _ => none

namespace Page

def Earlier (p : Page) (e : PageEvent) : Prop := ∃ i, e.attempt = some i ∧ i + 1 < p.clients.length

instance (p : Page) (e : PageEvent) : Decidable (p.Earlier e) :=
  decidable_of_iff (∃ i ∈ e.attempt, i + 1 < p.clients.length) (by simp [Earlier])

structure Undisturbed (p u : Page) (e : PageEvent) : Prop where
  clients : ∀ i k, e.attempt = some i → i < k → u.clients[k]? = p.clients[k]?
  webrtc : u.webrtc = p.webrtc
  room : u.room = p.room
  tiles : u.tiles = p.tiles
  view : u.view = p.view
  devices : p.view = .room → u.devices = p.devices

/-- The event rejects the promise of connect() or of the request of its attempt. -/
def rejects (p : Page) : PageEvent → Bool
  | .error i | .connectTimeout i => (p.clients[i]?).any (fun c => c.connecting)
  | .close i => (p.clients[i]?).any SignalingClient.waiting
  | .requestTimeout i requestId => (p.clients[i]?).any (fun c => requestId ∈ c.pendingRequests)
  | _ => false

def Harmless (p : Page) (e : PageEvent) : Prop :=
  p.Earlier e → p.rejects e = true → p.view = .lobby

instance (p : Page) (e : PageEvent) : Decidable (p.Harmless e) :=
  inferInstanceAs (Decidable (_ → _ → _))

end Page

section
variable {c : SignalingClient}

theorem left_disconnect (c : SignalingClient) : c.disconnect.Left := by
  refine ⟨rfl,?_⟩
  unfold SignalingClient.disconnect
  cases c.readyState <;> simp

theorem disconnect_of_left (h : c.Left) : c.disconnect = c := by
  obtain ⟨readyState,isIntentionalClose,connecting,pendingRequests⟩ := c
  obtain ⟨rfl,rfl | rfl⟩ := h <;> rfl

theorem closed_disconnect (h : c.disconnect.readyState = .closed) : c.readyState = .closed := by
  unfold SignalingClient.disconnect at h
  cases hs : c.readyState <;> simp [hs] at h ⊢

end

namespace Page

structure Kept (p : Page) : Prop where
  earlier : ∀ (i : Nat) (c : SignalingClient), p.clients[i]? = some c →
    i + 1 < p.clients.length → c.Left
  settled : ∀ (i : Nat) (c : SignalingClient), p.clients[i]? = some c → c.readyState = .closed →
    c.waiting = false

structure Inv (p : Page) : Prop extends Kept p where
  last : p.view ≠ .room → ∀ (i : Nat) (c : SignalingClient), p.clients[i]? = some c → c.Left
  webrtc : p.view ≠ .room → p.webrtc = none
  room : p.view ≠ .room → p.room = RoomState.empty
  tiles : p.view ≠ .room → p.tiles = []

section
variable {p u : Page} {i : Nat} {c d : SignalingClient}

theorem getElem?_leaveRoom (p : Page) (i : Nat) : p.leaveRoom.clients[i]? =
    (p.clients[i]?).map (fun c => if i = p.current then c.disconnect else c) := by
  simp only [leaveRoom,List.getElem?_modify,eq_comm (a := p.current)]
  rfl

theorem length_leaveRoom (p : Page) : p.leaveRoom.clients.length = p.clients.length :=
  List.length_modify _ _ _

theorem inv_leaveRoom (h : p.Kept) : p.leaveRoom.Inv where
  earlier := by
    intro i c hc hi
    rw [getElem?_leaveRoom] at hc
    rw [length_leaveRoom] at hi
    obtain ⟨d,hd,rfl⟩ := Option.map_eq_some_iff.mp hc
    split
    · exact left_disconnect d
    · exact h.earlier i d hd hi
  settled := by
    intro i c hc hclosed
    rw [getElem?_leaveRoom] at hc
    obtain ⟨d,hd,rfl⟩ := Option.map_eq_some_iff.mp hc
    by_cases hi : i = p.current
    · rw [if_pos hi] at hclosed ⊢
      exact h.settled i d hd (closed_disconnect hclosed)
    · rw [if_neg hi] at hclosed ⊢
      exact h.settled i d hd hclosed
  last := by
    intro _ i c hc
    rw [getElem?_leaveRoom] at hc
    obtain ⟨d,hd,rfl⟩ := Option.map_eq_some_iff.mp hc
    have hlt : i < p.clients.length := (List.getElem?_eq_some_iff.mp hd).1
    split
    · exact left_disconnect d
    · rename_i hne
      exact h.earlier i d hd (by unfold current at hne; omega)
  webrtc := fun _ => rfl
  room := fun _ => rfl
  tiles := fun _ => rfl

theorem getElem?_setAt (hc : p.clients[i]? = some c) (d : SignalingClient) (k : Nat) :
    (p.setAt i d).clients[k]? = if k = i then some d else p.clients[k]? := by
  have hlt := (List.getElem?_eq_some_iff.mp hc).1
  by_cases hk : k = i
  · subst hk
    simp [setAt,hlt]
  · simp [setAt,hk,Ne.symm hk]

theorem kept_setAt (h : p.Kept) (hc : p.clients[i]? = some c) (hleft : c.Left → d.Left)
    (hsettled : d.readyState = .closed → d.waiting = false) : (p.setAt i d).Kept where
  earlier := by
    intro k d' hd' hk
    rw [getElem?_setAt hc] at hd'
    rw [show (p.setAt i d).clients.length = p.clients.length from List.length_set] at hk
    split at hd'
    · rename_i hki
      subst hki
      cases hd'
      exact hleft (h.earlier k c hc hk)
    · exact h.earlier k d' hd' hk
  settled := by
    intro k d' hd' hclosed
    rw [getElem?_setAt hc] at hd'
    split at hd'
    · cases hd'; exact hsettled hclosed
    · exact h.settled k d' hd' hclosed

theorem inv_setAt (h : p.Inv) (hc : p.clients[i]? = some c) (hleft : c.Left → d.Left)
    (hsettled : d.readyState = .closed → d.waiting = false) : (p.setAt i d).Inv where
  toKept := kept_setAt h.toKept hc hleft hsettled
  last := by
    intro hview k d' hd'
    rw [getElem?_setAt hc] at hd'
    split at hd'
    · cases hd'; exact hleft (h.last hview i c hc)
    · exact h.last hview k d' hd'
  webrtc := h.webrtc
  room := h.room
  tiles := h.tiles

theorem open_last (h : p.Inv) (hc : p.clients[i]? = some c)
    (hopen : c.readyState = .connecting ∨ c.readyState = .opened) :
    i + 1 = p.clients.length ∧ p.view = .room := by
  have hnot : ¬ c.Left := by
    rintro ⟨-,hs | hs⟩ <;> rw [hs] at hopen <;> rcases hopen with hopen | hopen <;> cases hopen
  have hlt := (List.getElem?_eq_some_iff.mp hc).1
  refine ⟨?_,?_⟩
  · by_contra hne
    exact hnot (h.earlier i c hc (by omega))
  · by_contra hview
    exact hnot (h.last hview i c hc)

theorem inv_withClient (h : p.Inv) (hview : p.view = .room) (client : Client) :
    (p.withClient client).Inv where
  toKept := ⟨h.earlier,h.settled⟩
  last := fun hne => absurd hview hne
  webrtc := fun hne => absurd hview hne
  room := fun hne => absurd hview hne
  tiles := fun hne => absurd hview hne

theorem inv_onJoinRoom (h : p.Inv) (hview : p.view ≠ .room) (devices : Devices) :
    Inv { p with devices := devices }.onJoinRoom where
  earlier := by
    intro i c hc hi
    have hi : i < p.clients.length := by simpa [onJoinRoom] using hi
    have hc : p.clients[i]? = some c := by
      simpa [onJoinRoom,List.getElem?_append_left hi] using hc
    exact h.last hview i c hc
  settled := by
    intro i c hc hclosed
    by_cases hi : i < p.clients.length
    · exact h.settled i c (by simpa [onJoinRoom,List.getElem?_append_left hi] using hc) hclosed
    · have hlt := (List.getElem?_eq_some_iff.mp hc).1
      simp only [onJoinRoom,List.length_append,List.length_singleton] at hlt
      have hlast : i = p.clients.length := by omega
      subst hlast
      have hnew : c = .new := by simpa [onJoinRoom] using hc.symm
      rw [hnew] at hclosed
      cases hclosed
  last := fun hne => absurd rfl hne
  webrtc := fun hne => absurd rfl hne
  room := fun hne => absurd rfl hne
  tiles := fun hne => absurd rfl hne

theorem inv_sendRequest (h : p.Inv) (requestId : JsString) : (p.sendRequest requestId).Inv := by
  unfold sendRequest
  cases hc : p.clients[p.current]? with
  | none => exact inv_leaveRoom h.toKept
  | some c =>
    simp only
    split
    · rename_i hopen
      refine inv_setAt h hc (fun hl => hl) (fun hclosed => ?_)
      simp only [hopen] at hclosed
      cases hclosed
    · exact inv_leaveRoom h.toKept

theorem inv_handleMessage (h : p.Inv) (hc : p.clients[i]? = some c)
    (hopen : c.readyState = .opened) (m : Sent) : (p.handleMessage i c m).Inv := by
  have hview := (open_last h hc (Or.inr hopen)).2
  unfold handleMessage
  cases m.requestId with
  | none => exact inv_withClient h hview _
  | some requestId =>
    simp only
    split
    · have hset := inv_setAt (d := { c with
        pendingRequests := c.pendingRequests.erase requestId }) h hc (fun hl => hl)
        (fun hclosed => by rw [show c.readyState = .closed from hclosed] at hopen; cases hopen)
      have hemit := inv_withClient hset hview
      cases m.body with
      | roomJoined => exact inv_withClient (hemit _) hview _
      | _ => exact inv_leaveRoom (hemit _).toKept
    · exact inv_withClient h hview _

theorem inv_onclose (h : p.Inv) (hc : p.clients[i]? = some c) : (p.onclose i c).Inv := by
  let d : SignalingClient :=
    { c with readyState := .closed, connecting := false, pendingRequests := [] }
  have hset : (p.setAt i d).Inv :=
    inv_setAt h hc (fun hl => ⟨hl.1,Or.inr rfl⟩) (fun _ => rfl)
  have hemit : (if c.isIntentionalClose then p.setAt i d else (p.setAt i d).leaveRoom).Inv := by
    split
    · exact hset
    · exact inv_leaveRoom hset.toKept
  unfold onclose
  simp only
  split
  · exact inv_leaveRoom hemit.toKept
  · exact hemit

theorem inv_devices (h : p.Inv) (devices : Devices) : Inv { p with devices := devices } where
  toKept := ⟨h.earlier,h.settled⟩
  last := h.last
  webrtc := h.webrtc
  room := h.room
  tiles := h.tiles

theorem inv_view (h : p.Inv) (hview : p.view ≠ .room) (devices : Devices) (view : PageView) :
    Inv { p with devices := devices, view := view } where
  toKept := ⟨h.earlier,h.settled⟩
  last := fun _ => h.last hview
  webrtc := fun _ => h.webrtc hview
  room := fun _ => h.room hview
  tiles := fun _ => h.tiles hview

theorem inv_step (h : p.Inv) {e : PageEvent} (hu : p.step e = some u) : u.Inv := by
  cases e with
  | preview viewer =>
    simp only [step,Option.ite_none_right_eq_some,Option.some.injEq] at hu
    obtain ⟨hview,rfl⟩ := hu
    exact inv_view h (by rw [hview]; decide) _ _
  | back =>
    simp only [step,Option.ite_none_right_eq_some,Option.some.injEq] at hu
    obtain ⟨hview,rfl⟩ := hu
    exact inv_view h (by rw [hview]; decide) _ _
  | join withoutDevices =>
    simp only [step,Option.ite_none_right_eq_some,Option.some.injEq] at hu
    obtain ⟨hview,rfl⟩ := hu
    have hne : p.view ≠ .room := by rw [hview]; decide
    split
    · exact inv_onJoinRoom h hne _
    · exact inv_onJoinRoom h hne p.devices
  | leave =>
    simp only [step,Option.ite_none_right_eq_some,Option.some.injEq] at hu
    obtain ⟨-,rfl⟩ := hu
    exact inv_leaveRoom h.toKept
  | opened i requestId =>
    obtain ⟨c,hc,hu⟩ := Option.bind_eq_some_iff.mp hu
    simp only [Option.ite_none_right_eq_some,Option.some.injEq] at hu
    obtain ⟨hready,rfl⟩ := hu
    have hset := inv_setAt (d := { c with readyState := .opened, connecting := false }) h hc
      (fun hl => by rcases hl with ⟨-,hl | hl⟩ <;> rw [hready] at hl <;> cases hl)
      (fun hclosed => by cases hclosed)
    split
    · exact inv_sendRequest hset requestId
    · exact hset
  | message i m =>
    obtain ⟨c,hc,hu⟩ := Option.bind_eq_some_iff.mp hu
    simp only [Option.ite_none_right_eq_some,Option.some.injEq] at hu
    obtain ⟨hopen,rfl⟩ := hu
    exact inv_handleMessage h hc hopen m
  | error i =>
    obtain ⟨c,hc,hu⟩ := Option.bind_eq_some_iff.mp hu
    simp only [Option.ite_none_left_eq_some,Option.some.injEq] at hu
    obtain ⟨hready,rfl⟩ := hu
    have hset := inv_setAt (d := { c with connecting := false }) h hc (fun hl => hl)
      (fun hclosed => absurd hclosed hready)
    split
    · exact inv_leaveRoom hset.toKept
    · exact hset
  | close i =>
    obtain ⟨c,hc,hu⟩ := Option.bind_eq_some_iff.mp hu
    simp only [Option.ite_none_left_eq_some,Option.some.injEq] at hu
    obtain ⟨-,rfl⟩ := hu
    exact inv_onclose h hc
  | connectTimeout i =>
    obtain ⟨c,hc,hu⟩ := Option.bind_eq_some_iff.mp hu
    simp only [Option.ite_none_right_eq_some,Option.some.injEq] at hu
    obtain ⟨hconnecting,rfl⟩ := hu
    refine inv_leaveRoom (kept_setAt h.toKept hc (fun _ => left_disconnect _) (fun hclosed => ?_))
    have hwaiting := h.settled i c hc (closed_disconnect hclosed)
    simp [SignalingClient.waiting,hconnecting] at hwaiting
  | requestTimeout i requestId =>
    obtain ⟨c,hc,hu⟩ := Option.bind_eq_some_iff.mp hu
    simp only [Option.ite_none_right_eq_some,Option.some.injEq] at hu
    obtain ⟨hpending,rfl⟩ := hu
    refine inv_leaveRoom (kept_setAt h.toKept hc (fun hl => hl) (fun hclosed => ?_))
    have hwaiting := h.settled i c hc hclosed
    have hempty : c.pendingRequests = [] := by
      simp only [SignalingClient.waiting,Bool.or_eq_false_iff,Bool.not_eq_false',
        List.isEmpty_iff] at hwaiting
      exact hwaiting.2
    rw [hempty] at hpending
    cases hpending
  | half n kind granted =>
    obtain ⟨d,-,rfl⟩ := Option.map_eq_some_iff.mp hu
    exact inv_devices h d
  | session e =>
    obtain ⟨s,hs,hu⟩ := Option.bind_eq_some_iff.mp hu
    have hview : p.view = .room := by
      by_contra hne
      rw [h.webrtc hne] at hs
      cases hs
    simp only [Option.ite_none_right_eq_some,Option.map_eq_some_iff] at hu
    obtain ⟨-,r,-,rfl⟩ := hu
    exact inv_withClient h hview _

theorem undisturbed_setAt (hc : p.clients[i]? = some c) (d : SignalingClient) {e : PageEvent}
    (he : e.attempt = some i) : p.Undisturbed (p.setAt i d) e where
  clients := by
    intro j k hj hk
    rw [he,Option.some.injEq] at hj
    rw [getElem?_setAt hc,if_neg (by omega)]
  webrtc := rfl
  room := rfl
  tiles := rfl
  view := rfl
  devices := fun _ => rfl

/-- In the lobby leaveRoom finds nothing left to leave. -/
theorem undisturbed_leaveRoom (h : p.Inv) (hc : p.clients[i]? = some c) (d : SignalingClient)
    {e : PageEvent} (he : e.attempt = some i) (hlobby : p.view = .lobby) :
    p.Undisturbed (p.setAt i d).leaveRoom e := by
  have hne : p.view ≠ .room := by rw [hlobby]; decide
  constructor
  · intro j k hj hk
    rw [he,Option.some.injEq] at hj
    rw [getElem?_leaveRoom,getElem?_setAt hc,if_neg (by omega)]
    cases hk : p.clients[k]? with
    | none => rfl
    | some c' => simp [disconnect_of_left (h.last hne k c' hk)]
  · exact (h.webrtc hne).symm
  · exact (h.room hne).symm
  · exact (h.tiles hne).symm
  · exact hlobby.symm
  · intro hroom
    exact absurd hroom hne

theorem open_of_waiting (h : p.Inv) (hc : p.clients[i]? = some c) (hw : c.waiting = true) :
    c.readyState ≠ .closed := by
  intro hclosed
  rw [h.settled i c hc hclosed] at hw
  cases hw

theorem lobby_of_rejects (h : p.Inv) {e : PageEvent} (hr : p.rejects e = true) :
    ∃ u, p.step e = some u ∧ u.view = .lobby := by
  cases e with
  | error i =>
    obtain ⟨c,hc,hconnecting⟩ := (Option.any_eq_true _ _).mp hr
    have hopen := open_of_waiting h hc (by simp [SignalingClient.waiting,hconnecting])
    exact ⟨(p.setAt i { c with connecting := false }).leaveRoom,
      by simp [step,hc,hopen,hconnecting],rfl⟩
  | close i =>
    obtain ⟨c,hc,hwaiting⟩ := (Option.any_eq_true _ _).mp hr
    have hopen := open_of_waiting h hc hwaiting
    refine ⟨p.onclose i c,by simp [step,hc,hopen],?_⟩
    simp only [onclose,hwaiting]
    rfl
  | connectTimeout i =>
    obtain ⟨c,hc,hconnecting⟩ := (Option.any_eq_true _ _).mp hr
    exact ⟨(p.setAt i { c with connecting := false }.disconnect).leaveRoom,
      by simp [step,hc,hconnecting],rfl⟩
  | requestTimeout i requestId =>
    obtain ⟨c,hc,hpending⟩ := (Option.any_eq_true _ _).mp hr
    have hpending := of_decide_eq_true hpending
    exact ⟨(p.setAt i { c with
      pendingRequests := c.pendingRequests.erase requestId }).leaveRoom,
      by simp [step,hc,hpending],rfl⟩
  | _ => cases hr

theorem undisturbed_of_harmless (h : p.Inv) {e : PageEvent} (hearlier : p.Earlier e)
    (hharm : p.Harmless e) (hu : p.step e = some u) : p.Undisturbed u e := by
  obtain ⟨i,hi,hlt⟩ := hearlier
  have hlobby := hharm ⟨i,hi,hlt⟩
  have hsilent {j : Nat} {c : SignalingClient} (hj : e.attempt = some j)
      (hc : p.clients[j]? = some c) (ho : c.readyState = .connecting ∨ c.readyState = .opened) :
      False := by
    have hlast := (open_last h hc ho).1
    rw [hi,Option.some.injEq] at hj
    omega
  cases e with
  | opened j requestId =>
    obtain ⟨c,hc,hu⟩ := Option.bind_eq_some_iff.mp hu
    simp only [Option.ite_none_right_eq_some] at hu
    exact (hsilent rfl hc (Or.inl hu.1)).elim
  | message j m =>
    obtain ⟨c,hc,hu⟩ := Option.bind_eq_some_iff.mp hu
    simp only [Option.ite_none_right_eq_some] at hu
    exact (hsilent rfl hc (Or.inr hu.1)).elim
  | error j =>
    obtain ⟨c,hc,hu⟩ := Option.bind_eq_some_iff.mp hu
    simp only [Option.ite_none_left_eq_some,Option.some.injEq] at hu
    obtain ⟨-,rfl⟩ := hu
    split
    · rename_i hconnecting
      exact undisturbed_leaveRoom h hc _ rfl (hlobby (by simp [rejects,hc,hconnecting]))
    · exact undisturbed_setAt hc _ rfl
  | close j =>
    obtain ⟨c,hc,hu⟩ := Option.bind_eq_some_iff.mp hu
    simp only [Option.ite_none_left_eq_some,Option.some.injEq] at hu
    obtain ⟨-,rfl⟩ := hu
    cases hi
    have hint := (h.earlier i c hc hlt).1
    simp only [onclose,hint,if_true]
    split
    · rename_i hwaiting
      exact undisturbed_leaveRoom h hc _ rfl (hlobby (by simp [rejects,hc,hwaiting]))
    · exact undisturbed_setAt hc _ rfl
  | connectTimeout j =>
    obtain ⟨c,hc,hu⟩ := Option.bind_eq_some_iff.mp hu
    simp only [Option.ite_none_right_eq_some,Option.some.injEq] at hu
    obtain ⟨hconnecting,rfl⟩ := hu
    exact undisturbed_leaveRoom h hc _ rfl (hlobby (by simp [rejects,hc,hconnecting]))
  | requestTimeout j requestId =>
    obtain ⟨c,hc,hu⟩ := Option.bind_eq_some_iff.mp hu
    simp only [Option.ite_none_right_eq_some,Option.some.injEq] at hu
    obtain ⟨hpending,rfl⟩ := hu
    exact undisturbed_leaveRoom h hc _ rfl (hlobby (by simp [rejects,hc,hpending]))
  | _ => cases hi

theorem undisturbed_iff (h : p.Inv) (e : PageEvent) :
    (p.Earlier e → ∀ u ∈ p.step e, p.Undisturbed u e) ↔ p.Harmless e := by
  constructor
  · intro hund hearlier hr
    obtain ⟨u,hu,hlobby⟩ := lobby_of_rejects h hr
    rw [← (hund hearlier u hu).view,hlobby]
  · intro hharm hearlier u hu
    exact undisturbed_of_harmless h hearlier hharm hu

end

theorem inv_init : init.Inv where
  earlier := fun i c hc _ => by cases hc
  settled := fun i c hc _ => by cases hc
  last := fun _ i c hc => by cases hc
  webrtc := fun _ => rfl
  room := fun _ => rfl
  tiles := fun _ => rfl

end Page

open Page

/-- No event of an earlier attempt disturbs what came after it, in exactly the runs where
an earlier attempt is rejected in the lobby only. -/
theorem attempts_apart (es : List PageEvent) :
    Runs.Along Page.step (fun p e => p.Earlier e → ∀ u ∈ p.step e, p.Undisturbed u e) Page.init es ↔
      Runs.Along Page.step Harmless Page.init es :=
  Runs.along_congr_of_invariant (fun _ _ _ hp hu => inv_step hp hu)
    (fun _ e hp => undisturbed_iff hp e) inv_init

/-- A user joins, leaves before the answer, and joins again. -/
def rejoin : List PageEvent :=
  [.preview false,.join false,.opened 0 (js "q"),.leave,.preview false,.join false,
    .opened 1 (js "r")]

/-- The same, with the old socket closed in between; then once more, with the request answered
before the user leaves, and the old socket closed when the new room is there. -/
def slowRejoin : List PageEvent :=
  [.preview false,.join false,.opened 0 (js "q"),.leave,.close 0,.preview false,.join false,
    .opened 1 (js "r"),
    .message 1 ⟨0,.roomJoined (js "a") (js "abc") [⟨js "a",js "Ana"⟩] [],some (js "r")⟩,
    .leave,.preview false,.join false,.opened 2 (js "s"),.close 1]

theorem attempts_apart_slow_rejoin :
    Runs.Along Page.step (fun p e => p.Earlier e → ∀ u ∈ p.step e, p.Undisturbed u e) Page.init
        slowRejoin ∧
      (Runs.exec Page.step Page.init slowRejoin).map (fun p => (p.view,p.clients.length)) =
        some (.room,3) := ⟨(attempts_apart slowRejoin).mpr (by decide +kernel),by decide +kernel⟩

/-- The old socket's close rejects the old request, and the page leaves the new attempt. -/
theorem attempts_apart_rejoin :
    ¬ Runs.Along Page.step (fun p e => p.Earlier e → ∀ u ∈ p.step e, p.Undisturbed u e)
        Page.init (rejoin ++ [.close 0]) ∧
      ∃ p u, Runs.exec Page.step Page.init rejoin = some p ∧ p.step (.close 0) = some u ∧
        p.view = .room ∧ p.clients[1]? = some ⟨.opened,false,false,[js "r"]⟩ ∧
        u.view = .lobby ∧ u.clients[1]? = some ⟨.closing,true,false,[js "r"]⟩ := by
  have hrun : ((Runs.exec Page.step Page.init rejoin).filter (fun p => decide (p.view = .room ∧
      p.clients[1]? = some ⟨.opened,false,false,[js "r"]⟩ ∧ p.Earlier (.close 0) ∧
      ∃ u ∈ p.step (.close 0), u.view = .lobby ∧
        u.clients[1]? = some ⟨.closing,true,false,[js "r"]⟩))).isSome := by decide +kernel
  obtain ⟨p,hp⟩ := Option.isSome_iff_exists.mp hrun
  obtain ⟨hp,hc⟩ := Option.filter_eq_some_iff.mp hp
  obtain ⟨hroom,hopen,hearlier,u,hu,hlobby,hclosing⟩ := of_decide_eq_true hc
  refine ⟨fun h => ?_,p,u,hp,hu,hroom,hopen,hlobby,hclosing⟩
  have hlast := ((Runs.along_append hp).mp h).2.1 hearlier u hu
  rw [hlast.view,hroom] at hlobby
  cases hlobby

end MaiaMeet
