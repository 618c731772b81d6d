import MaiaMeet.RoomDevices
import MaiaMeet.VideoSender
import MaiaMeet.Writes
set_option autoImplicit false

/-! The screen share of one joined session, through the windows between its awaits. -/

namespace MaiaMeet

/-- What startScreenShare and stopScreenShare of app.js await, and not a toggle. -/
def Control.shares : Control → Bool
  | .startShare _ | .stopShare => true
  | .toggle _ => false

def Capture.pictures : Capture → Bool
  | .startScreenShare | .acquireTrack _ .video => true
  | _ => false

namespace RoomView

def Opened (v : RoomView) (o : Owner) : Prop :=
  ∃ a ∈ v.awaiting, a.2.shares = true ∧ o = .replace a.1

def Stopping (v : RoomView) : Prop := ∃ a ∈ v.awaiting, a.2 = .stopShare
  deriving Decidable

def ShareQuiet (v : RoomView) : Prop :=
  (∀ a ∈ v.awaiting, a.2.shares = false) ∧ (∀ c ∈ v.late, c.shares = false) ∧
    ∀ c ∈ v.devices.captures.values, c ≠ .startScreenShare
  deriving Decidable

def Camera (v : RoomView) (t : Track) : Prop := t ∈ v.devices.localStream ∧ t.kind = .video
  deriving Decidable

/-- A joined session that shares nothing and has no screen left of an earlier session: no call
on a sender is under way, and the video senders carry the camera or nothing. -/
structure Joined (v : RoomView) : Prop where
  joined : v.webrtc.isSome
  screen : v.devices.screenStream = none
  ended : ∀ t ∈ v.screens, t ∉ v.devices.live
  idle : ∀ s ∈ v.webrtc, s.replaces = [] ∧ ∀ p ∈ s.peers.values,
    (∀ x ∈ p.transceivers, x.calls = []) ∧
      ∀ x ∈ p.transceivers.find? (fun t => t.kind = .video), ∀ t ∈ x.track, v.Camera t

theorem joined_iff (v : RoomView) : v.Joined ↔ v.webrtc.isSome ∧ v.devices.screenStream = none ∧
    (∀ t ∈ v.screens, t ∉ v.devices.live) ∧ ∀ s ∈ v.webrtc, s.replaces = [] ∧
      ∀ p ∈ s.peers.values, (∀ x ∈ p.transceivers, x.calls = []) ∧
        ∀ x ∈ p.transceivers.find? (fun t => t.kind = .video), ∀ t ∈ x.track, v.Camera t :=
  ⟨fun h => ⟨h.joined,h.screen,h.ended,h.idle⟩,fun h => ⟨h.1,h.2.1,h.2.2.1,h.2.2.2⟩⟩

instance (v : RoomView) : Decidable v.Joined := decidable_of_iff _ (joined_iff v).symm

/-- Clicks on the screen button and the camera button, the answers to their captures, the
browser ending a shared track, and what settles session.replaceTrack. -/
def Shares (v : RoomView) : RoomViewEvent → Prop
  | .toggleScreenShare | .toggleVideo => True
  | .answer n _ => ∀ c ∈ v.devices.captures.get n, c.pictures = true
  | .ended t => t ∈ v.screens
  | .session (.sender _ _ _) | .session (.replaced _) => True
  | _ => False

instance (v : RoomView) : (e : RoomViewEvent) → Decidable (v.Shares e)
  | .toggleScreenShare | .toggleVideo | .session (.sender _ _ _) | .session (.replaced _) =>
    instDecidableTrue
  | .answer n _ =>
    inferInstanceAs (Decidable (∀ c ∈ v.devices.captures.get n, c.pictures = true))
  | .ended t => inferInstanceAs (Decidable (t ∈ v.screens))
  | .preview _ | .back | .join _ | .joined _ | .leave | .toggleMute | .selectCamera
  | .selectMicrophone | .half _ _ _ | .late _ _ => instDecidableFalse
  | .session (.signal _ _) | .session (.next _) | .session (.settle _ _ _)
  | .session (.reject _) | .session (.orphan _ _ _) | .session (.candidate _ _)
  | .session (.track _) | .session (.connectionFailed _) | .session (.replaceTrack _ _)
  | .session (.removePeer _) | .session .close => instDecidableFalse

/-- A screen is granted while nothing is shared and no share is being stopped, the shared track
ends by itself while its handler is installed or the share is being stopped, and no sender
rejects a call of a screen-share operation. -/
def Orderly (v : RoomView) : RoomViewEvent → Prop
  | .answer n true => v.devices.captures.get n = some .startScreenShare →
    v.devices.screenStream = none ∧ ¬ v.Stopping
  | .ended t => t ∈ v.onended ∨ v.Stopping
  | .session e => ∀ s ∈ v.webrtc, ∀ n ∈ s.rejects e, ∀ a ∈ v.awaiting, a.1 = n → a.2.shares = false
  | _ => True

instance (v : RoomView) : (e : RoomViewEvent) → Decidable (v.Orderly e)
  | .answer n true => inferInstanceAs (Decidable
      (v.devices.captures.get n = some .startScreenShare →
        v.devices.screenStream = none ∧ ¬ v.Stopping))
  | .ended t => inferInstanceAs (Decidable (t ∈ v.onended ∨ v.Stopping))
  | .session e => inferInstanceAs (Decidable (∀ s ∈ v.webrtc, ∀ n ∈ s.rejects e,
      ∀ a ∈ v.awaiting, a.1 = n → a.2.shares = false))
  | .answer _ false => instDecidableTrue
  | .preview _ | .back | .join _ | .joined _ | .leave | .toggleMute | .toggleVideo
  | .toggleScreenShare | .selectCamera | .selectMicrophone | .half _ _ _ | .late _ _ =>
    instDecidableTrue

/-- screenStream is set while its track is live, earlier screens have been stopped, and the
video senders carry the screen while it is shared, and otherwise the camera or nothing. -/
structure ShareCurrent (v : RoomView) : Prop where
  shared : ∀ stream, v.devices.screenStream = some stream →
    ∃ t, stream.ofKind .video = some t ∧ t ∈ v.devices.live
  stopped : ∀ t ∈ v.screens, t ∈ v.devices.live → v.devices.screenStream = some [t]
  carried : ∀ stream, v.devices.screenStream = some stream →
    ∀ s ∈ v.webrtc, ∀ id x, s.videoSender id = some x → x.track = stream.ofKind .video
  restored : v.devices.screenStream = none →
    ∀ s ∈ v.webrtc, ∀ id x, s.videoSender id = some x →
      ∀ t ∈ x.track, v.Camera t ∧ t ∉ v.screens

structure Sharing (v : RoomView) : Prop where
  placed : Placed v.screens v.devices
  joined : v.webrtc.isSome
  wired : ∀ s ∈ v.webrtc, s.Wired
  stream : ∀ stream, v.devices.screenStream = some stream →
    ∃ t ∈ v.screens, stream = [t] ∧ t.kind = .video
  live : ∀ t ∈ v.screens, t ∈ v.devices.live → v.devices.screenStream = some [t]
  started : ∀ t, v.devices.screenStream = some [t] → ¬ v.Stopping →
    ∀ s ∈ v.webrtc, ∀ id x, s.videoSender id = some x →
      Writes.Settles v.Opened (some t) x.track x.calls
  stopped : v.devices.screenStream = none ∨ v.Stopping →
    ∀ s ∈ v.webrtc, ∀ id x, s.videoSender id = some x →
      Writes.Overwritten (fun track => ∃ t ∈ track, ¬ v.Camera t) v.Opened x.track x.calls

def Backed (v : RoomView) : Prop :=
  ∀ stream, v.devices.screenStream = some stream →
    (∀ t ∈ stream, t ∈ v.devices.live) ∨ v.Stopping

variable {v w : RoomView} {s u : Session} {t : Track} {old new : Option Track} {c : Control}
  {d : Devices}

section replaceTrack

theorem opened_replaceTrack (o : Owner) : (v.replaceTrack s old new c).Opened o ↔
    v.Opened o ∨ (c.shares = true ∧ o = .replace s.nextReplace) := by
  simp [Opened,RoomView.replaceTrack,or_and_right,exists_or]

theorem stopping_replaceTrack : (v.replaceTrack s old new c).Stopping ↔
    v.Stopping ∨ c = .stopShare := by
  simp [Stopping,RoomView.replaceTrack,or_and_right,exists_or]

theorem replaceTrack_kind {n : Nat} (hnew : ∀ t ∈ new, t.kind = .video)
    (hold : new = none → ∃ t ∈ old, t.kind = .video) :
    Replace.kind ⟨n,old,new,[]⟩ = some .video := by
  cases new with
  | some t => simp [Replace.kind,hnew t rfl]
  | none =>
    obtain ⟨t,ht,hk⟩ := hold rfl
    rw [Option.mem_def] at ht
    simp [Replace.kind,ht,hk]

theorem sender_replaceTrack (hk : Replace.kind ⟨s.nextReplace,old,new,[]⟩ = some .video)
    {id : JsString} {x : Transceiver} (hx : (s.replaceTrack old new).videoSender id = some x) :
    ∃ y, s.videoSender id = some y ∧ x.track = y.track ∧
      x.calls = y.calls ++ [(.replace s.nextReplace,new)] := by
  rw [Session.videoSender_replaceTrack hk] at hx
  obtain ⟨y,hy,rfl⟩ := Option.map_eq_some_iff.mp hx
  exact ⟨y,hy,rfl,rfl⟩

end replaceTrack

theorem Sharing.camera (h : Sharing v) (ht : v.Camera t) : t ∉ v.screens := by
  intro hs
  cases h.placed.screen t hs .localStream ht.1

theorem not_camera (hlocal : ∀ t ∈ v.devices.localStream, t ∈ w.devices.localStream)
    (track : Option Track) (h : ∃ t ∈ track, ¬ w.Camera t) : ∃ t ∈ track, ¬ v.Camera t := by
  obtain ⟨t,ht,hn⟩ := h
  exact ⟨t,ht,fun hc => hn ⟨hlocal t hc.1,hc.2⟩⟩

theorem Sharing.congr (h : Sharing v) (hplaced : Placed w.screens w.devices)
    (hscreens : w.screens = v.screens) (hwebrtc : w.webrtc = v.webrtc)
    (hawaiting : w.awaiting = v.awaiting)
    (hstream : w.devices.screenStream = v.devices.screenStream)
    (hlive : ∀ t ∈ v.screens, t ∈ w.devices.live → t ∈ v.devices.live)
    (hlocal : ∀ t ∈ v.devices.localStream, t ∈ w.devices.localStream) : Sharing w := by
  have hopened : w.Opened = v.Opened := by
    funext o
    simp [Opened,hawaiting]
  have hstopping : w.Stopping ↔ v.Stopping := by simp [Stopping,hawaiting]
  constructor
  · exact hplaced
  · rw [hwebrtc]
    exact h.joined
  · rw [hwebrtc]
    exact h.wired
  · rw [hstream,hscreens]
    exact h.stream
  · rw [hstream,hscreens]
    exact fun t ht hl => h.live t ht (hlive t ht hl)
  · rw [hstream,hstopping,hwebrtc,hopened]
    exact h.started
  · rw [hstream,hstopping,hwebrtc,hopened]
    intro hor s hs id x hx
    exact (h.stopped hor s hs id x hx).imp (not_camera hlocal)

/-- stopScreenShare: behind its call no sender comes to carry a screen. -/
theorem Sharing.stopScreenShare (h : Sharing v) (hstream : v.devices.screenStream.isSome) :
    Sharing v.stopScreenShare ∧ v.stopScreenShare.Stopping := by
  obtain ⟨stream,hstream⟩ := Option.isSome_iff_exists.mp hstream
  obtain ⟨screen,hscreen,rfl,hkind⟩ := h.stream stream hstream
  obtain ⟨s,hs⟩ := Option.isSome_iff_exists.mp h.joined
  have hfind : v.devices.screenStream.bind (fun stream => stream.ofKind .video) = some screen := by
    simp [hstream,Stream.ofKind,hkind]
  have heq : v.stopScreenShare = RoomView.replaceTrack
      { v with onended := v.onended.filter (· ≠ screen) } s (some screen)
      (v.devices.localStream.ofKind .video) .stopShare := by
    simp [RoomView.stopScreenShare,hfind,hs]
  have hk : Replace.kind ⟨s.nextReplace,some screen,v.devices.localStream.ofKind .video,[]⟩ =
      some .video :=
    replaceTrack_kind (fun t ht => (Stream.ofKind_eq_some ht).2) (fun _ => ⟨screen,rfl,hkind⟩)
  have hstopping : v.stopScreenShare.Stopping := by
    rw [heq]
    exact stopping_replaceTrack.mpr (.inr rfl)
  refine ⟨?_,hstopping⟩
  rw [heq] at hstopping ⊢
  refine ⟨h.placed,rfl,?_,h.stream,h.live,fun t _ hnot => absurd hstopping hnot,?_⟩
  · rintro u ⟨⟩
    exact (h.wired s hs).replaceTrack hk
  · rintro _ u ⟨⟩ id x hx
    obtain ⟨y,_,htrack,hcalls⟩ := sender_replaceTrack hk hx
    rw [htrack,hcalls]
    refine Writes.overwritten_write ((opened_replaceTrack _).mpr (.inr ⟨rfl,rfl⟩)) ?_
    rintro ⟨t,ht,hn⟩
    exact hn (Stream.ofKind_eq_some ht)

theorem Sharing.replaceTrack (h : Sharing v) (hs : v.webrtc = some s)
    (hstream : v.devices.screenStream = none) (ht : v.Camera t) :
    Sharing (v.replaceTrack s none (some t) (.toggle t)) := by
  have hk : Replace.kind ⟨s.nextReplace,none,some t,[]⟩ = some .video := by
    simp [Replace.kind,ht.2]
  refine ⟨h.placed,rfl,?_,h.stream,h.live,fun screen hsome => ?_,?_⟩
  · rintro u ⟨⟩
    exact (h.wired s hs).replaceTrack hk
  · have hnone : some [screen] = none := hsome.symm.trans hstream
    cases hnone
  · rintro _ u ⟨⟩ id x hx
    obtain ⟨y,hy,htrack,hcalls⟩ := sender_replaceTrack hk hx
    rw [htrack,hcalls]
    refine Writes.Overwritten.write (Writes.Overwritten.mono (h.stopped (.inl hstream) s hs id y hy)
      (fun _ _ ho => (opened_replaceTrack _).mpr (.inl ho))) ?_
    rintro ⟨t',⟨⟩,hn⟩
    exact hn ht

/-- A display stream is granted where nothing is shared: the senders come to carry it. -/
theorem Sharing.sharing (h : Sharing v) (hd : Placed v.screens d)
    (hnone : v.devices.screenStream = none) (hnot : ¬ v.Stopping)
    (hstream : d.screenStream = some [t]) (hkind : t.kind = .video)
    (hlive : ∀ u ∈ v.screens, u ∈ d.live → u ∈ v.devices.live ∨ u = t) :
    Sharing (RoomView.sharing { v with devices := d } t) := by
  obtain ⟨s,hs⟩ := Option.isSome_iff_exists.mp h.joined
  have heq : RoomView.sharing { v with devices := d } t = RoomView.replaceTrack
      { v with devices := d, screens := t :: v.screens } s (d.localStream.ofKind .video) (some t)
      (.startShare t) := by
    simp [RoomView.sharing,hs]
  have hk : Replace.kind ⟨s.nextReplace,d.localStream.ofKind .video,some t,[]⟩ = some .video := by
    simp [Replace.kind,hkind]
  have hstopping : ¬ (RoomView.replaceTrack { v with devices := d, screens := t :: v.screens } s
      (d.localStream.ofKind .video) (some t) (.startShare t)).Stopping := by
    rw [stopping_replaceTrack]
    rintro (hstop | hstop)
    · exact hnot hstop
    · cases hstop
  rw [heq]
  refine ⟨hd.give ?_,rfl,?_,?_,?_,?_,?_⟩
  · rw [Devices.At,hstream]
    exact List.mem_singleton_self t
  · rintro u ⟨⟩
    exact (h.wired s hs).replaceTrack hk
  · intro stream hsome
    obtain rfl : [t] = stream := Option.some.inj (hstream.symm.trans hsome)
    exact ⟨t,List.mem_cons_self,rfl,hkind⟩
  · intro u hu hl
    rcases List.mem_cons.mp hu with rfl | hu
    · exact hstream
    · rcases hlive u hu hl with hl | rfl
      · have hsome := h.live u hu hl
        rw [hnone] at hsome
        cases hsome
      · exact hstream
  · rintro screen hsome _ u ⟨⟩ id x hx
    have hscreen : some [screen] = some [t] := hsome.symm.trans hstream
    cases hscreen
    obtain ⟨y,_,htrack,hcalls⟩ := sender_replaceTrack hk hx
    rw [htrack,hcalls]
    exact Writes.settles_write ((opened_replaceTrack _).mpr (.inr ⟨rfl,rfl⟩))
  · rintro (hsome | hstop)
    · have hscreen : some [t] = none := hstream.symm.trans hsome
      cases hscreen
    · exact absurd hstop hstopping

theorem Sharing.erase (h : Sharing v) {a : Nat × Control}
    (hdone : a.2.shares = true → ∀ s ∈ v.webrtc, ∀ id x track, s.videoSender id = some x →
      (.replace a.1,track) ∉ x.calls)
    (hstop : a.2 = .stopShare → v.devices.screenStream = none) :
    Sharing { v with awaiting := v.awaiting.erase a } := by
  have hopened : ∀ s ∈ v.webrtc, ∀ id x, s.videoSender id = some x → ∀ u ∈ x.calls,
      v.Opened u.1 → Opened { v with awaiting := v.awaiting.erase a } u.1 := by
    rintro s hs id x hx ⟨o,track⟩ hu ⟨b,hb,hshares,ho⟩
    refine ⟨b,(List.mem_erase_of_ne ?_).mpr hb,hshares,ho⟩
    rintro rfl
    subst ho
    exact hdone hshares s hs id x track hx hu
  have hstopping : v.Stopping → v.devices.screenStream ≠ none →
      Stopping { v with awaiting := v.awaiting.erase a } := by
    rintro ⟨b,hb,hbs⟩ hsome
    refine ⟨b,(List.mem_erase_of_ne ?_).mpr hb,hbs⟩
    rintro rfl
    exact hsome (hstop hbs)
  refine ⟨h.placed,h.joined,h.wired,h.stream,h.live,?_,?_⟩
  · intro screen hsome hnot s hs id x hx
    have hnotv : ¬ v.Stopping := by
      intro hv
      refine hnot (hstopping hv ?_)
      rw [show v.devices.screenStream = some [screen] from hsome]
      simp
    exact (h.started screen hsome hnotv s hs id x hx).mono (hopened s hs id x hx)
  · intro hor s hs id x hx
    have hv : v.devices.screenStream = none ∨ v.Stopping := by
      rcases hor with hnone | ⟨b,hb,hbs⟩
      · exact .inl hnone
      · exact .inr ⟨b,List.mem_of_mem_erase hb,hbs⟩
    exact (h.stopped hv s hs id x hx).mono (hopened s hs id x hx)

theorem stopScreenShare_screen (d : Devices) : d.stopScreenShare.screenStream = none := by
  unfold Devices.stopScreenShare
  split
  · assumption
  · rfl

/-- The end of the stop: the screen is stopped, and nothing is shared. -/
theorem Sharing.stopped_share (h : Sharing v) (hplaced : Placed v.screens v.devices.stopScreenShare)
    (hstopping : v.Stopping) : Sharing { v with devices := v.devices.stopScreenShare } := by
  have hnone := stopScreenShare_screen v.devices
  refine ⟨hplaced,h.joined,h.wired,?_,?_,?_,fun _ s hs id x hx => ?_⟩
  · intro stream hsome
    have hno : none = some stream := hnone.symm.trans hsome
    cases hno
  · intro t ht hl
    have hl' : t ∈ v.devices.stopScreenShare.live := hl
    unfold Devices.stopScreenShare at hl'
    split at hl'
    · rename_i hno
      rw [h.live t ht hl'] at hno
      cases hno
    · rename_i stream hsome
      obtain ⟨hlive,hnot⟩ := (mem_stop _).mp hl'
      have heq := h.live t ht hlive
      rw [hsome,Option.some.injEq] at heq
      subst heq
      exact absurd (List.mem_singleton_self t) hnot
  · intro screen hsome
    have hno : none = some [screen] := hnone.symm.trans hsome
    cases hno
  · refine (h.stopped (.inr hstopping) s hs id x hx).imp (not_camera (fun t ht => ?_))
    exact (stopScreenShare_frame v.devices).2.2.1.symm ▸ ht

theorem Backed.congr (h : Backed v) (hstream : w.devices.screenStream = v.devices.screenStream)
    (hlive : ∀ t, v.devices.screenStream = some [t] → t ∈ v.devices.live → t ∈ w.devices.live)
    (hsingle : ∀ stream, v.devices.screenStream = some stream → ∃ t, stream = [t])
    (hstop : v.Stopping → w.Stopping) : Backed w := by
  intro stream hsome
  rw [hstream] at hsome
  obtain ⟨t,rfl⟩ := hsingle stream hsome
  refine (h [t] hsome).imp (fun hl u hu => ?_) hstop
  rw [List.mem_singleton.mp hu]
  exact hlive t hsome (hl t (List.mem_singleton_self t))

theorem Sharing.single (h : Sharing v) (stream : Stream)
    (hs : v.devices.screenStream = some stream) : ∃ t, stream = [t] := by
  obtain ⟨t,_,ht,_⟩ := h.stream stream hs
  exact ⟨t,ht⟩

theorem Sharing.aside (h : Sharing v) (hb : Backed v) (hplaced : Placed w.screens w.devices)
    (hscreens : w.screens = v.screens) (hwebrtc : w.webrtc = v.webrtc)
    (hawaiting : w.awaiting = v.awaiting)
    (hstream : w.devices.screenStream = v.devices.screenStream)
    (hlive : ∀ t ∈ v.screens, t ∈ w.devices.live ↔ t ∈ v.devices.live)
    (hlocal : ∀ t ∈ v.devices.localStream, t ∈ w.devices.localStream) :
    Sharing w ∧ Backed w := by
  refine ⟨h.congr hplaced hscreens hwebrtc hawaiting hstream (fun t ht => (hlive t ht).mp) hlocal,
    hb.congr hstream (fun t hsome hl => ?_) h.single (fun hstop => ?_)⟩
  · obtain ⟨u,hu,heq,_⟩ := h.stream [t] hsome
    cases heq
    exact (hlive t hu).mpr hl
  · obtain ⟨a,ha,hstop⟩ := hstop
    exact ⟨a,hawaiting ▸ ha,hstop⟩

theorem sharing_toggle (h : Sharing v) (hb : Backed v)
    (hplaced : Placed (v.toggle .video).screens (v.toggle .video).devices) :
    Sharing (v.toggle .video) ∧ Backed (v.toggle .video) := by
  unfold toggle at hplaced ⊢
  split at hplaced
  · exact h.aside hb hplaced rfl rfl rfl rfl (fun t _ => Iff.rfl) (fun t ht => ht)
  · exact h.aside hb hplaced rfl rfl rfl rfl (fun t _ => Iff.rfl) (fun t ht => ht)

theorem Sharing.fresh (h : Sharing v) (kind : Kind) (ht : t ∈ v.screens) :
    t ≠ v.devices.newTrack kind := by
  rintro rfl
  exact Nat.lt_irrefl _ (h.placed.given _ ht)

theorem sharing_acquired (h : Sharing v) (hb : Backed v) (ht : v.Camera t) :
    Sharing (v.acquired t) ∧ Backed (v.acquired t) := by
  obtain ⟨s,hs⟩ := Option.isSome_iff_exists.mp h.joined
  unfold RoomView.acquired
  rw [hs,ht.2]
  simp only [true_and]
  split
  · refine h.aside hb ?_ rfl rfl rfl rfl (fun t _ => Iff.rfl) (fun t ht => ht)
    exact (mildly_switch v .video true).invariant (I := Placed v.screens)
      (fun _ _ _ hp _ hstep => placed_step hp hstep) h.placed
  · rename_i hnone
    have hnone : v.devices.screenStream = none := by simpa using hnone
    refine ⟨h.replaceTrack hs hnone ht,hb.congr rfl (fun t hsome => ?_) h.single (fun hstop =>
      stopping_replaceTrack.mpr (.inl hstop))⟩
    rw [hnone] at hsome
    cases hsome

theorem sharing_answer (h : Sharing v) (hb : Backed v) {n : Nat} {granted : Bool} {c : Capture}
    {r : Option Track} (hn : v.devices.captures.get n = some c) (hp : c.pictures = true)
    (hc : v.Orderly (.answer n granted)) (hr : v.devices.answer n granted = some (d,r)) :
    Sharing (RoomView.captured { v with devices := d } c r) ∧
      Backed (RoomView.captured { v with devices := d } c r) := by
  have hd := h.placed.answer hr
  simp only [Devices.answer,hn] at hr
  cases c with
  | getLocalStream | setDevice => cases hp
  | acquireTrack version kind =>
    cases kind with
    | audio => cases hp
    | video =>
      have hgrant : ∀ t ∈ v.screens, t ∈ (v.devices.grant .video).live ↔ t ∈ v.devices.live := by
        intro t ht
        rw [mem_grant]
        exact or_iff_left (h.fresh .video ht)
      simp only at hr
      split at hr
      · cases hr
        exact h.aside hb hd rfl rfl rfl rfl (fun t _ => Iff.rfl) (fun t ht => ht)
      · split at hr
        · cases hr
          refine h.aside hb hd rfl rfl rfl rfl (fun t ht => ?_) (fun t ht => ht)
          refine (mem_stop _).trans ((and_iff_left ?_).trans (hgrant t ht))
          rw [List.mem_singleton]
          exact h.fresh .video ht
        · simp only [Option.some.injEq,Prod.mk.injEq] at hr
          obtain ⟨hdevices,rfl⟩ := hr
          have haside : Sharing { v with devices := d } ∧ Backed { v with devices := d } := by
            refine h.aside hb hd rfl rfl rfl ?_ (fun t ht => ?_) (fun t ht => ?_)
            · rw [← hdevices]
              rfl
            · rw [← hdevices]
              exact hgrant t ht
            · rw [← hdevices]
              exact Stream.mem_addTrack.mpr (.inl ht)
          refine sharing_acquired haside.1 haside.2 ⟨?_,rfl⟩
          rw [← hdevices]
          exact Stream.mem_addTrack.mpr (.inr rfl)
  | startScreenShare =>
    simp only at hr
    split at hr
    · cases hr
      exact h.aside hb hd rfl rfl rfl rfl (fun t _ => Iff.rfl) (fun t ht => ht)
    · rename_i hg
      have hg : granted = true := by simpa using hg
      subst hg
      obtain ⟨hnone,hnot⟩ := hc hn
      simp only [Option.some.injEq,Prod.mk.injEq] at hr
      obtain ⟨hdevices,rfl⟩ := hr
      have hstream : d.screenStream = some [v.devices.newTrack .video] := by rw [← hdevices]
      have hlive : ∀ u, u ∈ d.live ↔ u ∈ v.devices.live ∨ u = v.devices.newTrack .video := by
        intro u
        rw [← hdevices]
        exact mem_grant
      refine ⟨h.sharing hd hnone hnot hstream rfl (fun u _ hl => (hlive u).mp hl),?_⟩
      have hsame : (RoomView.captured { v with devices := d } .startScreenShare
          (some (v.devices.newTrack .video))).devices = d := sharing_devices _ _
      intro stream hsome
      rw [hsame,hstream,Option.some.injEq] at hsome
      subst hsome
      rw [hsame]
      refine .inl (fun t ht => ?_)
      exact (hlive t).mpr (.inr (List.mem_singleton.mp ht))

theorem sharing_ended (h : Sharing v) (ht : t ∈ v.screens) (hl : t ∈ v.devices.live)
    (hc : t ∈ v.onended ∨ v.Stopping) :
    let u := { v with devices := v.devices.stop [t] }
    Sharing (if t ∈ v.onended then u.stopScreenShare else u) ∧
      Backed (if t ∈ v.onended then u.stopScreenShare else u) := by
  intro u
  have hu : Sharing u := h.congr (h.placed.stop [t]) rfl rfl rfl rfl
    (fun _ _ hlive => ((mem_stop _).mp hlive).1) (fun _ hl => hl)
  have hstream : u.devices.screenStream.isSome := by
    rw [show u.devices.screenStream = some [t] from h.live t ht hl]
    rfl
  split
  · obtain ⟨hshare,hstop⟩ := hu.stopScreenShare hstream
    exact ⟨hshare,fun _ _ => .inr hstop⟩
  · rename_i hnot
    exact ⟨hu,fun _ _ => .inr (hc.resolve_left hnot)⟩

theorem Backed.erase (h : Backed v) {a : Nat × Control}
    (hstop : a.2 = .stopShare → v.devices.screenStream = none) :
    Backed { v with awaiting := v.awaiting.erase a } := by
  intro stream hsome
  refine (h stream hsome).imp id ?_
  rintro ⟨b,hb,hbs⟩
  refine ⟨b,(List.mem_erase_of_ne ?_).mpr hb,hbs⟩
  rintro rfl
  have hno : none = some stream := (hstop hbs).symm.trans hsome
  cases hno

theorem sharing_failed (h : Sharing v) (hb : Backed v) {n : Nat}
    (hc : ∀ a ∈ v.awaiting, a.1 = n → a.2.shares = false) :
    Sharing (v.settled n false) ∧ Backed (v.settled n false) := by
  unfold settled
  split
  · exact ⟨h,hb⟩
  · rename_i a hfind
    have ha := hc a (List.mem_of_find?_eq_some hfind) (by simpa using List.find?_some hfind)
    have hnot : a.2 ≠ .stopShare := by
      intro hstop
      rw [hstop] at ha
      cases ha
    exact ⟨h.erase (fun hshares => by rw [ha] at hshares; cases hshares) (fun hs => absurd hs hnot),
      hb.erase (fun hs => absurd hs hnot)⟩

/-- A sender takes the track of its oldest call, or the call of a toggle fails on it. -/
theorem sharing_sender (h : Sharing v) (hb : Backed v) (hs : v.webrtc = some s) {id : JsString}
    {index : Nat} {ok : Bool} {out : List Output}
    (hstep : s.step (.sender id index ok) = some (u,out))
    (hc : v.Orderly (.session (.sender id index ok))) :
    Sharing (out.foldl output { v with webrtc := some u }) ∧
      Backed (out.foldl output { v with webrtc := some u }) := by
  obtain ⟨x,n,track,calls,hx,hcalls,hsender,hout,hrejects,hwired⟩ := (h.wired s hs).sender hstep
  have htoggle : ok = false → ∀ a ∈ v.awaiting, a.1 = n → a.2.shares = false :=
    fun hok => hc s hs n (hrejects hok)
  have hnot : ok = false → ¬ v.Opened (.replace n) := by
    rintro hok ⟨a,ha,hshares,hn⟩
    cases hn
    rw [htoggle hok a ha rfl] at hshares
    cases hshares
  have hu : Sharing { v with webrtc := some u } := by
    refine ⟨h.placed,rfl,?_,h.stream,h.live,?_,?_⟩
    · rintro u' ⟨⟩
      exact hwired
    · rintro t hsome hstop u' ⟨⟩ j y hy
      rw [hsender] at hy
      split at hy
      · cases hy
        have hsettles := h.started t hsome hstop s hs id x hx
        rw [hcalls] at hsettles
        cases ok with
        | true => exact hsettles.take
        | false => exact hsettles.skip (hnot rfl)
      · exact h.started t hsome hstop s hs j y hy
    · rintro hor u' ⟨⟩ j y hy
      rw [hsender] at hy
      split at hy
      · cases hy
        have hover := h.stopped hor s hs id x hx
        rw [hcalls] at hover
        cases ok with
        | true => exact hover.take
        | false => exact hover.skip (hnot rfl)
      · exact h.stopped hor s hs j y hy
  have hbu : Backed { v with webrtc := some u } := hb
  rw [hout]
  cases ok with
  | true => exact ⟨hu,hbu⟩
  | false =>
    simp only [Session.answered,Bool.false_eq_true,if_false]
    split
    · exact sharing_failed hu hbu (htoggle rfl)
    · exact ⟨hu,hbu⟩

theorem sharing_replaced (h : Sharing v) (hb : Backed v) {n : Nat}
    (hdone : ∀ s ∈ v.webrtc, ∀ id x track, s.videoSender id = some x →
      (.replace n,track) ∉ x.calls) :
    Sharing (v.settled n true) ∧ Backed (v.settled n true) := by
  unfold settled
  split
  · exact ⟨h,hb⟩
  · rename_i a hfind
    have ha := List.mem_of_find?_eq_some hfind
    have hn : a.1 = n := by simpa using List.find?_some hfind
    subst hn
    rw [if_pos rfl,fulfilled_erase]
    have hplaced : Placed v.screens (v.fulfilled a.2).devices :=
      (mildly_fulfilled v a.2).invariant (I := Placed v.screens)
        (fun _ _ _ hp _ hstep => placed_step hp hstep) h.placed
    obtain ⟨n,c⟩ := a
    cases c with
    | toggle t =>
      obtain ⟨hs,hbs⟩ := h.aside (w := v.switch t.kind true) hb
        (by rw [switch_screens]; exact hplaced) switch_screens switch_webrtc switch_awaiting
        (by rw [switch_devices]; rfl) (fun t _ => by rw [switch_devices]; exact Iff.rfl)
        (fun t ht => by rw [switch_devices]; exact ht)
      exact ⟨hs.erase (by simp [Control.shares]) (by simp),hbs.erase (by simp)⟩
    | startShare screenTrack =>
      obtain ⟨hs,hbs⟩ := h.aside (w := { v with onended := screenTrack :: v.onended }) hb hplaced
        rfl rfl rfl rfl (fun t _ => Iff.rfl) (fun t ht => ht)
      exact ⟨hs.erase (fun _ => hdone) (by simp),hbs.erase (by simp)⟩
    | stopShare =>
      have hs := h.stopped_share hplaced ⟨_,ha,rfl⟩
      have hnone := stopScreenShare_screen v.devices
      refine ⟨hs.erase (fun _ => hdone) (fun _ => hnone),fun stream hsome => ?_⟩
      have hno : none = some stream := hnone.symm.trans hsome
      cases hno

/-- What a run of screen-share events keeps while it is orderly. -/
theorem sharing_step {e : RoomViewEvent} (h : Sharing v) (hb : Backed v) (hshares : v.Shares e)
    (hc : v.Orderly e) (hstep : v.step e = some w) : Sharing w ∧ Backed w := by
  have hplaced := placed_screens h.placed hstep
  cases effect hstep with
  | toggleScreenShare =>
    unfold RoomView.toggleScreenShare at hplaced ⊢
    split
    · rename_i hsome
      obtain ⟨hs,hstop⟩ := h.stopScreenShare hsome
      exact ⟨hs,fun _ _ => .inr hstop⟩
    · rename_i hnone
      rw [if_neg hnone] at hplaced
      exact h.aside hb hplaced rfl rfl rfl rfl (fun t _ => Iff.rfl) (fun t ht => ht)
  | toggleVideo => exact sharing_toggle h hb hplaced
  | answer n granted c d r hget hanswer =>
    exact sharing_answer h hb hget (hshares c hget) hc hanswer
  | session e s u out hs he hu =>
    cases e with
    | sender id index ok => exact sharing_sender h hb hs hu hc
    | replaced n =>
      obtain ⟨hout,hsender,hdone,hwired⟩ := (h.wired s hs).replaced hu
      subst hout
      have hsharing : Sharing { v with webrtc := some u } := by
        refine ⟨h.placed,rfl,?_,h.stream,h.live,?_,?_⟩
        · rintro u' ⟨⟩
          exact hwired
        · rintro t hsome hstop u' ⟨⟩ j y hy
          exact h.started t hsome hstop s hs j y (hsender j ▸ hy)
        · rintro hor u' ⟨⟩ j y hy
          exact h.stopped hor s hs j y (hsender j ▸ hy)
      refine sharing_replaced hsharing hb ?_
      rintro u' ⟨⟩ j y track hy
      exact hdone j y track (hsender j ▸ hy)
    | _ => cases hshares
  | ended t hlive => exact sharing_ended h hshares hlive hc
  | _ => cases hshares

theorem Joined.sharing (h : Joined v) (hplaced : Placed v.screens v.devices) :
    Sharing v ∧ Backed v := by
  obtain ⟨s,hs⟩ := Option.isSome_iff_exists.mp h.joined
  obtain ⟨hreplaces,hidle⟩ := h.idle s hs
  have hx : ∀ id x, s.videoSender id = some x → x.calls = [] ∧ ∀ t ∈ x.track, v.Camera t := by
    intro id x hx
    obtain ⟨p,hp,hfind⟩ := Option.bind_eq_some_iff.mp hx
    obtain ⟨hcalls,hcamera⟩ := hidle p ((OrderedMap.mem_values_iff _ _).mpr ⟨id,hp⟩)
    exact ⟨hcalls x (List.mem_of_find?_eq_some hfind),hcamera x hfind⟩
  have hwired : s.Wired := by
    refine ⟨?_,?_,?_,?_,?_⟩
    · intro id p i x hp hi hne
      exact absurd ((hidle p ((OrderedMap.mem_values_iff _ _).mpr ⟨id,hp⟩)).1 x
        (List.mem_of_getElem? hi)) hne
    · intro id x c hid hc
      rw [(hx id x hid).1] at hc
      cases hc
    · intro id x hid
      rw [(hx id x hid).1]
      exact List.nodup_nil
    · intro id x n track hid hc
      rw [(hx id x hid).1] at hc
      cases hc
    · intro r hr
      rw [hreplaces] at hr
      cases hr
  refine ⟨⟨hplaced,h.joined,?_,?_,?_,?_,?_⟩,?_⟩
  · rintro u hu
    rw [hs] at hu
    cases hu
    exact hwired
  · intro stream hsome
    rw [h.screen] at hsome
    cases hsome
  · exact fun t ht hl => absurd hl (h.ended t ht)
  · intro t hsome
    rw [h.screen] at hsome
    cases hsome
  · rintro _ u hu id x hid
    rw [hs] at hu
    cases hu
    rw [(hx id x hid).1]
    rintro ⟨t,ht,hn⟩
    exact hn ((hx id x hid).2 t ht)
  · intro stream hsome
    rw [h.screen] at hsome
    cases hsome

/-- With nothing pending, the page tells what is shared, and the senders carry it. -/
theorem Sharing.current (h : Sharing v) (hb : Backed v) (hquiet : v.ShareQuiet) :
    v.ShareCurrent := by
  have hopened : ∀ o, ¬ v.Opened o := by
    rintro o ⟨a,ha,hshares,_⟩
    rw [hquiet.1 a ha] at hshares
    cases hshares
  have hstopping : ¬ v.Stopping := by
    rintro ⟨a,ha,hstop⟩
    have hshares := hquiet.1 a ha
    rw [hstop] at hshares
    cases hshares
  constructor
  · intro stream hsome
    obtain ⟨t,_,rfl,hkind⟩ := h.stream stream hsome
    refine ⟨t,by simp [Stream.ofKind,hkind],?_⟩
    exact (hb [t] hsome).resolve_right hstopping t (List.mem_singleton_self t)
  · exact h.live
  · intro stream hsome s hs id x hx
    obtain ⟨t,_,rfl,hkind⟩ := h.stream stream hsome
    rw [(h.started t hsome hstopping s hs id x hx).done (fun _ _ => hopened _)]
    simp [Stream.ofKind,hkind]
  · intro hnone s hs id x hx t ht
    have hover := (h.stopped (.inl hnone) s hs id x hx).done (fun _ _ => hopened _)
    have hcamera : v.Camera t := by
      by_contra hn
      exact hover ⟨t,ht,hn⟩
    exact ⟨hcamera,h.camera hcamera⟩

end RoomView

/-- In an orderly run of a joined session, once no screen-share operation is pending:
screenStream is set while its track is live, earlier screens have been stopped, and the video
senders carry the live screen if there is one, and otherwise the camera or nothing. -/
theorem screen_share_current {before es : List RoomViewEvent} {v w : RoomView}
    (hbefore : Runs.exec RoomView.step RoomView.init before = some v) (hjoined : v.Joined)
    (hrun : Runs.exec RoomView.step v es = some w)
    (hshares : Runs.Along RoomView.step RoomView.Shares v es)
    (horderly : Runs.Along RoomView.step RoomView.Orderly v es) (hquiet : w.ShareQuiet) :
    w.ShareCurrent := by
  have hplaced : Placed v.screens v.devices := by
    refine Runs.exec_invariant (I := fun v => Placed v.screens v.devices)
      (fun _ _ _ h hs => RoomView.placed_screens h hs) ?_ hbefore
    exact placed_init
  obtain ⟨hw,hb⟩ := Runs.exec_invariant_along (I := fun v => RoomView.Sharing v ∧ RoomView.Backed v)
    (fun _ _ _ h hc hs => RoomView.sharing_step h.1 h.2 hc.1 hc.2 hs) (hjoined.sharing hplaced)
    (hshares.and horderly) hrun
  exact hw.current hb hquiet

def viewing : List RoomViewEvent :=
  [.preview true,.join false,.joined [js "a"]] ++ negotiating (js "a")

def presenting : List RoomViewEvent :=
  [.toggleScreenShare,.answer 0 true,.session (.sender (js "a") 1 true),.session (.replaced 0),
    .ended ⟨0,.video⟩,.session (.sender (js "a") 1 true),.session (.replaced 1)]

theorem screen_share_current_presenting :
    ∃ v w, Runs.exec RoomView.step RoomView.init viewing = some v ∧
      Runs.exec RoomView.step v presenting = some w ∧ w.screens = [⟨0,.video⟩] ∧
      w.ShareCurrent := by
  have hrun : ((Runs.exec RoomView.step RoomView.init viewing).bind (fun v =>
      (Runs.exec RoomView.step v presenting).filter (fun w =>
        v.Joined ∧ Runs.Along RoomView.step RoomView.Shares v presenting ∧
        Runs.Along RoomView.step RoomView.Orderly v presenting ∧
        w.ShareQuiet ∧ w.screens = [⟨0,.video⟩]))).isSome := by decide +kernel
  obtain ⟨w,hw⟩ := Option.isSome_iff_exists.mp hrun
  obtain ⟨v,hv,hw⟩ := Option.bind_eq_some_iff.mp hw
  obtain ⟨hw,hp⟩ := Option.filter_eq_some_iff.mp hw
  obtain ⟨hjoined,hshares,horderly,hquiet,hscreens⟩ := of_decide_eq_true hp
  exact ⟨v,w,hv,hw,hscreens,screen_share_current hv hjoined hw hshares horderly hquiet⟩

def endingEarly : List RoomViewEvent :=
  [.toggleScreenShare,.answer 0 true,.ended ⟨0,.video⟩,.session (.sender (js "a") 1 true),
    .session (.replaced 0)]

/-- Nobody stops the share: the peer is sent a track that has ended. -/
theorem screen_share_stale :
    ∃ v w, Runs.exec RoomView.step RoomView.init viewing = some v ∧ v.Joined ∧
      Runs.exec RoomView.step v endingEarly = some w ∧
      Runs.Along RoomView.step RoomView.Shares v endingEarly ∧ w.ShareQuiet ∧
      w.sent = [⟨0,.video⟩] ∧ w.devices.live = [] ∧ ¬ w.ShareCurrent := by
  have hrun : ((Runs.exec RoomView.step RoomView.init viewing).bind (fun v =>
      (Runs.exec RoomView.step v endingEarly).filter (fun w =>
        v.Joined ∧ Runs.Along RoomView.step RoomView.Shares v endingEarly ∧ w.ShareQuiet ∧
        w.sent = [⟨0,.video⟩] ∧ w.devices.live = [] ∧
        w.devices.screenStream = some [⟨0,.video⟩]))).isSome := by decide +kernel
  obtain ⟨w,hw⟩ := Option.isSome_iff_exists.mp hrun
  obtain ⟨v,hv,hw⟩ := Option.bind_eq_some_iff.mp hw
  obtain ⟨hw,hp⟩ := Option.filter_eq_some_iff.mp hw
  obtain ⟨hjoined,hshares,hquiet,hsent,hlive,hstream⟩ := of_decide_eq_true hp
  refine ⟨v,w,hv,hjoined,hw,hshares,hquiet,hsent,hlive,fun hcurrent => ?_⟩
  obtain ⟨t,_,ht⟩ := hcurrent.shared _ hstream
  rw [hlive] at ht
  cases ht

end MaiaMeet
