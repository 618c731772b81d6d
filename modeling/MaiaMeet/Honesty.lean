import MaiaMeet.Capture
import MaiaMeet.RoomView
import MaiaMeet.Tracks
set_option autoImplicit false

/-! What the peers are sent, against what the page shows as off. -/

namespace MaiaMeet

def Capture.isControl : Capture → Bool
  | .acquireTrack _ _ | .startScreenShare => true
  | _ => false

def Capture.device : Capture → Option Kind
  | .setDevice kind => some kind
  | _ => none

def Devices.Overtaken (d : Devices) : Prop :=
  ∀ n w audio video, d.captures.get n = some (.getLocalStream w audio video) →
    w < d.captureVersion

namespace RoomView

/-- No toggleMute, toggleVideo or screen-share operation is pending. -/
def Quiet (v : RoomView) : Prop :=
  v.awaiting = [] ∧ v.late = [] ∧ ∀ c ∈ v.devices.captures.values, c.isControl = false
  deriving Decidable

def sent (v : RoomView) : List Track := v.webrtc.elim [] Session.sent

/-- A microphone or camera shown as off is sent enabled to nobody. -/
def Honest (v : RoomView) : Prop :=
  (v.isMuted = true → ∀ t ∈ v.sent, t.kind = .audio → t ∈ v.devices.disabled) ∧
    (v.isVideoEnabled = false → ∀ t ∈ v.sent, t.kind = .video → t ∉ v.screens →
      t ∈ v.devices.disabled)
  deriving Decidable

def Truthful (v : RoomView) (t : Track) : Prop := v.shows t.kind = true ∨ t ∈ v.devices.disabled
  deriving Decidable

/-- The track was acquired for a toggle that now awaits `webrtc.replaceTrack`. -/
def Toggling (v : RoomView) (t : Track) : Prop := .toggle t ∈ v.awaiting.map Prod.snd
  deriving Decidable

def Restores (v : RoomView) : Prop :=
  v.webrtc.isSome → v.devices.screenStream.isSome →
    ∀ t ∈ v.devices.localStream.ofKind .video, v.Truthful t ∨ v.Toggling t
  deriving Decidable

/-- The steps at which no track escapes its control. A rejected call leaves the track of its
toggle with nobody, stopScreenShare publishes no track that is enabled while shown as off, and
no change of device takes away an enabled track that the session has. -/
def Controlled (v : RoomView) : RoomViewEvent → Prop
  | .session e =>
    ∀ s ∈ v.webrtc, ∀ n ∈ s.rejects e, ∀ t ∈ (s.apart n e).tracks,
      v.awaiting.find? (fun a => a.1 = n) = some (n,.toggle t) → v.Truthful t
  | .toggleScreenShare => v.Restores
  | .ended t => t ∈ v.onended → v.Restores
  | .answer n true =>
    ∀ kind ∈ (v.devices.captures.get n).bind Capture.device, ∀ s ∈ v.webrtc,
      ∀ t ∈ v.devices.localStream.ofKind kind, t ∈ s.tracks → t ∈ v.devices.disabled
  | _ => True

instance (v : RoomView) : (e : RoomViewEvent) → Decidable (v.Controlled e)
  | .session e => inferInstanceAs (Decidable (∀ s ∈ v.webrtc, ∀ n ∈ s.rejects e,
      ∀ t ∈ (s.apart n e).tracks,
        v.awaiting.find? (fun a => a.1 = n) = some (n,.toggle t) → v.Truthful t))
  | .toggleScreenShare => inferInstanceAs (Decidable v.Restores)
  | .ended t => inferInstanceAs (Decidable (t ∈ v.onended → v.Restores))
  | .answer n true => inferInstanceAs (Decidable (
      ∀ kind ∈ (v.devices.captures.get n).bind Capture.device, ∀ s ∈ v.webrtc,
        ∀ t ∈ v.devices.localStream.ofKind kind, t ∈ s.tracks → t ∈ v.devices.disabled))
  | .answer _ false => instDecidableTrue
  | .preview _ | .back | .join _ | .joined _ | .leave | .toggleMute | .toggleVideo
  | .selectCamera | .selectMicrophone | .half _ _ _ | .late _ _ => instDecidableTrue

/-- What is published is controlled: it is in localStream, or disabled for good, and enabled
only if its device is shown as on or its toggle is still pending. -/
structure Held (v : RoomView) : Prop where
  outside : v.view ≠ .room → v.webrtc = none
  screens : ∀ t ∈ v.screens, t.kind = .video
  timely : v.devices.Timely
  overtaken : v.view = .room → v.devices.Overtaken
  held : ∀ s ∈ v.webrtc, ∀ t ∈ s.tracks, t ∉ v.screens →
    (t ∈ v.devices.localStream ∨ t ∈ v.devices.disabled) ∧ (v.Truthful t ∨ v.Toggling t)

structure Kept (v : RoomView) : Prop extends Held v where
  joining : v.view = .room → v.webrtc = none → ∀ t ∈ v.devices.localStream, v.Truthful t

end RoomView

section devices
variable {d e : Devices} {t : Track}

theorem mem_setEnabled {k : Kind} {on : Bool} : t ∈ (d.setEnabled k on).disabled ↔
    if t ∈ d.localStream ∧ t.kind = k then on = false else t ∈ d.disabled := by
  by_cases h : t ∈ d.localStream ∧ t.kind = k
  · rw [if_pos h]
    cases on <;> simp [Devices.setEnabled,h]
  · rw [if_neg h]
    cases on with
    | true =>
      simp only [Devices.setEnabled,if_true,List.mem_filter,decide_eq_true_eq]
      tauto
    | false =>
      simp only [Devices.setEnabled,Bool.false_eq_true,if_false,List.mem_append,List.mem_filter,
        decide_eq_true_eq]
      tauto

theorem Devices.Overtaken.capture (h : d.Overtaken) {c : Capture}
    (hc : ∀ w audio video, c ≠ .getLocalStream w audio video) : (d.capture c).Overtaken := by
  intro n w audio video hn
  rw [Devices.capture,OrderedMap.get_set] at hn
  split at hn
  · cases hn; exact absurd rfl (hc w audio video)
  · exact h n w audio video hn

theorem Devices.Timely.overtaken (h : d.Timely) : d.cancelPendingCapture.Overtaken :=
  fun n _ _ _ hn => Nat.lt_succ_of_le (h n _ _ hn rfl)

theorem Devices.Overtaken.half (h : d.Overtaken) {n : Nat} {kind : Kind} {granted : Bool}
    (he : d.half n kind granted = some e) :
    e.Overtaken ∧ e.localStream = d.localStream ∧ e.disabled = d.disabled := by
  obtain ⟨w,audio,video,audio',video',hn,_,rfl | rfl⟩ := half_cases he
  · rw [answered_eq]
    refine ⟨fun m u a b hm => ?_,rfl,rfl⟩
    rw [OrderedMap.get_set] at hm
    split at hm
    · cases hm; exact h n _ _ _ hn
    · exact h m u a b hm
  · have hlt := h n w audio video hn
    rw [answered_eq,Devices.gather,if_pos (Nat.ne_of_lt hlt)]
    refine ⟨fun m u a b hm => ?_,rfl,rfl⟩
    have hm' : (d.captures.delete n).get m = some (.getLocalStream u a b) := hm
    rw [OrderedMap.get_delete] at hm'
    split at hm'
    · cases hm'
    · exact h m u a b hm'

theorem Devices.Overtaken.answer (h : d.Overtaken) {n : Nat} {granted : Bool} {r : Option Track}
    (he : d.answer n granted = some (e,r)) : e.Overtaken := by
  obtain ⟨_,_,_,hc,hv,_⟩ := answer_frame he
  intro m w a b hm
  rw [hc,OrderedMap.get_delete] at hm
  rw [hv]
  split at hm
  · cases hm
  · exact h m w a b hm

theorem stopScreenShare_frame (d : Devices) : d.stopScreenShare.captures = d.captures ∧
    d.stopScreenShare.captureVersion = d.captureVersion ∧
    d.stopScreenShare.localStream = d.localStream ∧
    d.stopScreenShare.disabled = d.disabled := by
  unfold Devices.stopScreenShare
  split <;> exact ⟨rfl,rfl,rfl,rfl⟩

theorem Devices.Timely.stopScreenShare (h : d.Timely) : d.stopScreenShare.Timely := by
  obtain ⟨hc,hv,_,_⟩ := stopScreenShare_frame d
  intro n c w hn hw
  rw [hc] at hn
  rw [hv]
  exact h n c w hn hw

theorem Devices.Overtaken.stopScreenShare (h : d.Overtaken) : d.stopScreenShare.Overtaken := by
  obtain ⟨hc,hv,_,_⟩ := stopScreenShare_frame d
  intro n w a b hn
  rw [hc] at hn
  rw [hv]
  exact h n w a b hn

end devices

namespace RoomView

variable {v : RoomView} {d : Devices} {t : Track} {kind : Kind} {on : Bool} {s : Session}

@[simp] theorem switch_devices : (v.switch kind on).devices = v.devices.setEnabled kind on := by
  cases kind <;> simp [switch,Devices.setAudioMuted,Devices.setVideoEnabled]

@[simp] theorem switch_view : (v.switch kind on).view = v.view := by cases kind <;> rfl
@[simp] theorem switch_webrtc : (v.switch kind on).webrtc = v.webrtc := by cases kind <;> rfl
@[simp] theorem switch_awaiting : (v.switch kind on).awaiting = v.awaiting := by cases kind <;> rfl
@[simp] theorem switch_screens : (v.switch kind on).screens = v.screens := by cases kind <;> rfl

@[simp] theorem shows_switch (k : Kind) :
    (v.switch kind on).shows k = if k = kind then on else v.shows k := by
  cases k <;> cases kind <;> simp [switch,shows]

@[simp] theorem toggling_switch : (v.switch kind on).Toggling t ↔ v.Toggling t := by
  simp [Toggling]

theorem switch_shows (v : RoomView) (kind : Kind) : v.switch kind (v.shows kind) =
    { v with devices := v.devices.setEnabled kind (v.shows kind) } := by
  cases kind <;> simp [switch,shows,Devices.setAudioMuted,Devices.setVideoEnabled]

theorem truthful_devices (hd : d.disabled = v.devices.disabled) :
    Truthful { v with devices := d } t ↔ v.Truthful t := by
  unfold Truthful
  rw [hd]
  rfl

theorem truthful_switch (h : t.kind = kind → t ∈ v.devices.localStream ∨ t ∈ v.devices.disabled)
    (hne : t.kind ≠ kind → v.Truthful t) : (v.switch kind on).Truthful t := by
  unfold Truthful at hne ⊢
  rw [shows_switch,switch_devices,mem_setEnabled]
  by_cases hk : t.kind = kind
  · cases on with
    | true => exact .inl (by rw [if_pos hk])
    | false =>
      refine .inr ?_
      by_cases hl : t ∈ v.devices.localStream
      · rw [if_pos ⟨hl,hk⟩]
      · rw [if_neg (fun hand => hl hand.1)]
        exact (h hk).resolve_left hl
  · rw [if_neg hk,if_neg (fun hand => hk hand.2)]
    exact hne hk

theorem Held.devices (h : Held v) (ht : d.Timely) (ho : v.view = .room → d.Overtaken)
    (hd : d.disabled = v.devices.disabled) (hl : ∀ s ∈ v.webrtc, ∀ t ∈ s.tracks,
      t ∈ v.devices.localStream → t ∈ d.localStream ∨ t ∈ d.disabled) :
    Held { v with devices := d } where
  outside := h.outside
  screens := h.screens
  timely := ht
  overtaken := ho
  held := by
    intro s hs t hst hscreen
    obtain ⟨hmem,htrue⟩ := h.held s hs t hst hscreen
    rw [truthful_devices hd]
    refine ⟨?_,htrue⟩
    rcases hmem with hmem | hmem
    · exact hl s hs t hst hmem
    · exact .inr (hd.symm ▸ hmem)

theorem Kept.devices (h : Kept v) (ht : d.Timely) (ho : v.view = .room → d.Overtaken)
    (hd : d.disabled = v.devices.disabled) (hl : d.localStream = v.devices.localStream) :
    Kept { v with devices := d } where
  toHeld := h.toHeld.devices ht ho hd (fun _ _ _ _ hmem => .inl (hl.symm ▸ hmem))
  joining := by
    intro hroom hnone t hmem
    rw [truthful_devices hd]
    exact h.joining hroom hnone t (hl ▸ hmem)

theorem Held.switch (h : Held v) (hj : v.view = .room → v.webrtc = none →
    ∀ t ∈ v.devices.localStream, t.kind ≠ kind → v.Truthful t) : Kept (v.switch kind on) where
  outside := by simpa using h.outside
  screens := by simpa using h.screens
  timely := by rw [switch_devices]; exact h.timely
  overtaken := by
    rw [switch_devices,switch_view]
    exact h.overtaken
  held := by
    intro s hs t hst hscreen
    rw [switch_webrtc] at hs
    rw [switch_screens] at hscreen
    obtain ⟨hmem,htrue⟩ := h.held s hs t hst hscreen
    rw [toggling_switch]
    refine ⟨?_,?_⟩
    · rw [switch_devices,mem_setEnabled]
      by_cases hl : t ∈ v.devices.localStream
      · exact .inl hl
      · rw [if_neg (fun hand => hl hand.1)]
        exact .inr (hmem.resolve_left hl)
    · by_cases hk : t.kind = kind
      · exact .inl (truthful_switch (fun _ => hmem) (fun hne => absurd hk hne))
      · exact htrue.imp (fun ht => truthful_switch (fun _ => hmem) (fun _ => ht)) id
  joining := by
    rw [switch_view,switch_webrtc,switch_devices]
    intro hroom hnone t hmem
    exact truthful_switch (fun _ => .inl hmem) (fun hne => hj hroom hnone t hmem hne)

theorem Kept.switch (h : Kept v) : Kept (v.switch kind on) :=
  h.toHeld.switch (fun hroom hnone t hmem _ => h.joining hroom hnone t hmem)

theorem Held.room (h : Held v) (hs : v.webrtc = some s) : v.view = .room := by
  by_contra hview
  rw [h.outside hview] at hs
  cases hs

theorem Held.replaceTrack (h : Held v) (hs : v.webrtc = some s) {oldTrack newTrack : Option Track}
    {c : Control} (hnew : ∀ t ∈ newTrack, t ∉ v.screens →
      (t ∈ v.devices.localStream ∨ t ∈ v.devices.disabled) ∧
        (v.Truthful t ∨ v.Toggling t ∨ c = .toggle t)) :
    Kept (v.replaceTrack s oldTrack newTrack c) where
  outside := fun hview => absurd (h.room hs) hview
  screens := h.screens
  timely := h.timely
  overtaken := h.overtaken
  held := by
    intro u hu t htu hscreen
    obtain rfl : s.replaceTrack oldTrack newTrack = u := Option.some.inj hu
    have htoggling : v.Toggling t ∨ c = .toggle t →
        (v.replaceTrack s oldTrack newTrack c).Toggling t := by
      rintro (ht | rfl)
      · simp only [Toggling,RoomView.replaceTrack,List.map_append,List.mem_append]
        exact .inl ht
      · simp [Toggling,RoomView.replaceTrack]
    rcases tracks_replaceTrack htu with hts | htn
    · obtain ⟨hmem,htrue⟩ := h.held s hs t hts hscreen
      exact ⟨hmem,htrue.imp id (fun ht => htoggling (.inl ht))⟩
    · obtain ⟨hmem,htrue⟩ := hnew t htn hscreen
      exact ⟨hmem,htrue.imp id htoggling⟩
  joining := fun _ hnone => by cases hnone

theorem Kept.erase (h : Kept v) {a : Nat × Control} (ha : ∀ t, a.2 = .toggle t →
    ∀ s ∈ v.webrtc, t ∈ s.tracks → v.Truthful t) :
    Kept { v with awaiting := v.awaiting.erase a } where
  outside := h.outside
  screens := h.screens
  timely := h.timely
  overtaken := h.overtaken
  joining := h.joining
  held := by
    intro s hs t hst hscreen
    obtain ⟨hmem,htrue⟩ := h.held s hs t hst hscreen
    refine ⟨hmem,?_⟩
    by_cases hta : a.2 = .toggle t
    · exact .inl (ha t hta s hs hst)
    · refine htrue.imp id (fun htoggling => ?_)
      obtain ⟨b,hb,hbt⟩ := List.mem_map.mp htoggling
      have hne : b ≠ a := fun he => hta (he ▸ hbt)
      exact List.mem_map.mpr ⟨b,(List.mem_erase_of_ne hne).mpr hb,hbt⟩

theorem Kept.onended (h : Kept v) (tracks : List Track) : Kept { v with onended := tracks } :=
  ⟨⟨h.outside,h.screens,h.timely,h.overtaken,h.held⟩,h.joining⟩

theorem Kept.fulfilled (h : Kept v) (c : Control) : Kept (v.fulfilled c) := by
  cases c with
  | toggle t => exact h.switch
  | startShare screenTrack => exact h.onended _
  | stopShare =>
    obtain ⟨_,_,hl,hd⟩ := stopScreenShare_frame v.devices
    exact h.devices h.timely.stopScreenShare (fun hroom => (h.overtaken hroom).stopScreenShare) hd hl

theorem fulfilled_erase (c : Control) (a : Nat × Control) :
    RoomView.fulfilled { v with awaiting := v.awaiting.erase a } c =
      { v.fulfilled c with awaiting := (v.fulfilled c).awaiting.erase a } := by
  cases c with
  | toggle t =>
    simp only [RoomView.fulfilled]
    cases t.kind <;> rfl
  | startShare | stopShare => rfl

theorem Kept.settled_true (h : Kept v) (n : Nat) : Kept (v.settled n true) := by
  unfold settled
  split
  · exact h
  · rename_i a _
    simp only [if_true]
    rw [fulfilled_erase]
    refine (h.fulfilled a.2).erase (fun t ht s hs hts => .inl ?_)
    rw [ht]
    simp [RoomView.fulfilled]

theorem Kept.settled_false (h : Kept v) {n : Nat} (hn : ∀ t,
    v.awaiting.find? (fun a => a.1 = n) = some (n,.toggle t) →
      ∀ s ∈ v.webrtc, t ∈ s.tracks → v.Truthful t) : Kept (v.settled n false) := by
  unfold settled
  split
  · exact h
  · rename_i a ha
    simp only [Bool.false_eq_true,if_false]
    refine h.erase (fun t ht => hn t ?_)
    have hnum : a.1 = n := by simpa using List.find?_some ha
    rw [ha,← hnum,← ht]

theorem Kept.stopScreenShare (h : Kept v) (hr : v.Restores) : Kept v.stopScreenShare := by
  unfold RoomView.stopScreenShare
  split
  · exact h
  · rename_i screenTrack hstream
    have hscreen : v.devices.screenStream.isSome := by
      obtain ⟨stream,hs,_⟩ := Option.bind_eq_some_iff.mp hstream
      simp [hs]
    dsimp only
    split
    · exact h.onended _
    · rename_i s hs
      have hs : v.webrtc = some s := hs
      refine (h.onended (v.onended.filter (· ≠ screenTrack))).replaceTrack hs (fun t ht _ => ?_)
      refine ⟨.inl (Stream.ofKind_eq_some ht).1,?_⟩
      exact (hr (by simp [hs]) hscreen t ht).imp id .inl

theorem Kept.capture (h : Kept v) {c : Capture}
    (hc : ∀ w, c.version = some w → w ≤ v.devices.captureVersion)
    (hne : ∀ w audio video, c ≠ .getLocalStream w audio video) :
    Kept { v with devices := v.devices.capture c } :=
  h.devices (h.timely.capture hc) (fun hroom => (h.overtaken hroom).capture hne) rfl rfl

theorem Kept.toggle (h : Kept v) (kind : Kind) : Kept (v.toggle kind) := by
  unfold RoomView.toggle
  split
  · exact h.capture (by simp [Capture.version]) (by simp)
  · exact h.switch

theorem Held.acquired (h : Held v) (hmem : t ∈ v.devices.localStream)
    (hj : v.view = .room → v.webrtc = none → ∀ u ∈ v.devices.localStream, u.kind ≠ t.kind →
      v.Truthful u) : Kept (v.acquired t) := by
  unfold RoomView.acquired
  split
  · exact h.switch hj
  · rename_i s hs
    split
    · exact h.switch hj
    · refine h.replaceTrack hs (fun u hu _ => ?_)
      cases hu
      exact ⟨.inl hmem,.inr (.inr rfl)⟩

theorem Kept.sharing (h : Kept v) (ht : t.kind = .video) : Kept (v.sharing t) := by
  have hscreens : Kept { v with screens := t :: v.screens } := by
    refine ⟨⟨h.outside,?_,h.timely,h.overtaken,?_⟩,h.joining⟩
    · rintro u (_ | ⟨_,hu⟩)
      · exact ht
      · exact h.screens u hu
    · intro s hs u hsu hscreen
      exact h.held s hs u hsu (fun hu => hscreen (List.mem_cons_of_mem _ hu))
  unfold RoomView.sharing
  dsimp only
  split
  · exact hscreens
  · rename_i s hs
    refine hscreens.replaceTrack hs (fun u hu hscreen => ?_)
    cases hu
    exact absurd List.mem_cons_self hscreen

theorem mem_exchange_iff {u : Track} : u ∈ (d.exchange t).localStream ↔
    u = t ∨ u ∈ d.localStream ∧ d.localStream.ofKind t.kind ≠ some u := by
  unfold Devices.exchange
  split
  · rename_i hnone
    rw [Stream.mem_addTrack,hnone]
    simp [or_comm]
  · rename_i old hold
    rw [Stream.mem_addTrack,Stream.mem_removeTrack,hold,Option.some_inj.ne,ne_comm]
    exact or_comm

theorem Kept.captured (h : Kept v) {n : Nat} {granted : Bool} {c : Capture} {r : Option Track}
    (hc : v.devices.captures.get n = some c) (hr : v.devices.answer n granted = some (d,r))
    (hdevice : granted = true → ∀ kind ∈ c.device, ∀ s ∈ v.webrtc,
      ∀ t ∈ v.devices.localStream.ofKind kind, t ∈ s.tracks → t ∈ v.devices.disabled) :
    Kept (RoomView.captured { v with devices := d } c r) := by
  have htimely := h.timely.answer hr
  have hover := fun hroom => (h.overtaken hroom).answer hr
  simp only [Devices.answer,hc] at hr
  cases c with
  | getLocalStream w audio video => cases hr
  | acquireTrack w kind =>
    simp only at hr
    split at hr
    · cases hr
      exact h.devices htimely hover rfl rfl
    · split at hr
      · cases hr
        exact h.devices htimely hover rfl rfl
      · cases hr
        refine Held.acquired (h.toHeld.devices htimely hover rfl ?_) ?_ ?_
        · exact fun _ _ t _ hmem => .inl (Stream.mem_addTrack.mpr (.inl hmem))
        · exact Stream.mem_addTrack.mpr (.inr rfl)
        · intro hroom hnone u hu hne
          refine (truthful_devices rfl).mpr (h.joining hroom hnone u ?_)
          refine ((Stream.mem_addTrack.mp hu).resolve_right (fun he => hne (he ▸ rfl)))
  | setDevice kind =>
    simp only at hr
    split at hr
    · cases hr
      exact h.devices htimely hover rfl rfl
    · rename_i hg
      simp only [Option.some.injEq,Prod.mk.injEq] at hr
      obtain ⟨hd,rfl⟩ := hr
      have hstream : ∀ (u : Track), u ∈ d.localStream ↔ u = v.devices.newTrack kind ∨
          u ∈ v.devices.localStream ∧ v.devices.localStream.ofKind kind ≠ some u :=
        fun u => hd ▸ mem_exchange_iff
      have hdisabled : d.disabled = v.devices.disabled := by
        rw [← hd,Devices.exchange]
        split <;> rfl
      have hheld := h.toHeld.devices htimely hover hdisabled (fun s hs t hts hmem => by
        by_cases hold : v.devices.localStream.ofKind kind = some t
        · rw [hdisabled]
          exact .inr (hdevice (by simpa using hg) kind rfl s hs t hold hts)
        · exact .inl ((hstream t).mpr (.inr ⟨hmem,hold⟩)))
      have hkept : Kept (RoomView.switch { v with devices := d } kind (v.shows kind)) :=
        hheld.switch (fun hroom hnone u hu hne => by
          refine (truthful_devices hdisabled).mpr ?_
          rcases (hstream u).mp hu with rfl | ⟨hmem,_⟩
          · exact absurd rfl hne
          · exact h.joining hroom hnone u hmem)
      have heq : RoomView.captured { v with devices := d } (.setDevice kind)
          (some (v.devices.newTrack kind)) =
          RoomView.switch { v with devices := d } kind (v.shows kind) :=
        (switch_shows { v with devices := d } kind).symm
      rw [heq]
      exact hkept
  | startScreenShare =>
    simp only at hr
    split at hr
    · cases hr
      exact h.devices htimely hover rfl rfl
    · cases hr
      exact (h.devices htimely hover rfl rfl).sharing rfl

theorem kept_init : Kept init where
  outside := fun _ => rfl
  screens := fun t ht => by cases ht
  timely := fun n c w hn => by cases hn
  overtaken := fun hroom => by cases hroom
  held := fun s hs => by cases hs
  joining := fun hroom => by cases hroom

theorem kept_outside (hview : v.view ≠ .room) (hnone : v.webrtc = none)
    (hscreens : ∀ t ∈ v.screens, t.kind = .video) (ht : v.devices.Timely) : Kept v where
  outside := fun _ => hnone
  screens := hscreens
  timely := ht
  overtaken := fun hroom => absurd hroom hview
  held := fun s hs => by rw [hnone] at hs; cases hs
  joining := fun hroom => absurd hroom hview

theorem Kept.leaveRoom (h : Kept v) : Kept v.leaveRoom := by
  have hstop : v.devices.stopLocalPreview.Timely := h.timely.cancel
  exact kept_outside (by simp [RoomView.leaveRoom]) rfl h.screens hstop.stopScreenShare

/-- Joining shows as off what has no enabled track. -/
theorem Kept.onJoinRoom (h : Kept v) (hview : v.view ≠ .room) : Kept v.onJoinRoom where
  outside := fun hv => absurd rfl hv
  screens := h.screens
  timely := h.timely.cancel
  overtaken := fun _ => h.timely.overtaken
  held := fun s hs => by
    have hs : v.webrtc = some s := hs
    rw [h.outside hview] at hs
    cases hs
  joining := by
    intro _ _ t hmem
    have hshows : v.onJoinRoom.shows t.kind = v.sends t.kind := by
      cases t.kind with
      | audio => exact Bool.not_not _
      | video => rfl
    by_cases hd : t ∈ v.devices.disabled
    · exact .inr hd
    · refine .inl ?_
      rw [hshows,sends,List.any_eq_true]
      exact ⟨t,hmem,by simp [hd]⟩

theorem Kept.joined (h : Kept v) (hroom : v.view = .room) (hnone : v.webrtc = none)
    (participants : List JsString) :
    Kept { v with webrtc := some (Session.start v.devices.localStream participants) } where
  outside := fun hview => absurd hroom hview
  screens := h.screens
  timely := h.timely
  overtaken := h.overtaken
  held := by
    intro s hs t hst _
    obtain rfl : Session.start v.devices.localStream participants = s := Option.some.inj hs
    exact ⟨.inl (tracks_start hst),.inl (h.joining hroom hnone t (tracks_start hst))⟩
  joining := fun _ hn => by cases hn

theorem Kept.half (h : Kept v) {n : Nat} {k : Kind} {granted : Bool}
    (hd : v.devices.half n k granted = some d) :
    Kept (if v.view = .preview ∧ d.captures.get n = none then { v with devices := d }.previewed
      else { v with devices := d }) := by
  have hdevices : Kept { v with devices := d } := by
    by_cases hroom : v.view = .room
    · obtain ⟨ho,hl,hdis⟩ := (h.overtaken hroom).half hd
      exact h.devices (h.timely.half hd) (fun _ => ho) hdis hl
    · exact kept_outside hroom (h.outside hroom) h.screens (h.timely.half hd)
  split
  · exact hdevices.switch.switch
  · exact hdevices

theorem Kept.session (h : Kept v) {e : SessionEvent} {u : Session} {out : List Output}
    (hs : v.webrtc = some s) (he : e.isCall = false) (hstep : s.step e = some (u,out))
    (hn : ∀ n ∈ s.rejects e, ∀ t ∈ (s.apart n e).tracks,
      v.awaiting.find? (fun a => a.1 = n) = some (n,.toggle t) → v.Truthful t) :
    Kept (out.foldl output { v with webrtc := some u }) := by
  have hu : Kept { v with webrtc := some u } := by
    refine ⟨⟨fun hview => absurd (h.room hs) hview,h.screens,h.timely,h.overtaken,?_⟩,?_⟩
    · intro w hw t hwt hscreen
      obtain rfl : u = w := Option.some.inj hw
      refine h.held s hs t (tracks_step ?_ hstep hwt) hscreen
      rintro oldTrack newTrack rfl
      cases he
    · exact fun _ hnone => by cases hnone
  rcases step_out hstep with rfl | ⟨o,rfl⟩
  · exact hu
  · cases o with
    | send | remoteTrack | error => exact hu
    | replaced n => exact hu.settled_true n
    | replaceFailed n =>
      obtain ⟨hrejects,hapart⟩ := tracks_rejected hstep (List.mem_singleton_self _)
      refine hu.settled_false (fun t hfind w hw hwt => ?_)
      obtain rfl : u = w := Option.some.inj hw
      rw [hapart] at hwt
      exact hn n hrejects t hwt hfind

theorem kept_step {w : RoomView} (h : Kept v) {e : RoomViewEvent} (hc : v.Controlled e)
    (hstep : v.step e = some w) : Kept w := by
  have houtside : v.view ≠ .room → v.webrtc = none := h.outside
  cases effect hstep with
  | asViewer hview =>
    exact kept_outside (by simp) (houtside (by simp [hview])) h.screens h.timely.cancel
  | preview hview =>
    exact kept_outside (by simp) (houtside (by simp [hview])) h.screens
      (h.timely.cancel.capture (by simp [Capture.version,Devices.cancelPendingCapture]))
  | back hview => exact kept_outside (by simp) (houtside (by simp [hview])) h.screens h.timely.cancel
  | joinWithout hview =>
    have hne : v.view ≠ .room := by simp [hview]
    have hstop : Kept { v with devices := v.devices.stopLocalPreview } :=
      kept_outside hne (houtside hne) h.screens h.timely.cancel
    exact hstop.onJoinRoom hne
  | join hview => exact h.onJoinRoom (by simp [hview])
  | joined participants hroom hnone => exact h.joined hroom hnone participants
  | leave => exact h.leaveRoom
  | toggleMute => exact h.toggle .audio
  | toggleVideo => exact h.toggle .video
  | toggleScreenShare =>
    unfold RoomView.toggleScreenShare
    split
    · exact h.stopScreenShare hc
    · exact h.capture (by simp [Capture.version]) (by simp)
  | selectCamera | selectMicrophone => exact h.capture (by simp [Capture.version]) (by simp)
  | half n kind granted d hd => exact h.half hd
  | answer n granted c d r hget hanswer =>
    refine h.captured hget hanswer (fun hg kind hkind => ?_)
    subst hg
    exact hc kind (by rw [hget]; exact hkind)
  | session e s u out hs he hu => exact h.session hs he hu (hc s hs)
  | late i ok c =>
    have hlate : Kept { v with late := v.late.eraseIdx i } :=
      ⟨⟨h.outside,h.screens,h.timely,h.overtaken,h.held⟩,h.joining⟩
    split
    · exact hlate.fulfilled c
    · exact hlate
  | ended t =>
    have hstop : Kept { v with devices := v.devices.stop [t] } :=
      h.devices h.timely h.overtaken rfl rfl
    split
    · rename_i hmem
      exact hstop.stopScreenShare (hc hmem)
    · exact hstop

/-- Once no toggle is pending, what is controlled is what the page shows. -/
theorem Kept.honest (h : Kept v) (hquiet : v.Quiet) : v.Honest := by
  have htruthful : ∀ t ∈ v.sent, t ∉ v.screens → v.Truthful t := by
    intro t ht hscreen
    cases hs : v.webrtc with
    | none =>
      rw [sent,hs] at ht
      cases ht
    | some s =>
      rw [sent,hs] at ht
      refine (h.held s hs t (sent_tracks ht) hscreen).2.resolve_right (fun htoggling => ?_)
      rw [Toggling,hquiet.1] at htoggling
      cases htoggling
  refine ⟨fun hm t ht hk => ?_,fun hv t ht hk hscreen => ?_⟩
  · have hscreen : t ∉ v.screens := by
      intro hscreen
      rw [h.screens t hscreen] at hk
      cases hk
    exact (htruthful t ht hscreen).resolve_left (by simp [hk,shows,hm])
  · exact (htruthful t ht hscreen).resolve_left (by simp [hk,shows,hv])

end RoomView

/-- In a run at none of whose steps a track escapes its control, no peer is ever sent an
enabled track of a microphone or camera that is shown as off, once no toggle and no screen
share is pending. -/
theorem mute_honesty {es : List RoomViewEvent} {v : RoomView}
    (hrun : Runs.exec RoomView.step RoomView.init es = some v)
    (hcontrolled : Runs.Along RoomView.step RoomView.Controlled RoomView.init es)
    (hquiet : v.Quiet) : v.Honest := by
  have hkept : v.Kept := Runs.exec_invariant_along
    (fun s e t hs hc ht => RoomView.kept_step hs hc ht) RoomView.kept_init hcontrolled hrun
  exact hkept.honest hquiet

def negotiating (id : JsString) : List RoomViewEvent :=
  [.session (.next id),.session (.settle id [] []),.session (.settle id (js "v=0") []),
    .session (.signal id (.answer (js "v=0"))),.session (.next id),.session (.settle id [] [])]

def unmuting : List RoomViewEvent :=
  [.preview true,.join false,.joined [js "a",js "b"]] ++ negotiating (js "a") ++ negotiating (js "b") ++
    [.toggleMute,.answer 0 true,.session (.sender (js "a") 0 true)]

/-- Both peers take the track, and the user mutes it again. -/
theorem mute_honesty_muted :
    ∃ v, Runs.exec RoomView.step RoomView.init (unmuting ++
        [.session (.sender (js "b") 0 true),.session (.replaced 0),.toggleMute]) = some v ∧
      v.isMuted = true ∧ v.sent = [⟨0,.audio⟩,⟨0,.audio⟩] ∧ v.Honest := by
  have hrun : ((Runs.exec RoomView.step RoomView.init (unmuting ++
      [.session (.sender (js "b") 0 true),.session (.replaced 0),.toggleMute])).filter (fun v =>
        v.Quiet ∧ v.isMuted = true ∧ v.sent = [⟨0,.audio⟩,⟨0,.audio⟩])).isSome := by
    decide +kernel
  obtain ⟨v,hv⟩ := Option.isSome_iff_exists.mp hrun
  obtain ⟨hv,hq⟩ := Option.filter_eq_some_iff.mp hv
  obtain ⟨hq,hm,hsent⟩ := of_decide_eq_true hq
  exact ⟨v,hv,hm,hsent,mute_honesty hv (by decide +kernel) hq⟩

/-- The second peer's sender rejects the track that the first has taken. -/
theorem mute_honesty_one_peer :
    ¬ ∀ (es : List RoomViewEvent) (v : RoomView),
      Runs.exec RoomView.step RoomView.init es = some v → v.Quiet → v.Honest := by
  intro h
  have hrun : ((Runs.exec RoomView.step RoomView.init (unmuting ++
      [.session (.sender (js "b") 0 false)])).filter (fun v =>
        v.Quiet ∧ ¬ v.Honest)).isSome := by decide +kernel
  obtain ⟨v,hv⟩ := Option.isSome_iff_exists.mp hrun
  obtain ⟨hv,hq⟩ := Option.filter_eq_some_iff.mp hv
  obtain ⟨hq,hn⟩ := of_decide_eq_true hq
  exact hn (h _ v hv hq)

end MaiaMeet
