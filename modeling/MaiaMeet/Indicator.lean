import MaiaMeet.Honesty
import MaiaMeet.Recording
import MaiaMeet.RoomDevices
set_option autoImplicit false

/-! The recording flag of the page against the recorders, which stop by themselves where the
stream they record changes or ends. -/

namespace MaiaMeet

def Capture.changes (c : Capture) (version : Nat) : Bool :=
  match c with
  | .acquireTrack w _ => w = version
  | .setDevice _ => true
  | _ => false

namespace Devices

def Active (d : Devices) : Prop := ∃ t ∈ d.localStream, t ∈ d.live
  deriving Decidable

def Calm (d : Devices) : DeviceEvent → Prop
  | .getLocalStream | .stopLocalPreview => False
  | .answer n true => ∀ c ∈ d.captures.get n, c.changes d.captureVersion = false
  | .ended t => ∃ u ∈ d.localStream, u ∈ d.live ∧ u ≠ t
  | _ => True

end Devices

/-- The page with its recorders; `stream` is the MediaStream that localStream is. -/
structure RecordedRoom where
  room : RoomView
  stream : Nat
  recording : Recording
  deriving DecidableEq, Repr

inductive RecordedEvent where
  | room (e : RoomViewEvent)
  | toggleRecording (start : Start)
  | dataavailable (i : Nat) (data : Chunk)
  | stop (i : Nat)
  deriving DecidableEq, Repr

namespace RecordedRoom

def init : RecordedRoom := ⟨RoomView.init,0,Recording.new⟩

/-- Where devices.js puts a new MediaStream in the place of localStream. -/
def renews : RoomViewEvent → Bool
  | .preview viewer => viewer
  | .join withoutDevices => withoutDevices
  | .back | .leave => true
  | _ => false

/-- What the browser makes of a recorder: where a track has been added to its stream or removed
from it, or all its tracks have ended, it queues the task that stops the recorder. -/
def observe (s : RecordedRoom) (m : MediaRecorder) : MediaRecorder :=
  if m.state = .recording ∧ ((m.stream = s.stream ∧ m.tracks ≠ s.room.devices.localStream) ∨
      ∀ t ∈ m.tracks, t ∉ s.room.devices.live)
    then { m with queued := true } else m

def observed (s : RecordedRoom) : RecordedRoom :=
  { s with recording := { s.recording with recorders := s.recording.recorders.map s.observe } }

def step (s : RecordedRoom) : RecordedEvent → Option RecordedRoom
  | .room e => (s.room.step e).map (fun w => observed
    { room := w
      stream := if renews e then s.stream + 1 else s.stream
      recording := if e = .leave then s.recording.leaveRoom else s.recording })
  | .toggleRecording start =>
    -- `start` throws where no track of the stream is live
    if s.room.view = .room ∧ (start = .started → s.room.devices.Active) then
      some { s with
        recording := s.recording.toggleRecording s.stream s.room.devices.localStream start }
    else none
  | .dataavailable i data =>
    if s.recording.fires i then some { s with recording := s.recording.ondataavailable data }
    else none
  | .stop i =>
    if s.recording.recorders[i]?.any MediaRecorder.queued then some { s with
      recording := { s.recording with recorders := s.recording.recorders.modify i Recording.finish } }
    else none

def Settled (s : RecordedRoom) : Prop := ∀ m ∈ s.recording.recorders, m.queued = false
  deriving Decidable

/-- What the button shows is whether a recorder is recording. -/
def Shown (s : RecordedRoom) : Prop :=
  s.recording.isRecording = true ↔ ∃ m ∈ s.recording.recorders, m.state = .recording
  deriving Decidable

/-- While recording, no microphone or camera is granted to the page, and no track ends by
itself that was the last live one of localStream. -/
def Undisturbed (s : RecordedRoom) : RecordedEvent → Prop
  | .room (.answer n true) => s.recording.isRecording = true →
    ∀ c ∈ s.room.devices.captures.get n, c.changes s.room.devices.captureVersion = false
  | .room (.ended t) => s.recording.isRecording = true →
    ∃ u ∈ s.room.devices.localStream, u ∈ s.room.devices.live ∧ u ≠ t
  | _ => True

instance (s : RecordedRoom) : (e : RecordedEvent) → Decidable (s.Undisturbed e)
  | .room (.answer n true) => inferInstanceAs (Decidable (s.recording.isRecording = true →
    ∀ c ∈ s.room.devices.captures.get n, c.changes s.room.devices.captureVersion = false))
  | .room (.ended t) => inferInstanceAs (Decidable (s.recording.isRecording = true →
    ∃ u ∈ s.room.devices.localStream, u ∈ s.room.devices.live ∧ u ≠ t))
  | .room (.answer _ false) => instDecidableTrue
  | .room (.preview _) | .room .back | .room (.join _) | .room (.joined _) | .room .leave
  | .room .toggleMute | .room .toggleVideo | .room .toggleScreenShare | .room .selectCamera
  | .room .selectMicrophone | .room (.half _ _ _) | .room (.session _) | .room (.late _ _) =>
    instDecidableTrue
  | .toggleRecording _ | .dataavailable _ _ | .stop _ => instDecidableTrue

end RecordedRoom

section
variable {d e : Devices} {t : Track} {kind : Kind} {n : Nat} {screens : List Track}

theorem timely_step (h : d.Timely) {ev : DeviceEvent} (hstep : d.step ev = some e) : e.Timely := by
  cases ev with
  | getLocalStream =>
    cases hstep
    exact h.cancel.capture (by simp [Capture.version,Devices.cancelPendingCapture])
  | acquireTrack => cases hstep; exact h.capture (by simp [Capture.version])
  | setCamera | setMicrophone | startScreenShare =>
    cases hstep
    exact h.capture (by simp [Capture.version])
  | half n kind granted => exact h.half hstep
  | answer n granted =>
    obtain ⟨⟨u,r⟩,hu,rfl⟩ := Option.map_eq_some_iff.mp hstep
    exact h.answer hu
  | cancelPendingCapture | stopLocalPreview => cases hstep; exact h.cancel
  | stopScreenShare => cases hstep; exact h.stopScreenShare
  | setAudioMuted | setVideoEnabled => cases hstep; exact h
  | ended t =>
    simp only [Devices.step] at hstep
    split at hstep
    · cases hstep; exact h
    · cases hstep

theorem answer_calm (hp : Placed screens d) {granted : Bool} {r : Option Track}
    (hc : granted = true → ∀ c ∈ d.captures.get n, c.changes d.captureVersion = false)
    (he : d.answer n granted = some (e,r)) :
    e.localStream = d.localStream ∧ ∀ t ∈ d.localStream, t ∈ d.live → t ∈ e.live := by
  have hnew : ∀ t ∈ d.localStream, ∀ kind, t ≠ d.newTrack kind := by
    rintro t ht kind rfl
    exact Nat.lt_irrefl _ (hp.granted _ .localStream ht)
  unfold Devices.answer at he
  split at he
  · cases he
  · cases he
  · rename_i version kind hn
    split at he
    · cases he; exact ⟨rfl,fun _ _ hl => hl⟩
    · rename_i hg
      have hne := hc (by simpa using hg) _ hn
      simp only [Capture.changes,decide_eq_false_iff_not] at hne
      rw [if_pos hne] at he
      cases he
      refine ⟨rfl,fun t ht hl => (mem_stop _).mpr ⟨mem_grant.mpr (.inl hl),?_⟩⟩
      rw [List.mem_singleton]
      exact hnew t ht kind
  · rename_i kind hn
    split at he
    · cases he; exact ⟨rfl,fun _ _ hl => hl⟩
    · rename_i hg
      have hne := hc (by simpa using hg) _ hn
      simp [Capture.changes] at hne
  · split at he
    · cases he; exact ⟨rfl,fun _ _ hl => hl⟩
    · cases he; exact ⟨rfl,fun t ht hl => mem_grant.mpr (.inl hl)⟩

theorem half_calm (hp : Placed screens d) (ho : d.Overtaken) {granted : Bool}
    (he : d.half n kind granted = some e) (ht : t ∈ d.localStream) (hl : t ∈ d.live) :
    t ∈ e.live := by
  obtain ⟨w,audio,video,audio',video',hn,hm,rfl | rfl⟩ := half_cases he
  · exact mem_answered.mpr (.inl hl)
  · have hversion : (d.answered kind granted).captureVersion = d.captureVersion := by
      rw [answered_eq]
    have hlt := ho n w audio video hn
    rw [Devices.gather,if_pos (by simp only [hversion]; omega)]
    refine (mem_stop _).mpr ⟨mem_answered.mpr (.inl hl),fun hmem => ?_⟩
    rcases (hm t).mp hmem with hb | hb
    · have hid := (mem_brings hb).1
      have hgranted := hp.granted t .localStream ht
      omega
    · have hplace := hp.one t .localStream (.capture n) ht ⟨_,hn,hb⟩
      cases hplace

theorem overtaken_step (ho : d.Overtaken) {ev : DeviceEvent} (hev : ev ≠ .getLocalStream)
    (hstep : d.step ev = some e) : e.Overtaken := by
  have hcancel : d.cancelPendingCapture.Overtaken :=
    fun n w a b hn => Nat.lt_succ_of_lt (ho n w a b hn)
  cases ev with
  | getLocalStream => exact absurd rfl hev
  | acquireTrack | setCamera | setMicrophone | startScreenShare =>
    cases hstep
    exact ho.capture (by simp)
  | half n kind granted => exact (ho.half hstep).1
  | answer n granted =>
    obtain ⟨⟨u,r⟩,hu,rfl⟩ := Option.map_eq_some_iff.mp hstep
    exact ho.answer hu
  | cancelPendingCapture | stopLocalPreview => cases hstep; exact hcancel
  | stopScreenShare => cases hstep; exact ho.stopScreenShare
  | setAudioMuted | setVideoEnabled => cases hstep; exact ho
  | ended u =>
    simp only [Devices.step] at hstep
    split at hstep
    · cases hstep; exact ho
    · cases hstep

/-- Calm events keep localStream and a live track in it. -/
theorem calm_step (hp : Placed screens d) (ho : d.Overtaken) (ha : d.Active) {ev : DeviceEvent}
    (hc : d.Calm ev) (hstep : d.step ev = some e) :
    e.localStream = d.localStream ∧ e.Active := by
  obtain ⟨t,ht,hl⟩ := ha
  cases ev with
  | getLocalStream | stopLocalPreview => exact hc.elim
  | acquireTrack | setCamera | setMicrophone | startScreenShare | cancelPendingCapture
  | setAudioMuted | setVideoEnabled =>
    cases hstep
    exact ⟨rfl,t,ht,hl⟩
  | half n kind granted =>
    have hlocal := (ho.half hstep).2.1
    exact ⟨hlocal,t,hlocal ▸ ht,half_calm hp ho hstep ht hl⟩
  | answer n granted =>
    obtain ⟨⟨u,r⟩,hu,rfl⟩ := Option.map_eq_some_iff.mp hstep
    have hcalm : granted = true →
        ∀ c ∈ d.captures.get n, c.changes d.captureVersion = false := by
      rintro rfl
      exact hc
    obtain ⟨hlocal,hlive⟩ := answer_calm hp hcalm hu
    exact ⟨hlocal,t,hlocal ▸ ht,hlive t ht hl⟩
  | stopScreenShare =>
    cases hstep
    have hlocal := (stopScreenShare_frame d).2.2.1
    refine ⟨hlocal,t,hlocal ▸ ht,?_⟩
    unfold Devices.stopScreenShare
    split
    · exact hl
    · rename_i stream hs
      refine (mem_stop _).mpr ⟨hl,fun hmem => ?_⟩
      have hscreen : d.At t .screenStream := by simpa [Devices.At,hs] using hmem
      cases hp.one t .localStream .screenStream ht hscreen
  | ended u =>
    simp only [Devices.step] at hstep
    split at hstep
    · cases hstep
      obtain ⟨t',ht',hl',hne⟩ := hc
      refine ⟨rfl,t',ht',(mem_stop _).mpr ⟨hl',?_⟩⟩
      rw [List.mem_singleton]
      exact hne
    · cases hstep

end

namespace RoomView

variable {v w : RoomView} {e : RoomViewEvent}

theorem room_does (hroom : v.view = .room) (hstep : v.step e = some w) {d : Devices}
    {ev : DeviceEvent} (h : v.Does e d ev) : ev ≠ .getLocalStream := by
  rintro rfl
  rcases h with hm | ⟨_,hc⟩
  · cases hm
  · cases e with
    | preview => simp [RoomView.step,hroom] at hstep
    | half | answer | ended => simp [RoomViewEvent.causes] at hc
    | back | join | joined | leave | toggleMute | toggleVideo | toggleScreenShare | selectCamera
    | selectMicrophone | session | late => cases hc

structure Sound (v : RoomView) : Prop where
  placed : Placed [] v.devices
  timely : v.devices.Timely
  overtaken : v.view = .room → v.devices.Overtaken

theorem sound_init : Sound init :=
  ⟨placed_init,kept_init.timely,kept_init.overtaken⟩

theorem sound_step (h : Sound v) (hstep : v.step e = some w) : Sound w where
  placed := RoomView.placed h.placed hstep
  timely := devices_invariant (fun _ _ _ hd he => timely_step hd he) h.timely hstep
  overtaken := by
    intro hroom
    rcases room_entered hroom hstep with hv | ⟨u,rfl,rfl | rfl⟩
    · exact (step_devices hstep).invariant
        (fun d ev d' hd hdoes he => overtaken_step hd (room_does hv hstep hdoes) he)
        (h.overtaken hv)
    · exact h.timely.overtaken
    · exact h.timely.cancel.overtaken

end RoomView

namespace Recording

variable {r t : Recording} {i : Nat} {tracks : Stream}

def Idle (r : Recording) : Prop := ∀ m ∈ r.recorders, m.state = .inactive

def Current (r : Recording) (tracks : Stream) : Prop :=
  ∃ i m, r.mediaRecorder = some i ∧ r.recorders[i]? = some m ∧ m.state = .recording ∧
    m.queued = false ∧ m.tracks = tracks ∧
    ∀ j n, r.recorders[j]? = some n → n.state = .recording → j = i

theorem idle_iff : r.Idle ↔
    ∀ (i : Nat) (m : MediaRecorder), r.recorders[i]? = some m → m.state ≠ .recording := by
  constructor
  · intro h i m hm
    rw [h m (List.mem_of_getElem? hm)]
    simp
  · intro h m hm
    obtain ⟨i,hi⟩ := List.mem_iff_getElem?.mp hm
    cases hs : m.state with
    | inactive => rfl
    | recording => exact absurd hs (h i m hi)

theorem halt_state (m : MediaRecorder) : (halt m).state = .inactive := by
  unfold halt
  split
  · assumption
  · rfl

theorem idle_stopRecording (h : ∀ i m, r.recorders[i]? = some m → m.state = .recording →
    r.mediaRecorder = some i) : r.stopRecording.Idle := by
  rw [idle_iff]
  intro j m hm hs
  unfold stopRecording at hm
  split at hm
  · rename_i hnone
    have hj := h j m hm hs
    rw [hnone] at hj
    cases hj
  · rename_i i hi
    simp only [List.getElem?_modify] at hm
    obtain ⟨n,hn,rfl⟩ := Option.map_eq_some_iff.mp hm
    split at hs
    · rw [halt_state] at hs
      cases hs
    · rename_i hne
      have hj := h j n hn hs
      rw [hi,Option.some.injEq] at hj
      exact hne hj

theorem Idle.stopRecording (h : r.Idle) : r.stopRecording.Idle :=
  idle_stopRecording (fun i m hm hs => absurd hs (idle_iff.mp h i m hm))

theorem Current.stopRecording (h : r.Current tracks) : r.stopRecording.Idle := by
  obtain ⟨i,_,hi,_,_,_,_,hone⟩ := h
  refine idle_stopRecording (fun j n hn hs => ?_)
  rw [hi,hone j n hn hs]

theorem Idle.startRecording (h : r.Idle) (stream : Nat) (tracks : Stream) (start : Start) :
    if start = .started then (r.startRecording stream tracks start).Current tracks
      else (r.startRecording stream tracks start).Idle := by
  cases start with
  | unsupported => exact h
  | refused =>
    intro m hm
    rcases List.mem_append.mp hm with hm | hm
    · exact h m hm
    · rw [List.mem_singleton.mp hm]
  | started =>
    refine ⟨r.recorders.length,_,rfl,List.getElem?_concat_length,rfl,rfl,rfl,?_⟩
    intro j n hn hs
    simp only [Recording.startRecording,List.getElem?_append] at hn
    split at hn
    · exact absurd hs (idle_iff.mp h j n hn)
    · obtain ⟨hlt,_⟩ := List.getElem?_eq_some_iff.mp hn
      rw [List.length_singleton] at hlt
      omega

theorem Idle.map (h : r.Idle) {f : MediaRecorder → MediaRecorder}
    (hf : ∀ m, (f m).state = m.state) : Idle { r with recorders := r.recorders.map f } := by
  intro m hm
  obtain ⟨n,hn,rfl⟩ := List.mem_map.mp hm
  rw [hf,h n hn]

theorem Current.map (h : r.Current tracks) {f : MediaRecorder → MediaRecorder}
    (hf : ∀ m, (f m).state = m.state)
    (hcurrent : ∀ m, m.state = .recording → m.tracks = tracks → f m = m) :
    Current { r with recorders := r.recorders.map f } tracks := by
  obtain ⟨i,m,hi,hm,hs,hq,ht,hone⟩ := h
  refine ⟨i,m,hi,?_,hs,hq,ht,fun j n hn hsn => ?_⟩
  · simp [hm,hcurrent m hs ht]
  · simp only [List.getElem?_map] at hn
    obtain ⟨n',hn',rfl⟩ := Option.map_eq_some_iff.mp hn
    exact hone j n' hn' (hf n' ▸ hsn)

theorem Idle.finish (h : r.Idle) (i : Nat) :
    Idle { r with recorders := r.recorders.modify i finish } := by
  rw [idle_iff]
  intro j m hm
  simp only [List.getElem?_modify] at hm
  obtain ⟨n,hn,rfl⟩ := Option.map_eq_some_iff.mp hm
  split
  · simp [Recording.finish]
  · exact idle_iff.mp h j n hn

theorem Current.finish (h : r.Current tracks)
    (hi : r.recorders[i]?.any MediaRecorder.queued = true) :
    Current { r with recorders := r.recorders.modify i finish } tracks := by
  obtain ⟨k,m,hk,hm,hs,hq,ht,hone⟩ := h
  have hne : i ≠ k := by
    rintro rfl
    simp [hm,hq] at hi
  refine ⟨k,m,hk,by simp [hm,hne],hs,hq,ht,fun j n hn hsn => ?_⟩
  simp only [List.getElem?_modify] at hn
  obtain ⟨n',hn',rfl⟩ := Option.map_eq_some_iff.mp hn
  split at hsn
  · simp [Recording.finish] at hsn
  · exact hone j n' hn' hsn

end Recording

namespace RecordedRoom

variable {s t : RecordedRoom}

structure Indicated (s : RecordedRoom) : Prop where
  sound : s.room.Sound
  off : s.recording.isRecording = false → s.recording.Idle
  on : s.recording.isRecording = true → s.room.view = .room ∧ s.room.devices.Active ∧
    s.recording.Current s.room.devices.localStream

theorem Indicated.shown (h : Indicated s) : s.Shown := by
  constructor
  · intro hon
    obtain ⟨_,_,i,m,_,hm,hs,_⟩ := h.on hon
    exact ⟨m,List.mem_of_getElem? hm,hs⟩
  · rintro ⟨m,hm,hs⟩
    by_contra hoff
    rw [h.off (by simpa using hoff) m hm] at hs
    cases hs

theorem observe_state (s : RecordedRoom) (m : MediaRecorder) : (s.observe m).state = m.state := by
  unfold observe
  split <;> rfl

/-- A recorder whose tracks are those of localStream goes on while one of them is live. -/
theorem observe_same {m : MediaRecorder} (ha : s.room.devices.Active)
    (hm : m.tracks = s.room.devices.localStream) : s.observe m = m := by
  obtain ⟨t,ht,hl⟩ := ha
  unfold observe
  rw [if_neg]
  rintro ⟨_,⟨_,hne⟩ | hall⟩
  · exact hne hm
  · exact hall t (hm ▸ ht) hl

theorem Indicated.idle_stopRecording (h : Indicated s) : s.recording.stopRecording.Idle := by
  cases hr : s.recording.isRecording with
  | false => exact (h.off hr).stopRecording
  | true => exact (h.on hr).2.2.stopRecording

theorem mild_calm {d : Devices} {ev : DeviceEvent} (h : ev.mild = true) : d.Calm ev := by
  cases ev with
  | getLocalStream | stopLocalPreview | half | answer | ended => cases h
  | _ => trivial

/-- What the page makes the manager do while nothing disturbs the recording is calm. -/
theorem does_calm {w : RoomView} {e : RoomViewEvent} (hon : s.recording.isRecording = true)
    (hroom : s.room.view = .room) (hc : s.Undisturbed (.room e)) (he : e ≠ .leave)
    (hstep : s.room.step e = some w) {d : Devices} {ev : DeviceEvent}
    (hdoes : s.room.Does e d ev) : d.Calm ev := by
  rcases hdoes with hm | ⟨rfl,hcauses⟩
  · exact mild_calm hm
  · cases e with
    | leave => exact absurd rfl he
    | preview | back | join => simp [RoomView.step,hroom] at hstep
    | half n kind granted =>
      obtain rfl : ev = .half n kind granted := by simpa [RoomViewEvent.causes] using hcauses
      trivial
    | answer n granted =>
      obtain rfl : ev = .answer n granted := by simpa [RoomViewEvent.causes] using hcauses
      cases granted with
      | false => trivial
      | true => exact hc hon
    | ended u =>
      obtain rfl : ev = .ended u := by simpa [RoomViewEvent.causes] using hcauses
      exact hc hon
    | _ => cases hcauses

theorem undisturbed_devices {w : RoomView} {e : RoomViewEvent} (hs : s.room.Sound)
    (hon : s.recording.isRecording = true) (hroom : s.room.view = .room)
    (ha : s.room.devices.Active) (hc : s.Undisturbed (.room e)) (he : e ≠ .leave)
    (hstep : s.room.step e = some w) :
    w.devices.localStream = s.room.devices.localStream ∧ w.devices.Active := by
  have hinv : Placed [] w.devices ∧ w.devices.Overtaken ∧ w.devices.Active ∧
      w.devices.localStream = s.room.devices.localStream := by
    refine (RoomView.step_devices hstep).invariant (I := fun d => Placed [] d ∧ d.Overtaken ∧
      d.Active ∧ d.localStream = s.room.devices.localStream) ?_
      ⟨hs.placed,hs.overtaken hroom,ha,rfl⟩
    rintro d ev d' ⟨hp,ho,had,hl⟩ hdoes hd
    obtain ⟨hlocal,hactive⟩ := calm_step hp ho had (does_calm hon hroom hc he hstep hdoes) hd
    exact ⟨placed_step hp hd,overtaken_step ho (RoomView.room_does hroom hstep hdoes) hd,hactive,
      hlocal.trans hl⟩
  exact ⟨hinv.2.2.2,hinv.2.2.1⟩

theorem indicated_room (h : Indicated s) {e : RoomViewEvent} (hc : s.Undisturbed (.room e))
    (hstep : s.step (.room e) = some t) : Indicated t := by
  obtain ⟨w,hw,rfl⟩ := Option.map_eq_some_iff.mp hstep
  have hsound := RoomView.sound_step h.sound hw
  by_cases he : e = .leave
  · subst he
    exact ⟨hsound,fun _ => h.idle_stopRecording.map (observe_state _),fun hon => by cases hon⟩
  · simp only [if_neg he]
    refine ⟨hsound,fun hoff => (h.off hoff).map (observe_state _),fun hon => ?_⟩
    obtain ⟨hroom,ha,hcurrent⟩ := h.on hon
    obtain ⟨hlocal,hactive⟩ := undisturbed_devices h.sound hon hroom ha hc he hw
    refine ⟨RoomView.room_stays hroom hw he,hactive,?_⟩
    have hrec := hcurrent.map (observe_state
      ⟨w,if renews e then s.stream + 1 else s.stream,s.recording⟩)
      (fun m _ hm => observe_same hactive (hm.trans hlocal.symm))
    rw [← hlocal] at hrec
    exact hrec

theorem indicated_toggle (h : Indicated s) {start : Start}
    (hstep : s.step (.toggleRecording start) = some t) : Indicated t := by
  simp only [step] at hstep
  split at hstep
  · rename_i hguard
    cases hstep
    cases hr : s.recording.isRecording with
    | true =>
      refine ⟨h.sound,fun _ => ?_,fun hon => ?_⟩
      · simp only [Recording.toggleRecording,hr,if_true]
        exact h.idle_stopRecording
      · simp [Recording.toggleRecording,hr] at hon
    | false =>
      have hidle := h.off hr
      have hstart := hidle.startRecording s.stream s.room.devices.localStream start
      unfold Recording.toggleRecording
      rw [hr,if_neg (by simp)]
      by_cases htracks : s.room.devices.localStream = []
      · rw [if_pos htracks]
        exact ⟨h.sound,fun _ => hidle,fun hon => by rw [hr] at hon; cases hon⟩
      · rw [if_neg htracks]
        refine ⟨h.sound,fun hoff => ?_,fun hon => ?_⟩
        · rw [if_neg (by simpa using hoff)] at hstart
          exact hstart
        · have hstarted : start = .started := by simpa using hon
          rw [if_pos hstarted] at hstart
          exact ⟨hguard.1,hguard.2 hstarted,hstart⟩
  · cases hstep

theorem indicated_step (h : Indicated s) {e : RecordedEvent} (hc : s.Undisturbed e)
    (hstep : s.step e = some t) : Indicated t := by
  cases e with
  | room e => exact indicated_room h hc hstep
  | toggleRecording start => exact indicated_toggle h hstep
  | dataavailable i data =>
    simp only [step] at hstep
    split at hstep
    · cases hstep
      unfold Recording.ondataavailable
      split
      · exact ⟨h.sound,h.off,h.on⟩
      · exact h
    · cases hstep
  | stop i =>
    simp only [step] at hstep
    split at hstep
    · rename_i hqueued
      cases hstep
      refine ⟨h.sound,fun hoff => (h.off hoff).finish i,fun hon => ?_⟩
      obtain ⟨hroom,ha,hcurrent⟩ := h.on hon
      exact ⟨hroom,ha,hcurrent.finish hqueued⟩
    · cases hstep

theorem indicated_init : Indicated init where
  sound := RoomView.sound_init
  off := fun _ m hm => by cases hm
  on := fun hon => by cases hon

theorem recording_indicator {es : List RecordedEvent} {s : RecordedRoom}
    (hrun : Runs.exec step init es = some s) (hc : Runs.Along step Undisturbed init es) :
    s.Shown :=
  Indicated.shown (Runs.exec_invariant_along (fun _ _ _ h he hs => indicated_step h he hs)
    indicated_init hc hrun)

def recorded : List RecordedEvent :=
  [.room (.preview false),.room (.half 0 .audio true),.room (.half 0 .video false),
    .room (.join false),.room (.joined []),.toggleRecording .started]

theorem recording_indicator_on : ∃ s, Runs.exec step init (recorded ++
      [.room .toggleMute,.dataavailable 0 [1],.room .toggleVideo,.room (.answer 1 false)]) = some s ∧
      s.recording.isRecording = true ∧ s.Shown := by
  have hrun : ((Runs.exec step init (recorded ++ [.room .toggleMute,.dataavailable 0 [1],
      .room .toggleVideo,.room (.answer 1 false)])).filter
        (fun s => s.recording.isRecording)).isSome := by decide +kernel
  obtain ⟨s,hs⟩ := Option.isSome_iff_exists.mp hrun
  obtain ⟨hs,hon⟩ := Option.filter_eq_some_iff.mp hs
  exact ⟨s,hs,hon,recording_indicator hs (by decide +kernel)⟩

theorem recording_indicator_camera : ∃ s, Runs.exec step init (recorded ++
      [.room .toggleVideo,.room (.answer 1 true),.stop 0]) = some s ∧ s.Settled ∧
      s.recording.isRecording = true ∧ ¬ s.Shown := by
  have hrun : ((Runs.exec step init (recorded ++ [.room .toggleVideo,.room (.answer 1 true),
      .stop 0])).filter (fun s => s.Settled ∧ s.recording.isRecording = true ∧
        ¬ s.Shown)).isSome := by decide +kernel
  obtain ⟨s,hs⟩ := Option.isSome_iff_exists.mp hrun
  obtain ⟨hs,hp⟩ := Option.filter_eq_some_iff.mp hs
  exact ⟨s,hs,of_decide_eq_true hp⟩

end RecordedRoom

end MaiaMeet
