import MaiaMeet.Page
set_option autoImplicit false

/-! The controls of app.js for microphone, camera and screen, with the devices and the session
behind them. The server is left open: an answer to room.join, and whatever makes the client
leave, may come at any time. -/

namespace MaiaMeet

/-- What awaits a call of `webrtc.replaceTrack`. -/
inductive Control where
  /-- toggleMute or toggleVideo, with the track acquired for it. -/
  | toggle (track : Track)
  | startShare (screenTrack : Track)
  | stopShare
  deriving DecidableEq, Repr

/-- `awaiting` are the controls in `webrtc.replaceTrack`, with the number of the call; `late`
are those whose session has been closed meanwhile. `screens` are the tracks getDisplayMedia
has given, `onended` those of them with a handler. -/
structure RoomView where
  view : PageView
  isMuted : Bool
  isVideoEnabled : Bool
  devices : Devices
  webrtc : Option Session
  awaiting : List (Nat × Control)
  late : List Control
  onended : List Track
  screens : List Track
  deriving DecidableEq, Repr

inductive RoomViewEvent where
  | preview (viewer : Bool)
  | back
  | join (withoutDevices : Bool)
  | joined (participants : List JsString)
  | leave
  | toggleMute | toggleVideo | toggleScreenShare
  | selectCamera | selectMicrophone
  | half (n : Nat) (kind : Kind) (granted : Bool)
  | answer (n : Nat) (granted : Bool)
  | session (e : SessionEvent)
  /-- A call of `webrtc.replaceTrack` on a closed session settles. -/
  | late (i : Nat) (ok : Bool)
  | ended (track : Track)
  deriving DecidableEq, Repr

def SessionEvent.isCall : SessionEvent → Bool
  | .replaceTrack _ _ | .close => true
  | _ => false

namespace RoomView

def init : RoomView := ⟨.lobby,false,true,Devices.init,none,[],[],[],[]⟩

def shows (v : RoomView) : Kind → Bool
  | .audio => !v.isMuted
  | .video => v.isVideoEnabled

/-- `isMuted = …; devices.setAudioMuted(isMuted)`, and the same of the camera. -/
def switch (v : RoomView) (kind : Kind) (on : Bool) : RoomView :=
  match kind with
  | .audio => { v with isMuted := !on, devices := v.devices.setAudioMuted (!on) }
  | .video => { v with isVideoEnabled := on, devices := v.devices.setVideoEnabled on }

/-- The page awaits `webrtc.replaceTrack(oldTrack, newTrack)`. -/
def replaceTrack (v : RoomView) (s : Session) (oldTrack newTrack : Option Track) (c : Control) :
    RoomView :=
  { v with
    webrtc := some (s.replaceTrack oldTrack newTrack)
    awaiting := v.awaiting ++ [(s.nextReplace,c)] }

/-- toggleMute and toggleVideo up to their first await, or to their end. -/
def toggle (v : RoomView) (kind : Kind) : RoomView :=
  match v.devices.localStream.ofKind kind with
  | none => { v with devices := v.devices.acquireTrack kind }
  | some _ => v.switch kind (!v.shows kind)

def toggleMute (v : RoomView) : RoomView := v.toggle .audio
def toggleVideo (v : RoomView) : RoomView := v.toggle .video

/-- toggleMute and toggleVideo once acquireTrack has brought a track. -/
def acquired (v : RoomView) (t : Track) : RoomView :=
  match v.webrtc with
  | none => v.switch t.kind true
  | some s =>
    -- toggleVideo alone asks for the screen
    if t.kind = .video ∧ v.devices.screenStream.isSome then v.switch t.kind true
    else v.replaceTrack s none (some t) (.toggle t)

def stopScreenShare (v : RoomView) : RoomView :=
  match v.devices.screenStream.bind (fun stream => stream.ofKind .video) with
  | none => v
  | some screenTrack =>
    let v := { v with onended := v.onended.filter (· ≠ screenTrack) }
    match v.webrtc with
    | none => v
    | some s =>
      v.replaceTrack s (some screenTrack) (v.devices.localStream.ofKind .video) .stopShare

def toggleScreenShare (v : RoomView) : RoomView :=
  if v.devices.screenStream.isSome then v.stopScreenShare
  else { v with devices := v.devices.startScreenShare }

/-- toggleScreenShare once getDisplayMedia has brought a track. -/
def sharing (v : RoomView) (screenTrack : Track) : RoomView :=
  let v := { v with screens := screenTrack :: v.screens }
  match v.webrtc with
  | none => v
  | some s =>
    v.replaceTrack s (v.devices.localStream.ofKind .video) (some screenTrack)
      (.startShare screenTrack)

def fulfilled (v : RoomView) : Control → RoomView
  | .toggle t => v.switch t.kind true
  | .startShare screenTrack => { v with onended := screenTrack :: v.onended }
  | .stopShare => { v with devices := v.devices.stopScreenShare }

def settled (v : RoomView) (n : Nat) (ok : Bool) : RoomView :=
  match v.awaiting.find? (fun a => a.1 = n) with
  | none => v
  | some a =>
    let v := { v with awaiting := v.awaiting.erase a }
    if ok then v.fulfilled a.2 else v

def output (v : RoomView) : Output → RoomView
  | .replaced n => v.settled n true
  | .replaceFailed n => v.settled n false
  | _ => v

def leaveRoom (v : RoomView) : RoomView :=
  { v with
    view := .lobby
    isMuted := false
    isVideoEnabled := true
    devices := v.devices.stopLocalPreview.stopScreenShare
    webrtc := none
    awaiting := []
    late := v.late ++ v.awaiting.map Prod.snd }

def sends (v : RoomView) (kind : Kind) : Bool :=
  v.devices.localStream.any (fun t => t.kind = kind && t ∉ v.devices.disabled)

/-- Up to the answer of room.join. -/
def onJoinRoom (v : RoomView) : RoomView :=
  { v with
    view := .room
    isMuted := !v.sends .audio
    isVideoEnabled := v.sends .video
    devices := v.devices.cancelPendingCapture }

/-- setupPreview behind getLocalStream. -/
def previewed (v : RoomView) : RoomView :=
  (v.switch .audio (v.devices.localStream.ofKind .audio).isSome).switch .video
    (v.devices.localStream.ofKind .video).isSome

/-- What follows the answer to a capture: the rest of a toggle, of a change of device, or of
toggleScreenShare. -/
def captured (v : RoomView) : Capture → Option Track → RoomView
  | .acquireTrack _ _, some t => v.acquired t
  | .setDevice kind, some _ => { v with devices := v.devices.setEnabled kind (v.shows kind) }
  | .startScreenShare, some t => v.sharing t
  | _, _ => v

def step (v : RoomView) : RoomViewEvent → Option RoomView
  | .preview viewer =>
    if v.view = .lobby then some (if viewer
      then { v with
        view := .preview
        devices := v.devices.stopLocalPreview
        isMuted := true
        isVideoEnabled := false }
      else { v with view := .preview, devices := v.devices.getLocalStream })
    else none
  | .back =>
    if v.view = .preview then some { v with view := .lobby, devices := v.devices.stopLocalPreview }
    else none
  | .join withoutDevices =>
    if v.view = .preview then some (if withoutDevices
      then { v with devices := v.devices.stopLocalPreview }.onJoinRoom else v.onJoinRoom)
    else none
  | .joined participants =>
    if v.view = .room ∧ v.webrtc = none then
      some { v with webrtc := some (Session.start v.devices.localStream participants) }
    else none
  | .leave => some v.leaveRoom
  | .toggleMute => if v.view = .lobby then none else some v.toggleMute
  | .toggleVideo => if v.view = .lobby then none else some v.toggleVideo
  | .toggleScreenShare => if v.view = .room then some v.toggleScreenShare else none
  | .selectCamera =>
    if v.view = .preview then some { v with devices := v.devices.setCamera } else none
  | .selectMicrophone =>
    if v.view = .preview then some { v with devices := v.devices.setMicrophone } else none
  | .half n kind granted =>
    (v.devices.half n kind granted).map (fun d =>
      if v.view = .preview ∧ d.captures.get n = none then { v with devices := d }.previewed
      else { v with devices := d })
  | .answer n granted => do
    let c ← v.devices.captures.get n
    let r ← v.devices.answer n granted
    some ({ v with devices := r.1 }.captured c r.2)
  | .session e => do
    let s ← v.webrtc
    if e.isCall then none
    else (s.step e).map (fun r => r.2.foldl output { v with webrtc := some r.1 })
  | .late i ok => do
    let c ← v.late[i]?
    let v := { v with late := v.late.eraseIdx i }
    some (if ok then v.fulfilled c else v)
  | .ended t =>
    if t ∈ v.devices.live then
      let v := { v with devices := v.devices.stop [t] }
      some (if t ∈ v.onended then v.stopScreenShare else v)
    else none

inductive Effect (v : RoomView) : RoomViewEvent → RoomView → Prop where
  | asViewer (h : v.view = .lobby) : Effect v (.preview true) { v with
      view := .preview
      devices := v.devices.stopLocalPreview
      isMuted := true
      isVideoEnabled := false }
  | preview (h : v.view = .lobby) :
      Effect v (.preview false) { v with view := .preview, devices := v.devices.getLocalStream }
  | back (h : v.view = .preview) :
      Effect v .back { v with view := .lobby, devices := v.devices.stopLocalPreview }
  | joinWithout (h : v.view = .preview) :
      Effect v (.join true) { v with devices := v.devices.stopLocalPreview }.onJoinRoom
  | join (h : v.view = .preview) : Effect v (.join false) v.onJoinRoom
  | joined (participants : List JsString) (hroom : v.view = .room) (hnone : v.webrtc = none) :
      Effect v (.joined participants)
        { v with webrtc := some (Session.start v.devices.localStream participants) }
  | leave : Effect v .leave v.leaveRoom
  | toggleMute (h : v.view ≠ .lobby) : Effect v .toggleMute (v.toggle .audio)
  | toggleVideo (h : v.view ≠ .lobby) : Effect v .toggleVideo (v.toggle .video)
  | toggleScreenShare (h : v.view = .room) : Effect v .toggleScreenShare v.toggleScreenShare
  | selectCamera (h : v.view = .preview) :
      Effect v .selectCamera { v with devices := v.devices.setCamera }
  | selectMicrophone (h : v.view = .preview) :
      Effect v .selectMicrophone { v with devices := v.devices.setMicrophone }
  | half (n : Nat) (kind : Kind) (granted : Bool) (d : Devices)
      (hd : v.devices.half n kind granted = some d) : Effect v (.half n kind granted)
        (if v.view = .preview ∧ d.captures.get n = none then { v with devices := d }.previewed
          else { v with devices := d })
  | answer (n : Nat) (granted : Bool) (c : Capture) (d : Devices) (r : Option Track)
      (hc : v.devices.captures.get n = some c) (hr : v.devices.answer n granted = some (d,r)) :
      Effect v (.answer n granted) ({ v with devices := d }.captured c r)
  | session (e : SessionEvent) (s u : Session) (out : List Output) (hs : v.webrtc = some s)
      (he : e.isCall = false) (hstep : s.step e = some (u,out)) :
      Effect v (.session e) (out.foldl output { v with webrtc := some u })
  | late (i : Nat) (ok : Bool) (c : Control) (hc : v.late[i]? = some c) : Effect v (.late i ok)
      (if ok then { v with late := v.late.eraseIdx i }.fulfilled c
        else { v with late := v.late.eraseIdx i })
  | ended (t : Track) (h : t ∈ v.devices.live) : Effect v (.ended t)
      (if t ∈ v.onended then { v with devices := v.devices.stop [t] }.stopScreenShare
        else { v with devices := v.devices.stop [t] })

theorem effect {v w : RoomView} {e : RoomViewEvent} (h : v.step e = some w) : v.Effect e w := by
  cases e with
  | preview viewer =>
    simp only [step] at h
    split at h
    · rename_i hview
      cases viewer <;> cases h
      · exact .preview hview
      · exact .asViewer hview
    · cases h
  | back =>
    simp only [step] at h
    split at h <;> cases h
    exact .back (by assumption)
  | join withoutDevices =>
    simp only [step] at h
    split at h
    · rename_i hview
      cases withoutDevices <;> cases h
      · exact .join hview
      · exact .joinWithout hview
    · cases h
  | joined participants =>
    simp only [step] at h
    split at h
    · rename_i hroom
      cases h
      exact .joined participants hroom.1 hroom.2
    · cases h
  | leave => cases h; exact .leave
  | toggleMute =>
    simp only [step] at h
    split at h <;> cases h
    exact .toggleMute (by assumption)
  | toggleVideo =>
    simp only [step] at h
    split at h <;> cases h
    exact .toggleVideo (by assumption)
  | toggleScreenShare =>
    simp only [step] at h
    split at h <;> cases h
    exact .toggleScreenShare (by assumption)
  | selectCamera =>
    simp only [step] at h
    split at h <;> cases h
    exact .selectCamera (by assumption)
  | selectMicrophone =>
    simp only [step] at h
    split at h <;> cases h
    exact .selectMicrophone (by assumption)
  | half n kind granted =>
    obtain ⟨d,hd,rfl⟩ := Option.map_eq_some_iff.mp h
    exact .half n kind granted d hd
  | answer n granted =>
    simp only [step,Option.bind_eq_bind,Option.bind_eq_some_iff,Option.some.injEq] at h
    obtain ⟨c,hc,⟨d,r⟩,hr,rfl⟩ := h
    exact .answer n granted c d r hc hr
  | session e =>
    simp only [step,Option.bind_eq_bind,Option.bind_eq_some_iff] at h
    obtain ⟨s,hs,h⟩ := h
    split at h
    · cases h
    · rename_i he
      obtain ⟨⟨u,out⟩,hu,rfl⟩ := Option.map_eq_some_iff.mp h
      exact .session e s u out hs (by simpa using he) hu
  | late i ok =>
    simp only [step,Option.bind_eq_bind,Option.bind_eq_some_iff,Option.some.injEq] at h
    obtain ⟨c,hc,rfl⟩ := h
    exact .late i ok c hc
  | ended t =>
    simp only [step] at h
    split at h <;> cases h
    exact .ended t (by assumption)

end RoomView

end MaiaMeet
