import MaiaMeet.Media
import MaiaMeet.OrderedMap
import MaiaMeet.Runs
set_option autoImplicit false

/-! DeviceManager of devices.js. A capture operation is pending from its call until the
browser has answered its requests; its continuation runs with the last answer. -/

namespace MaiaMeet

/-- One of the two getUserMedia requests of getLocalStream. -/
inductive Half where
  | pending | denied
  | granted (track : Track)
  deriving DecidableEq, Repr

def Half.tracks : Half → List Track
  | .granted t => [t]
  | _ => []

def Half.fill (kind : Kind) (h audio video : Half) : Option (Half × Half) :=
  match kind, audio, video with
  | .audio, .pending, video => some (h,video)
  | .video, audio, .pending => some (audio,h)
  | _, _, _ => none

/-- A capture operation in flight, with the version it was called at if it keeps one. -/
inductive Capture where
  | getLocalStream (version : Nat) (audio video : Half)
  | acquireTrack (version : Nat) (kind : Kind)
  | setDevice (kind : Kind)
  | startScreenShare
  deriving DecidableEq, Repr

/-- `live` and `disabled` are the readyState and the enabled flag of the browser's tracks. -/
structure Devices where
  localStream : Stream
  captureVersion : Nat
  screenStream : Option Stream
  captures : OrderedMap Nat Capture
  live : List Track
  disabled : List Track
  nextCapture : Nat
  nextTrack : Nat
  deriving DecidableEq, Repr

namespace Devices

def init : Devices := ⟨[],0,none,OrderedMap.empty,[],[],0,0⟩

def capture (d : Devices) (c : Capture) : Devices :=
  { d with captures := d.captures.set d.nextCapture c, nextCapture := d.nextCapture + 1 }

def getLocalStream (d : Devices) : Devices :=
  { d with captureVersion := d.captureVersion + 1 }.capture
    (.getLocalStream (d.captureVersion + 1) .pending .pending)

def cancelPendingCapture (d : Devices) : Devices :=
  { d with captureVersion := d.captureVersion + 1 }

def acquireTrack (d : Devices) (kind : Kind) : Devices :=
  d.capture (.acquireTrack d.captureVersion kind)

def setCamera (d : Devices) : Devices := d.capture (.setDevice .video)
def setMicrophone (d : Devices) : Devices := d.capture (.setDevice .audio)
def startScreenShare (d : Devices) : Devices := d.capture .startScreenShare

/-- `track.stop()` for each of the tracks. -/
def stop (d : Devices) (tracks : List Track) : Devices :=
  { d with live := d.live.filter (· ∉ tracks) }

def stopLocalPreview (d : Devices) : Devices :=
  { d.cancelPendingCapture.stop d.localStream with localStream := [] }

def stopScreenShare (d : Devices) : Devices :=
  match d.screenStream with
  | none => d
  | some stream => { d.stop stream with screenStream := none }

/-- `track.enabled = enabled` for the tracks of one kind in localStream. -/
def setEnabled (d : Devices) (kind : Kind) (enabled : Bool) : Devices :=
  let tracks := d.localStream.filter (fun t => t.kind = kind)
  let others := d.disabled.filter (· ∉ tracks)
  { d with disabled := if enabled then others else others ++ tracks }

def setAudioMuted (d : Devices) (muted : Bool) : Devices := d.setEnabled .audio (!muted)
def setVideoEnabled (d : Devices) (enabled : Bool) : Devices := d.setEnabled .video enabled

def newTrack (d : Devices) (kind : Kind) : Track := ⟨d.nextTrack,kind⟩

def grant (d : Devices) (kind : Kind) : Devices :=
  { d with live := d.live ++ [d.newTrack kind], nextTrack := d.nextTrack + 1 }

/-- The loop over the settled results of getLocalStream. -/
def gather (d : Devices) (version : Nat) (tracks : List Track) : Devices :=
  if version ≠ d.captureVersion then d.stop tracks
  else { d with localStream := tracks.foldl Stream.addTrack d.localStream }

/-- `localStream` with the track of a kind exchanged, as setCamera and setMicrophone do it. -/
def exchange (d : Devices) (t : Track) : Devices :=
  match d.localStream.ofKind t.kind with
  | none => { d with localStream := d.localStream.addTrack t }
  | some old =>
    { d.stop [old] with localStream := (d.localStream.removeTrack old).addTrack t }

def half (d : Devices) (n : Nat) (kind : Kind) (granted : Bool) : Option Devices :=
  match d.captures.get n with
  | some (.getLocalStream version audio video) =>
    let h : Half := if granted then .granted (d.newTrack kind) else .denied
    let d := if granted then d.grant kind else d
    (Half.fill kind h audio video).map (fun r =>
      if r.1 = .pending ∨ r.2 = .pending then
        { d with captures := d.captures.set n (.getLocalStream version r.1 r.2) }
      else { d with captures := d.captures.delete n }.gather version (r.1.tracks ++ r.2.tracks))
  | _ => none

def answer (d : Devices) (n : Nat) (granted : Bool) : Option (Devices × Option Track) :=
  let left := { d with captures := d.captures.delete n }
  match d.captures.get n with
  | none | some (.getLocalStream _ _ _) => none
  | some (.acquireTrack version kind) =>
    let t := d.newTrack kind
    if !granted then some (left,none)
    else if version ≠ d.captureVersion then some ((left.grant kind).stop [t],none)
    else some ({ left.grant kind with localStream := d.localStream.addTrack t },some t)
  | some (.setDevice kind) =>
    let t := d.newTrack kind
    if !granted then some (left,none) else some ((left.grant kind).exchange t,some t)
  | some .startScreenShare =>
    let t := d.newTrack .video
    if !granted then some (left,none)
    else some ({ left.grant .video with screenStream := some [t] },some t)

end Devices

inductive DeviceEvent where
  | getLocalStream
  | acquireTrack (kind : Kind)
  | setCamera | setMicrophone | startScreenShare
  | half (n : Nat) (kind : Kind) (granted : Bool)
  | answer (n : Nat) (granted : Bool)
  | cancelPendingCapture | stopLocalPreview | stopScreenShare
  | setAudioMuted (muted : Bool)
  | setVideoEnabled (enabled : Bool)
  /-- A track ends by itself: the device is unplugged or the permission withdrawn. -/
  | ended (track : Track)
  deriving DecidableEq, Repr

def Devices.step (d : Devices) : DeviceEvent → Option Devices
  | .getLocalStream => some d.getLocalStream
  | .acquireTrack kind => some (d.acquireTrack kind)
  | .setCamera => some d.setCamera
  | .setMicrophone => some d.setMicrophone
  | .startScreenShare => some d.startScreenShare
  | .half n kind granted => d.half n kind granted
  | .answer n granted => (d.answer n granted).map Prod.fst
  | .cancelPendingCapture => some d.cancelPendingCapture
  | .stopLocalPreview => some d.stopLocalPreview
  | .stopScreenShare => some d.stopScreenShare
  | .setAudioMuted muted => some (d.setAudioMuted muted)
  | .setVideoEnabled enabled => some (d.setVideoEnabled enabled)
  | .ended t => if t ∈ d.live then some (d.stop [t]) else none

end MaiaMeet
