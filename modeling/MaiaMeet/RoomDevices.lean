import MaiaMeet.Honesty
import MaiaMeet.Places
set_option autoImplicit false

/-! The page changes its devices by steps of the manager alone, so what those keep, the page keeps. -/

namespace MaiaMeet

def DeviceEvent.mild : DeviceEvent → Bool
  | .getLocalStream | .stopLocalPreview | .half _ _ _ | .answer _ _ | .ended _ => false
  | _ => true

def RoomViewEvent.causes : RoomViewEvent → DeviceEvent → Bool
  | .preview _, .getLocalStream | .preview _, .stopLocalPreview => true
  | .back, .stopLocalPreview | .join _, .stopLocalPreview | .leave, .stopLocalPreview => true
  | .half n kind granted, e => e = .half n kind granted
  | .answer n granted, e => e = .answer n granted
  | .ended t, e => e = .ended t
  | _, _ => false

def RoomViewEvent.turns : RoomViewEvent → Bool
  | .preview _ | .back | .join _ | .leave => true
  | _ => false

namespace RoomView

def Does (v : RoomView) (e : RoomViewEvent) (d : Devices) (ev : DeviceEvent) : Prop :=
  ev.mild = true ∨ (d = v.devices ∧ e.causes ev = true)

abbrev Mildly : Devices → Devices → Prop :=
  Runs.Leads Devices.step (fun _ ev => ev.mild = true)

variable {v w : RoomView} {e : RoomViewEvent} {d : Devices}

theorem mildly_switch (v : RoomView) (kind : Kind) (on : Bool) :
    Mildly v.devices (v.switch kind on).devices := by
  cases kind with
  | audio => exact .single (e := .setAudioMuted (!on)) rfl rfl
  | video => exact .single (e := .setVideoEnabled on) rfl rfl

theorem mildly_toggle (v : RoomView) (kind : Kind) : Mildly v.devices (v.toggle kind).devices := by
  unfold toggle
  split
  · exact .single (e := .acquireTrack kind) rfl rfl
  · exact mildly_switch v kind _

@[simp] theorem stopScreenShare_devices (v : RoomView) : v.stopScreenShare.devices = v.devices := by
  unfold stopScreenShare
  split
  · rfl
  · dsimp only
    split <;> rfl

theorem mildly_toggleScreenShare (v : RoomView) :
    Mildly v.devices v.toggleScreenShare.devices := by
  unfold toggleScreenShare
  split
  · rw [stopScreenShare_devices]
    exact .refl _
  · exact .single (e := .startScreenShare) rfl rfl

theorem mildly_fulfilled (v : RoomView) (c : Control) :
    Mildly v.devices (v.fulfilled c).devices := by
  cases c with
  | toggle t => exact mildly_switch v t.kind true
  | startShare screenTrack => exact .refl _
  | stopShare => exact .single (e := .stopScreenShare) rfl rfl

theorem mildly_settled (v : RoomView) (n : Nat) (ok : Bool) :
    Mildly v.devices (v.settled n ok).devices := by
  unfold settled
  split
  · exact .refl _
  · rename_i a _
    cases ok with
    | false => exact .refl _
    | true => exact mildly_fulfilled { v with awaiting := v.awaiting.erase a } a.2

theorem mildly_output (v : RoomView) (o : Output) : Mildly v.devices (v.output o).devices := by
  cases o with
  | replaced n => exact mildly_settled v n true
  | replaceFailed n => exact mildly_settled v n false
  | send | remoteTrack | error => exact .refl _

theorem mildly_outputs (v : RoomView) (out : List Output) :
    Mildly v.devices (out.foldl output v).devices := by
  induction out generalizing v with
  | nil => exact .refl _
  | cons o out ih => exact (mildly_output v o).trans (ih _)

theorem sharing_devices (v : RoomView) (t : Track) : (v.sharing t).devices = v.devices := by
  unfold RoomView.sharing
  dsimp only
  split <;> rfl

theorem mildly_acquired (v : RoomView) (t : Track) :
    Mildly v.devices (v.acquired t).devices := by
  unfold RoomView.acquired
  split
  · exact mildly_switch v t.kind true
  · split
    · exact mildly_switch v t.kind true
    · exact .refl _

theorem mildly_setEnabled (d : Devices) (kind : Kind) (on : Bool) :
    Mildly d (d.setEnabled kind on) := by
  have h := mildly_switch { init with devices := d } kind on
  cases kind with
  | audio => simpa [switch,Devices.setAudioMuted] using h
  | video => simpa [switch,Devices.setVideoEnabled] using h

theorem mildly_captured (v : RoomView) (c : Capture) (r : Option Track) :
    Mildly v.devices (v.captured c r).devices := by
  cases r with
  | none => cases c <;> exact .refl _
  | some t =>
    cases c with
    | getLocalStream => exact .refl _
    | acquireTrack => exact mildly_acquired v t
    | setDevice kind => exact mildly_setEnabled v.devices kind (v.shows kind)
    | startScreenShare =>
      have h : (v.captured .startScreenShare (some t)).devices = v.devices := sharing_devices v t
      rw [h]
      exact .refl _

theorem Mildly.does (h : Mildly v.devices d) : Runs.Leads Devices.step (v.Does e) v.devices d :=
  h.mono (fun _ _ hm => .inl hm)

theorem does_then (ev : DeviceEvent) {u : Devices} (hc : e.causes ev = true)
    (hu : v.devices.step ev = some u) (h : Mildly u d) :
    Runs.Leads Devices.step (v.Does e) v.devices d :=
  (Runs.Leads.single (P := v.Does e) (.inr ⟨rfl,hc⟩) hu).trans (h.mono (fun _ _ hm => .inl hm))

/-- Each event of the page makes the manager take at most one step that is not mild. -/
theorem step_devices (hstep : v.step e = some w) :
    Runs.Leads Devices.step (v.Does e) v.devices w.devices := by
  cases effect hstep with
  | asViewer => exact does_then .stopLocalPreview rfl rfl (.refl _)
  | preview => exact does_then .getLocalStream rfl rfl (.refl _)
  | back => exact does_then .stopLocalPreview rfl rfl (.refl _)
  | joinWithout =>
    exact does_then .stopLocalPreview rfl rfl (.single (e := .cancelPendingCapture) rfl rfl)
  | join => exact Mildly.does (.single (e := .cancelPendingCapture) rfl rfl)
  | joined => exact .refl _
  | leave => exact does_then .stopLocalPreview rfl rfl (.single (e := .stopScreenShare) rfl rfl)
  | toggleMute => exact (mildly_toggle v .audio).does
  | toggleVideo => exact (mildly_toggle v .video).does
  | toggleScreenShare => exact (mildly_toggleScreenShare v).does
  | selectCamera => exact Mildly.does (.single (e := .setCamera) rfl rfl)
  | selectMicrophone => exact Mildly.does (.single (e := .setMicrophone) rfl rfl)
  | half n kind granted d hd =>
    refine does_then (.half n kind granted) (by simp [RoomViewEvent.causes]) hd ?_
    split
    · exact (mildly_switch { v with devices := d } _ _).trans (mildly_switch _ _ _)
    · exact .refl _
  | answer n granted c d r hc hr =>
    refine does_then (.answer n granted) (by simp [RoomViewEvent.causes]) ?_
      (mildly_captured { v with devices := d } c r)
    rw [Devices.step,hr]
    rfl
  | session e s u out => exact (mildly_outputs { v with webrtc := some u } out).does (v := v)
  | late i ok c =>
    split
    · exact (mildly_fulfilled { v with late := v.late.eraseIdx i } c).does (v := v)
    · exact .refl _
  | ended t hlive =>
    refine does_then (.ended t) (by simp [RoomViewEvent.causes]) (if_pos hlive) ?_
    split
    · rw [stopScreenShare_devices]
      exact .refl _
    · exact .refl _

theorem devices_invariant {I : Devices → Prop}
    (hstep : ∀ d ev d', I d → d.step ev = some d' → I d') (h : I v.devices)
    (hv : v.step e = some w) : I w.devices :=
  (step_devices hv).invariant (fun d ev d' hd _ he => hstep d ev d' hd he) h

theorem placed {screens : List Track} (h : Placed screens v.devices) (hv : v.step e = some w) :
    Placed screens w.devices :=
  devices_invariant (fun _ _ _ hd he => placed_step hd he) h hv

structure Still (v w : RoomView) : Prop where
  view : w.view = v.view
  screens : w.screens = v.screens

theorem Still.refl (v : RoomView) : Still v v := ⟨rfl,rfl⟩

theorem Still.trans {u : RoomView} (h : Still v w) (hu : Still w u) : Still v u :=
  ⟨hu.view.trans h.view,hu.screens.trans h.screens⟩

theorem still_switch (v : RoomView) (kind : Kind) (on : Bool) : Still v (v.switch kind on) :=
  ⟨switch_view,switch_screens⟩

theorem still_fulfilled (v : RoomView) (c : Control) : Still v (v.fulfilled c) := by
  cases c with
  | toggle t => exact still_switch v t.kind true
  | startShare | stopShare => exact ⟨rfl,rfl⟩

theorem still_output (v : RoomView) (o : Output) : Still v (v.output o) := by
  have hsettled : ∀ n ok, Still v (v.settled n ok) := by
    intro n ok
    unfold settled
    split
    · exact .refl v
    · rename_i a _
      cases ok with
      | false => exact ⟨rfl,rfl⟩
      | true =>
        have herase : Still v { v with awaiting := v.awaiting.erase a } := ⟨rfl,rfl⟩
        exact herase.trans (still_fulfilled _ a.2)
  cases o with
  | replaced n => exact hsettled n true
  | replaceFailed n => exact hsettled n false
  | send | remoteTrack | error => exact .refl v

theorem still_outputs (v : RoomView) (out : List Output) : Still v (out.foldl output v) := by
  induction out generalizing v with
  | nil => exact .refl v
  | cons o out ih => exact (still_output v o).trans (ih _)

theorem still_stopScreenShare (v : RoomView) : Still v v.stopScreenShare := by
  unfold stopScreenShare
  split
  · exact .refl v
  · dsimp only
    split <;> exact ⟨rfl,rfl⟩

theorem still_toggle (v : RoomView) (kind : Kind) : Still v (v.toggle kind) := by
  unfold toggle
  split
  · exact ⟨rfl,rfl⟩
  · exact still_switch v kind _

theorem still_acquired (v : RoomView) (t : Track) : Still v (v.acquired t) := by
  unfold RoomView.acquired
  split
  · exact still_switch v t.kind true
  · split
    · exact still_switch v t.kind true
    · exact ⟨rfl,rfl⟩

theorem sharing_screens (v : RoomView) (t : Track) :
    (v.sharing t).view = v.view ∧ (v.sharing t).screens = t :: v.screens := by
  unfold RoomView.sharing
  dsimp only
  split <;> exact ⟨rfl,rfl⟩

theorem still_captured (v : RoomView) (c : Capture) (r : Option Track) :
    Still v (v.captured c r) ∨ ∃ t, c = .startScreenShare ∧ r = some t ∧
      (v.captured c r).view = v.view ∧ (v.captured c r).screens = t :: v.screens := by
  cases r with
  | none => cases c <;> exact .inl ⟨rfl,rfl⟩
  | some t =>
    cases c with
    | getLocalStream | setDevice => exact .inl ⟨rfl,rfl⟩
    | acquireTrack => exact .inl (still_acquired v t)
    | startScreenShare => exact .inr ⟨t,rfl,rfl,sharing_screens v t⟩

theorem still_step (hstep : v.step e = some w) (he : e.turns = false)
    (ha : ∀ n granted, e ≠ .answer n granted) : Still v w := by
  cases effect hstep with
  | asViewer | preview | back | joinWithout | join | leave => cases he
  | answer n granted => exact absurd rfl (ha n granted)
  | joined | selectCamera | selectMicrophone => exact ⟨rfl,rfl⟩
  | toggleMute => exact still_toggle v .audio
  | toggleVideo => exact still_toggle v .video
  | toggleScreenShare =>
    unfold RoomView.toggleScreenShare
    split
    · exact still_stopScreenShare v
    · exact ⟨rfl,rfl⟩
  | half n kind granted d =>
    have hdevices : Still v { v with devices := d } := ⟨rfl,rfl⟩
    split
    · exact hdevices.trans ((still_switch _ _ _).trans (still_switch _ _ _))
    · exact hdevices
  | session e s u out =>
    have hsession : Still v { v with webrtc := some u } := ⟨rfl,rfl⟩
    exact hsession.trans (still_outputs _ out)
  | late i ok c =>
    have hlate : Still v { v with late := v.late.eraseIdx i } := ⟨rfl,rfl⟩
    split
    · exact hlate.trans (still_fulfilled _ c)
    · exact hlate
  | ended t =>
    have hstop : Still v { v with devices := v.devices.stop [t] } := ⟨rfl,rfl⟩
    split
    · exact hstop.trans (still_stopScreenShare _)
    · exact hstop

theorem step_view (hstep : v.step e = some w) (he : e.turns = false) : w.view = v.view := by
  cases e with
  | answer n granted =>
    cases effect hstep with
    | answer _ _ c d r =>
      rcases still_captured { v with devices := d } c r with h | ⟨_,_,_,h,_⟩
      · exact h.view
      · exact h
  | _ => exact (still_step hstep he (by simp)).view

theorem step_screens (hstep : v.step e = some w) : w.screens = v.screens ∨
    ∃ t, w.screens = t :: v.screens ∧ w.devices.screenStream = some [t] := by
  cases effect hstep with
  | asViewer | preview | back | joinWithout | join | leave => exact .inl rfl
  | answer n granted c d r hc hr =>
    rcases still_captured { v with devices := d } c r with h | ⟨t,rfl,rfl,_,h⟩
    · exact .inl h.screens
    · refine .inr ⟨t,h,?_⟩
      have hdevices : (RoomView.captured { v with devices := d } .startScreenShare
        (some t)).devices = d := sharing_devices { v with devices := d } t
      simp only [Devices.answer,hc] at hr
      rw [hdevices]
      split at hr <;> cases hr
      rfl
  | _ => exact .inl (still_step hstep rfl (by simp)).screens

theorem room_stays (hroom : v.view = .room) (hstep : v.step e = some w) (he : e ≠ .leave) :
    w.view = .room := by
  cases hturn : e.turns with
  | false => rw [step_view hstep hturn,hroom]
  | true =>
    cases e with
    | leave => exact absurd rfl he
    | preview | back | join => simp [RoomView.step,hroom] at hstep
    | _ => cases hturn

theorem room_entered (hroom : w.view = .room) (hstep : v.step e = some w) :
    v.view = .room ∨ ∃ u : RoomView, w = u.onJoinRoom ∧ (u = v ∨
      u = { v with devices := v.devices.stopLocalPreview }) := by
  cases effect hstep with
  | asViewer | preview | back | leave => cases hroom
  | joinWithout => exact .inr ⟨_,rfl,.inr rfl⟩
  | join => exact .inr ⟨_,rfl,.inl rfl⟩
  | _ => exact .inl (by rw [← step_view hstep rfl,hroom])

/-- The tracks getDisplayMedia has given are nowhere but in screenStream. -/
theorem placed_screens (h : Placed v.screens v.devices) (hstep : v.step e = some w) :
    Placed w.screens w.devices := by
  have hplaced := placed h hstep
  rcases step_screens hstep with hs | ⟨t,hs,hstream⟩
  · rw [hs]
    exact hplaced
  · rw [hs]
    refine hplaced.give ?_
    rw [Devices.At,hstream]
    exact List.mem_singleton_self t

end RoomView

end MaiaMeet
