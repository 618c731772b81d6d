import MaiaMeet.Devices
set_option autoImplicit false

/-! Who can still stop a live track: which tracks remain live once the user has left. -/

namespace MaiaMeet

def Capture.tracks : Capture → List Track
  | .getLocalStream _ audio video => audio.tracks ++ video.tracks
  | _ => []

def Capture.version : Capture → Option Nat
  | .getLocalStream version _ _ | .acquireTrack version _ => some version
  | _ => none

def Devices.brings (d : Devices) (kind : Kind) (granted : Bool) : List Track :=
  if granted then [d.newTrack kind] else []

def Devices.Holds (d : Devices) (t : Track) : Prop :=
  ∃ n c, d.captures.get n = some c ∧ t ∈ c.tracks

def Devices.Timely (d : Devices) : Prop :=
  ∀ n c w, d.captures.get n = some c → c.version = some w → w ≤ d.captureVersion

structure Accounted (d : Devices) : Prop where
  reach : ∀ t ∈ d.live, t ∈ d.localStream ∨ t ∈ d.screenStream.getD [] ∨ d.Holds t
  version : ∀ n c v, d.captures.get n = some c → c.version = some v → v ≤ d.captureVersion
  fresh : ∀ n c, d.captures.get n = some c → n < d.nextCapture

structure Left (d : Devices) : Prop where
  held : ∀ t ∈ d.live, d.Holds t
  stale : ∀ n c v, d.captures.get n = some c → c.version = some v → v < d.captureVersion

def DeviceEvent.starts : DeviceEvent → Bool
  | .getLocalStream | .acquireTrack _ | .setCamera | .setMicrophone | .startScreenShare => true
  | _ => false

def Devices.OneScreen (d : Devices) : DeviceEvent → Prop
  | .answer n granted => granted = true → d.captures.get n = some .startScreenShare →
      ∀ t ∈ d.screenStream.getD [], t ∉ d.live
  | _ => True

def Devices.Versioned (d : Devices) : DeviceEvent → Prop
  | .answer n granted => granted = true → ∀ c ∈ d.captures.get n, c.version.isSome
  | _ => True

instance (d : Devices) (e : DeviceEvent) : Decidable (d.OneScreen e) := by
  cases e <;> unfold Devices.OneScreen <;> infer_instance

instance (d : Devices) (e : DeviceEvent) : Decidable (d.Versioned e) := by
  cases e <;> unfold Devices.Versioned <;> infer_instance

section
variable {d e : Devices} {t : Track} {kind : Kind}

theorem mem_stop (tracks : List Track) : t ∈ (d.stop tracks).live ↔ t ∈ d.live ∧ t ∉ tracks := by
  simp [Devices.stop]

theorem mem_grant : t ∈ (d.grant kind).live ↔ t ∈ d.live ∨ t = d.newTrack kind := by
  simp [Devices.grant]

theorem mem_fill {h audio video : Half} {r : Half × Half}
    (hr : Half.fill kind h audio video = some r) :
    t ∈ r.1.tracks ++ r.2.tracks ↔ t ∈ h.tracks ∨ t ∈ audio.tracks ++ video.tracks := by
  unfold Half.fill at hr
  split at hr <;> cases hr <;> simp [Half.tracks,or_comm]

def Devices.answered (d : Devices) (kind : Kind) (granted : Bool) : Devices :=
  if granted then d.grant kind else d

theorem half_cases {n : Nat} {granted : Bool} (h : d.half n kind granted = some e) :
    ∃ version audio video audio' video',
      d.captures.get n = some (.getLocalStream version audio video) ∧
      (∀ t, t ∈ audio'.tracks ++ video'.tracks ↔
        t ∈ d.brings kind granted ∨ t ∈ audio.tracks ++ video.tracks) ∧
      (e = { d.answered kind granted with
          captures := d.captures.set n (.getLocalStream version audio' video') } ∨
        e = { d.answered kind granted with captures := d.captures.delete n }.gather version
          (audio'.tracks ++ video'.tracks)) := by
  unfold Devices.half at h
  split at h
  · rename_i version audio video hn
    obtain ⟨r,hr,rfl⟩ := Option.map_eq_some_iff.mp h
    refine ⟨version,audio,video,r.1,r.2,hn,?_,?_⟩
    · intro t
      rw [mem_fill hr]
      cases granted <;> simp [Devices.brings,Half.tracks]
    · have hc : (if granted then d.grant kind else d).captures = d.captures := by
        cases granted <;> rfl
      split
      · exact .inl (by simp [Devices.answered,hc])
      · exact .inr (by simp [Devices.answered,hc])
  · cases h

theorem mem_answered {granted : Bool} :
    t ∈ (d.answered kind granted).live ↔ t ∈ d.live ∨ t ∈ d.brings kind granted := by
  cases granted <;> simp [Devices.answered,Devices.brings,mem_grant]

theorem answered_eq (granted : Bool) : d.answered kind granted = { d with
    live := (d.answered kind granted).live, nextTrack := (d.answered kind granted).nextTrack } := by
  cases granted <;> rfl

theorem mem_foldl_addTrack {tracks : List Track} {s : Stream} :
    t ∈ tracks.foldl Stream.addTrack s ↔ t ∈ s ∨ t ∈ tracks := by
  induction tracks generalizing s with
  | nil => simp
  | cons u tracks ih =>
    rw [List.foldl_cons,ih,List.mem_cons,Stream.mem_addTrack]
    tauto

/-- Where a track is after a request of getLocalStream has settled: still inside the call,
in localStream if the call is of the current version, or where it was. -/
theorem half_live {n : Nat} {granted : Bool} (h : d.half n kind granted = some e)
    (ht : t ∈ e.live) :
    e.Holds t ∨ (t ∈ d.live ∧ ¬ d.Holds t) ∨
      (t ∈ e.localStream ∧ ∃ c, d.captures.get n = some c ∧ c.version = some d.captureVersion) := by
  obtain ⟨version,audio,video,audio',video',hn,hm,rfl | rfl⟩ := half_cases h
  · by_cases hheld : d.Holds t ∨ t ∈ d.brings kind granted
    · refine .inl ?_
      rcases hheld with ⟨m,c,hc,htc⟩ | hb
      · by_cases hmn : m = n
        · subst hmn
          rw [hn,Option.some.injEq] at hc
          subst hc
          exact ⟨m,_,OrderedMap.get_set_self _ _ _,(hm t).mpr (.inr htc)⟩
        · exact ⟨m,c,by rw [OrderedMap.get_set_ne _ _ hmn]; exact hc,htc⟩
      · exact ⟨n,_,OrderedMap.get_set_self _ _ _,(hm t).mpr (.inl hb)⟩
    · obtain ⟨hheld,hb⟩ := not_or.mp hheld
      exact .inr (.inl ⟨(mem_answered.mp ht).resolve_right hb,hheld⟩)
  · -- what the settled call did not bring is where it was before
    have helse : ∀ u : Devices, u.captures = d.captures.delete n →
        t ∈ (d.answered kind granted).live → t ∉ audio'.tracks ++ video'.tracks →
        u.Holds t ∨ (t ∈ d.live ∧ ¬ d.Holds t) := by
      intro u hu hlive hnot
      rw [hm,not_or] at hnot
      by_cases hheld : d.Holds t
      · obtain ⟨m,c,hc,htc⟩ := hheld
        have hmn : m ≠ n := by
          rintro rfl
          rw [hn,Option.some.injEq] at hc
          subst hc
          exact hnot.2 htc
        exact .inl ⟨m,c,by rw [hu,OrderedMap.get_delete_ne _ hmn]; exact hc,htc⟩
      · exact .inr ⟨(mem_answered.mp hlive).resolve_right hnot.1,hheld⟩
    have hversion : (d.answered kind granted).captureVersion = d.captureVersion := by
      rw [answered_eq]
    unfold Devices.gather at ht ⊢
    split
    · rename_i hne
      rw [if_pos hne] at ht
      obtain ⟨hlive,hnot⟩ := (mem_stop _).mp ht
      exact (helse _ rfl hlive hnot).imp id .inl
    · rename_i heq
      rw [if_neg heq] at ht
      by_cases htracks : t ∈ audio'.tracks ++ video'.tracks
      · refine .inr (.inr ⟨mem_foldl_addTrack.mpr (.inr htracks),_,hn,?_⟩)
        rw [← hversion,← not_not.mp heq]
        rfl
      · exact (helse _ rfl ht htracks).imp id .inl

theorem half_frame {n : Nat} {granted : Bool} (h : d.half n kind granted = some e) :
    e.captureVersion = d.captureVersion ∧ e.nextCapture = d.nextCapture ∧
      e.screenStream = d.screenStream ∧ (∀ t ∈ d.localStream, t ∈ e.localStream) ∧
      ∀ m c, e.captures.get m = some c →
        ∃ c', d.captures.get m = some c' ∧ c.version = c'.version := by
  obtain ⟨version,audio,video,audio',video',hn,hm,rfl | rfl⟩ := half_cases h
  · rw [answered_eq]
    refine ⟨rfl,rfl,rfl,fun t ht => ht,fun m c hc => ?_⟩
    by_cases hmn : m = n
    · subst hmn
      rw [OrderedMap.get_set_self,Option.some.injEq] at hc
      subst hc
      exact ⟨_,hn,rfl⟩
    · rw [OrderedMap.get_set_ne _ _ hmn] at hc
      exact ⟨c,hc,rfl⟩
  · rw [answered_eq]
    have hcaptures : ∀ m c, (d.captures.delete n).get m = some c →
        ∃ c', d.captures.get m = some c' ∧ c.version = c'.version := by
      intro m c hc
      rw [OrderedMap.get_delete] at hc
      split at hc
      · cases hc
      · exact ⟨c,hc,rfl⟩
    unfold Devices.gather
    split
    · exact ⟨rfl,rfl,rfl,fun t ht => ht,hcaptures⟩
    · exact ⟨rfl,rfl,rfl,fun t ht => mem_foldl_addTrack.mpr (.inl ht),hcaptures⟩

theorem mem_exchange {u : Track} (h : t ∈ (d.exchange u).live) :
    t ∈ d.live ∧ (t ∈ d.localStream → t ∈ (d.exchange u).localStream) := by
  unfold Devices.exchange at h ⊢
  split at h
  · exact ⟨h,fun ht => Stream.mem_addTrack.mpr (.inl ht)⟩
  · obtain ⟨hl,hn⟩ := (mem_stop _).mp h
    rw [List.mem_singleton] at hn
    exact ⟨hl,fun ht => Stream.mem_addTrack.mpr (.inl (Stream.mem_removeTrack.mpr ⟨ht,hn⟩))⟩

theorem exchange_mem (d : Devices) (u : Track) : u ∈ (d.exchange u).localStream := by
  unfold Devices.exchange
  split <;> exact Stream.mem_addTrack.mpr (.inr rfl)

theorem exchange_frame (d : Devices) (u : Track) :
    (d.exchange u).captures = d.captures ∧ (d.exchange u).captureVersion = d.captureVersion ∧
      (d.exchange u).nextCapture = d.nextCapture ∧
      (d.exchange u).screenStream = d.screenStream := by
  unfold Devices.exchange
  split <;> exact ⟨rfl,rfl,rfl,rfl⟩

theorem answer_frame {n : Nat} {granted : Bool} {r : Option Track}
    (h : d.answer n granted = some (e,r)) :
    ∃ c, d.captures.get n = some c ∧ c.tracks = [] ∧ e.captures = d.captures.delete n ∧
      e.captureVersion = d.captureVersion ∧ e.nextCapture = d.nextCapture := by
  unfold Devices.answer at h
  split at h
  · cases h
  · cases h
  · rename_i hn
    refine ⟨_,hn,rfl,?_⟩
    split at h
    · cases h; exact ⟨rfl,rfl,rfl⟩
    · split at h <;> cases h <;> exact ⟨rfl,rfl,rfl⟩
  · rename_i kind hn
    refine ⟨_,hn,rfl,?_⟩
    split at h
    · cases h; exact ⟨rfl,rfl,rfl⟩
    · cases h
      obtain ⟨hc,hv,hx,_⟩ := exchange_frame
        (Devices.grant { d with captures := d.captures.delete n } kind) (d.newTrack kind)
      exact ⟨hc,hv,hx⟩
  · rename_i hn
    refine ⟨_,hn,rfl,?_⟩
    split at h <;> cases h <;> exact ⟨rfl,rfl,rfl⟩

/-- Where a track is after the request of another operation has settled: where it was, or
new in a stream, if the operation keeps no version or the current one. -/
theorem answer_live {n : Nat} {granted : Bool} {r : Option Track}
    (h : d.answer n granted = some (e,r)) (ht : t ∈ e.live) :
    (t ∈ d.live ∧ (t ∈ d.localStream → t ∈ e.localStream) ∧
        (t ∈ d.screenStream.getD [] → t ∈ e.screenStream.getD [] ∨
          (granted = true ∧ d.captures.get n = some .startScreenShare))) ∨
      (granted = true ∧ (t ∈ e.localStream ∨ t ∈ e.screenStream.getD []) ∧
        ∃ c ∈ d.captures.get n, ∀ v ∈ c.version, v = d.captureVersion) := by
  unfold Devices.answer at h
  split at h
  · cases h
  · cases h
  · rename_i version kind hn
    split at h
    · cases h; exact .inl ⟨ht,id,.inl⟩
    · rename_i hg
      have hg : granted = true := by simpa using hg
      split at h
      · cases h
        obtain ⟨hl,hnot⟩ := (mem_stop _).mp ht
        rw [List.mem_singleton] at hnot
        exact .inl ⟨(mem_grant.mp hl).resolve_right hnot,id,.inl⟩
      · rename_i hv
        cases h
        rcases mem_grant.mp ht with hl | rfl
        · exact .inl ⟨hl,fun hm => Stream.mem_addTrack.mpr (.inl hm),.inl⟩
        · refine .inr ⟨hg,.inl (Stream.mem_addTrack.mpr (.inr rfl)),_,hn,?_⟩
          rintro v hv'
          cases hv'
          exact not_not.mp hv
  · rename_i kind hn
    split at h
    · cases h; exact .inl ⟨ht,id,.inl⟩
    · rename_i hg
      have hg : granted = true := by simpa using hg
      cases h
      obtain ⟨hl,hmem⟩ := mem_exchange ht
      obtain ⟨_,_,_,hs⟩ := exchange_frame
        (Devices.grant { d with captures := d.captures.delete n } kind) (d.newTrack kind)
      rcases mem_grant.mp hl with hl | rfl
      · exact .inl ⟨hl,hmem,fun hm => .inl (by rw [hs]; exact hm)⟩
      · exact .inr ⟨hg,.inl (exchange_mem _ _),_,hn,by simp [Capture.version]⟩
  · rename_i hn
    split at h
    · cases h; exact .inl ⟨ht,id,.inl⟩
    · rename_i hg
      have hg : granted = true := by simpa using hg
      cases h
      rcases mem_grant.mp ht with hl | rfl
      · exact .inl ⟨hl,id,fun _ => .inr ⟨hg,hn⟩⟩
      · refine .inr ⟨hg,.inr ?_,_,hn,by simp [Capture.version]⟩
        exact List.mem_singleton.mpr rfl

theorem Devices.Holds.delete {n : Nat} {c : Capture} (h : d.Holds t)
    (hn : d.captures.get n = some c) (hc : c.tracks = [])
    (he : e.captures = d.captures.delete n) : e.Holds t := by
  obtain ⟨m,c',hm,ht⟩ := h
  have hmn : m ≠ n := by
    rintro rfl
    rw [hn,Option.some.injEq] at hm
    subst hm
    simp [hc] at ht
  exact ⟨m,c',by rw [he,OrderedMap.get_delete_ne _ hmn]; exact hm,ht⟩

theorem Devices.Timely.capture (h : d.Timely) {c : Capture}
    (hc : ∀ w, c.version = some w → w ≤ d.captureVersion) : (d.capture c).Timely := by
  intro n c' w hn hw
  rw [Devices.capture,OrderedMap.get_set] at hn
  split at hn
  · cases hn; exact hc w hw
  · exact h n c' w hn hw

theorem Devices.Timely.cancel (h : d.Timely) : d.cancelPendingCapture.Timely :=
  fun n c w hn hw => Nat.le_succ_of_le (h n c w hn hw)

theorem Devices.Timely.half (h : d.Timely) {n : Nat} {kind : Kind} {granted : Bool}
    (he : d.half n kind granted = some e) : e.Timely := by
  obtain ⟨hv,_,_,_,hc⟩ := half_frame he
  intro m c w hm hw
  obtain ⟨c',hc',hcw⟩ := hc m c hm
  rw [hv]
  exact h m c' w hc' (hcw ▸ hw)

theorem Devices.Timely.answer (h : d.Timely) {n : Nat} {granted : Bool} {r : Option Track}
    (he : d.answer n granted = some (e,r)) : e.Timely := by
  obtain ⟨_,_,_,hc,hv,_⟩ := answer_frame he
  intro m c w hm hw
  rw [hc,OrderedMap.get_delete] at hm
  rw [hv]
  split at hm
  · cases hm
  · exact h m c w hm hw

theorem accounted_init : Accounted Devices.init where
  reach := by simp [Devices.init]
  version := by simp [Devices.init]
  fresh := by simp [Devices.init]

theorem Accounted.capture (h : Accounted d) {c : Capture}
    (hv : ∀ v, c.version = some v → v ≤ d.captureVersion) : Accounted (d.capture c) where
  reach := by
    intro t ht
    rcases h.reach t ht with hl | hs | ⟨n,c',hn,hc'⟩
    · exact .inl hl
    · exact .inr (.inl hs)
    · have hne : n ≠ d.nextCapture := fun he => absurd (h.fresh n c' hn) (by omega)
      exact .inr (.inr ⟨n,c',by rw [Devices.capture,OrderedMap.get_set_ne _ _ hne]; exact hn,hc'⟩)
  version := Devices.Timely.capture h.version hv
  fresh := by
    intro n c' hn
    rw [Devices.capture,OrderedMap.get_set] at hn
    split at hn
    · rename_i he; rw [he]; exact Nat.lt_succ_self _
    · exact Nat.lt_succ_of_lt (h.fresh n c' hn)

theorem Accounted.cancel (h : Accounted d) : Accounted d.cancelPendingCapture where
  reach := h.reach
  version := Devices.Timely.cancel h.version
  fresh := h.fresh

theorem Accounted.stop (h : Accounted d) (tracks : List Track) : Accounted (d.stop tracks) where
  reach := fun t ht => h.reach t ((mem_stop tracks).mp ht).1
  version := h.version
  fresh := h.fresh

theorem accounted_step (h : Accounted d) {ev : DeviceEvent} (hs : d.OneScreen ev)
    (hstep : d.step ev = some e) : Accounted e := by
  cases ev with
  | getLocalStream =>
    cases hstep
    exact h.cancel.capture (by simp [Capture.version,Devices.cancelPendingCapture])
  | acquireTrack kind =>
    cases hstep
    exact h.capture (by simp [Capture.version])
  | setCamera | setMicrophone | startScreenShare =>
    cases hstep
    exact h.capture (by simp [Capture.version])
  | half n kind granted =>
    obtain ⟨_,hx,hs,hl,hc⟩ := half_frame hstep
    refine ⟨fun t ht => ?_,Devices.Timely.half h.version hstep,fun m c hm => ?_⟩
    · rcases half_live hstep ht with hh | ⟨hd,hn⟩ | ⟨he,_⟩
      · exact .inr (.inr hh)
      · rcases h.reach t hd with hr | hr | hr
        · exact .inl (hl t hr)
        · exact .inr (.inl (hs ▸ hr))
        · exact absurd hr hn
      · exact .inl he
    · obtain ⟨c',hc',_⟩ := hc m c hm
      rw [hx]
      exact h.fresh m c' hc'
  | answer n granted =>
    obtain ⟨⟨u,r⟩,hu,rfl⟩ := Option.map_eq_some_iff.mp hstep
    obtain ⟨c,hn,hct,hc,_,hx⟩ := answer_frame hu
    refine ⟨fun t ht => ?_,Devices.Timely.answer h.version hu,fun m c' hm => ?_⟩
    · rcases answer_live hu ht with ⟨hd,hl,hscreen⟩ | ⟨_,he,_⟩
      · rcases h.reach t hd with hr | hr | hr
        · exact .inl (hl hr)
        · rcases hscreen hr with hr' | ⟨hg,hg'⟩
          · exact .inr (.inl hr')
          · exact absurd hd (hs hg hg' t hr)
        · exact .inr (.inr (hr.delete hn hct hc))
      · exact he.imp id .inl
    · rw [hc,OrderedMap.get_delete] at hm
      rw [hx]
      split at hm
      · cases hm
      · exact h.fresh m c' hm
  | cancelPendingCapture => cases hstep; exact h.cancel
  | stopLocalPreview =>
    cases hstep
    refine ⟨fun t ht => ?_,h.cancel.version,h.cancel.fresh⟩
    obtain ⟨hd,hn⟩ := (mem_stop _).mp ht
    exact (h.reach t hd).elim (fun hl => absurd hl hn) .inr
  | stopScreenShare =>
    cases hstep
    unfold Devices.stopScreenShare
    split
    · exact h
    · rename_i stream hs
      refine ⟨fun t ht => ?_,h.version,h.fresh⟩
      obtain ⟨hd,hn⟩ := (mem_stop _).mp ht
      rcases h.reach t hd with hr | hr | hr
      · exact .inl hr
      · rw [hs] at hr; exact absurd hr hn
      · exact .inr (.inr hr)
  | setAudioMuted | setVideoEnabled => cases hstep; exact ⟨h.reach,h.version,h.fresh⟩
  | ended t =>
    simp only [Devices.step] at hstep
    split at hstep
    · cases hstep; exact h.stop [t]
    · cases hstep

/-- Leaving stops everything within reach and overtakes every capture in flight. -/
theorem Accounted.left (h : Accounted d) : Left d.stopLocalPreview.stopScreenShare := by
  have hp : ∀ t ∈ d.stopLocalPreview.live, t ∈ d.screenStream.getD [] ∨ d.Holds t := by
    intro t ht
    obtain ⟨hd,hn⟩ := (mem_stop _).mp ht
    exact (h.reach t hd).resolve_left hn
  have hs : d.stopLocalPreview.screenStream = d.screenStream := rfl
  have hstale : ∀ n c v, d.captures.get n = some c → c.version = some v →
      v < d.captureVersion + 1 := fun n c v hn hc => Nat.lt_succ_of_le (h.version n c v hn hc)
  unfold Devices.stopScreenShare
  split
  · rename_i hnone
    refine ⟨fun t ht => ?_,hstale⟩
    have hor := hp t ht
    rw [← hs,hnone] at hor
    exact hor.resolve_left (by simp)
  · rename_i stream hsome
    refine ⟨fun t ht => ?_,hstale⟩
    obtain ⟨hd,hn⟩ := (mem_stop _).mp ht
    have hor := hp t hd
    rw [← hs,hsome] at hor
    exact hor.resolve_left hn

theorem Left.stop (h : Left d) (tracks : List Track) : Left (d.stop tracks) where
  held := fun t ht => h.held t ((mem_stop tracks).mp ht).1
  stale := h.stale

theorem Left.cancel (h : Left d) : Left d.cancelPendingCapture where
  held := h.held
  stale := fun n c v hn hc => Nat.lt_succ_of_lt (h.stale n c v hn hc)

/-- After leaving, a settled capture of an older version keeps none of its tracks. -/
theorem left_step (h : Left d) {ev : DeviceEvent} (hstart : ev.starts = false)
    (hv : d.Versioned ev) (hstep : d.step ev = some e) : Left e := by
  cases ev with
  | getLocalStream | acquireTrack | setCamera | setMicrophone | startScreenShare => cases hstart
  | half n kind granted =>
    obtain ⟨hversion,_,_,_,hc⟩ := half_frame hstep
    refine ⟨fun t ht => ?_,fun m c v hm hcv => ?_⟩
    · rcases half_live hstep ht with hh | ⟨hd,hn⟩ | ⟨_,c,hn,hcv⟩
      · exact hh
      · exact absurd (h.held t hd) hn
      · exact absurd (h.stale n c _ hn hcv) (Nat.lt_irrefl _)
    · obtain ⟨c',hc',heq⟩ := hc m c hm
      rw [hversion]
      exact h.stale m c' v hc' (heq ▸ hcv)
  | answer n granted =>
    obtain ⟨⟨u,r⟩,hu,rfl⟩ := Option.map_eq_some_iff.mp hstep
    obtain ⟨c,hn,hct,hc,hversion,_⟩ := answer_frame hu
    refine ⟨fun t ht => ?_,fun m c' v hm hcv => ?_⟩
    · rcases answer_live hu ht with ⟨hd,_⟩ | ⟨hg,_,c',hc',hcurrent⟩
      · exact (h.held t hd).delete hn hct hc
      · -- a granted capture keeps a version, and none is current any more
        obtain ⟨v,hcv⟩ := Option.isSome_iff_exists.mp (hv hg c' hc')
        have hlt := h.stale n c' v hc' hcv
        rw [hcurrent v hcv] at hlt
        exact absurd hlt (Nat.lt_irrefl _)
    · rw [hc,OrderedMap.get_delete] at hm
      rw [hversion]
      split at hm
      · cases hm
      · exact h.stale m c' v hm hcv
  | cancelPendingCapture => cases hstep; exact h.cancel
  | stopLocalPreview =>
    cases hstep
    exact ⟨(h.cancel.stop d.localStream).held,(h.cancel.stop d.localStream).stale⟩
  | stopScreenShare =>
    cases hstep
    unfold Devices.stopScreenShare
    split
    · exact h
    · rename_i stream _
      exact ⟨(h.stop stream).held,(h.stop stream).stale⟩
  | setAudioMuted | setVideoEnabled => cases hstep; exact ⟨h.held,h.stale⟩
  | ended t =>
    simp only [Devices.step] at hstep
    split at hstep
    · cases hstep; exact h.stop [t]
    · cases hstep

end

/-- The calls of leaveRoom on the manager. -/
def leaving : List DeviceEvent := [.stopLocalPreview,.stopScreenShare]

/-- Once the captures that were in flight at leaving have settled, nothing obtained by any
of them is live, if no request of setCamera, setMicrophone or startScreenShare is granted
after leaving and no display stream was granted over a live one before. -/
theorem leaving_stops_capture {before after : List DeviceEvent} {d e : Devices}
    (hbefore : Runs.exec Devices.step Devices.init (before ++ leaving) = some d)
    (hafter : Runs.exec Devices.step d after = some e)
    (hstarts : ∀ ev ∈ after, ev.starts = false)
    (hscreen : Runs.Along Devices.step Devices.OneScreen Devices.init before)
    (hversioned : Runs.Along Devices.step Devices.Versioned d after)
    (hsettled : e.captures.size = 0) : e.live = [] := by
  obtain ⟨u,hu,hd⟩ := Runs.exec_append_some.mp hbefore
  have haccounted : Accounted u :=
    Runs.exec_invariant_along (fun s ev t h hs ht => accounted_step h hs ht) accounted_init
      hscreen hu
  have hleft : Left d := by
    cases hd
    exact haccounted.left
  have hstep : ∀ s ev t, Left s → s.Versioned ev ∧ ev.starts = false → s.step ev = some t →
      Left t := fun s ev t h hv ht => left_step h hv.2 hv.1 ht
  have he := Runs.exec_invariant_along hstep hleft
    (hversioned.and (Runs.along_of_forall hstarts)) hafter
  rw [List.eq_nil_iff_forall_not_mem]
  intro t ht
  obtain ⟨n,c,hn,_⟩ := he.held t ht
  rw [(OrderedMap.size_eq_zero_iff _).mp hsettled n] at hn
  cases hn

/-- Preview with a prompt for the camera still open; the user leaves, then allows it. -/
theorem leaving_stops_capture_late_grant :
    ∃ d e, Runs.exec Devices.step Devices.init
        ([.getLocalStream,.half 0 .audio true,.acquireTrack .video] ++ leaving) = some d ∧
      Runs.exec Devices.step d [.answer 1 true,.half 0 .video true] = some e ∧ e.live = [] := by
  have hrun : ((Runs.exec Devices.step Devices.init
      ([.getLocalStream,.half 0 .audio true,.acquireTrack .video] ++ leaving)).bind (fun d =>
        (Runs.exec Devices.step d [.answer 1 true,.half 0 .video true]).filter (fun e =>
          e.captures.size = 0 ∧ Runs.Along Devices.step Devices.Versioned d
            [.answer 1 true,.half 0 .video true]))).isSome := by decide +kernel
  obtain ⟨e,he⟩ := Option.isSome_iff_exists.mp hrun
  obtain ⟨d,hd,he⟩ := Option.bind_eq_some_iff.mp he
  obtain ⟨he,hsettled⟩ := Option.filter_eq_some_iff.mp he
  obtain ⟨hsettled,hv⟩ := of_decide_eq_true hsettled
  exact ⟨d,e,hd,he,leaving_stops_capture hd he (by decide) (by decide +kernel) hv hsettled⟩

/-- The user picks another camera, leaves before answering the prompt, and then allows it. -/
theorem leaving_stops_capture_camera :
    ¬ ∀ (before after : List DeviceEvent) (d e : Devices),
      Runs.exec Devices.step Devices.init (before ++ leaving) = some d →
      Runs.exec Devices.step d after = some e → (∀ ev ∈ after, ev.starts = false) →
      e.captures.size = 0 → e.live = [] := by
  intro h
  have hrun : ((Runs.exec Devices.step Devices.init ([.setCamera] ++ leaving)).bind (fun d =>
      (Runs.exec Devices.step d [.answer 0 true]).filter (fun e =>
        e.captures.size = 0 ∧ e.live ≠ []))).isSome := by decide +kernel
  obtain ⟨e,he⟩ := Option.isSome_iff_exists.mp hrun
  obtain ⟨d,hd,he⟩ := Option.bind_eq_some_iff.mp he
  obtain ⟨he,hsettled⟩ := Option.filter_eq_some_iff.mp he
  obtain ⟨hsettled,hlive⟩ := of_decide_eq_true hsettled
  exact hlive (h _ _ d e hd he (by decide) hsettled)

def Devices.HalfGranted (d : Devices) (t : Track) : Prop :=
  ∃ n version, d.captures.get n = some (.getLocalStream version (.granted t) .pending) ∨
    d.captures.get n = some (.getLocalStream version .pending (.granted t))

structure Halved (d : Devices) : Prop where
  pending : ∀ n version audio video,
    d.captures.get n = some (.getLocalStream version audio video) →
      audio = .pending ∨ video = .pending
  unshared : ∀ n, d.captures.get n ≠ some .startScreenShare
  screen : d.screenStream = none

section
variable {d e : Devices} {t : Track}

theorem Half.mem_tracks {h : Half} : t ∈ h.tracks ↔ h = .granted t := by
  cases h <;> simp [Half.tracks,eq_comm]

theorem Halved.half_granted (h : Halved d) (ht : d.Holds t) : d.HalfGranted t := by
  obtain ⟨n,c,hn,hc⟩ := ht
  cases c with
  | getLocalStream version audio video =>
    rcases List.mem_append.mp hc with ha | hv
    · obtain rfl := Half.mem_tracks.mp ha
      obtain rfl := (h.pending n _ _ _ hn).resolve_left (by simp)
      exact ⟨n,version,.inl hn⟩
    · obtain rfl := Half.mem_tracks.mp hv
      obtain rfl := (h.pending n _ _ _ hn).resolve_right (by simp)
      exact ⟨n,version,.inr hn⟩
  | acquireTrack | setDevice | startScreenShare => cases hc

theorem gather_captures (d : Devices) (version : Nat) (tracks : List Track) :
    (d.gather version tracks).captures = d.captures := by
  unfold Devices.gather
  split <;> rfl

theorem answer_screen {n : Nat} {granted : Bool} {r : Option Track}
    (h : d.answer n granted = some (e,r)) (hn : d.captures.get n ≠ some .startScreenShare) :
    e.screenStream = d.screenStream := by
  unfold Devices.answer at h
  split at h
  · cases h
  · cases h
  · split at h
    · cases h; rfl
    · split at h <;> cases h <;> rfl
  · rename_i kind _
    split at h
    · cases h; rfl
    · cases h
      exact (exchange_frame _ _).2.2.2
  · rename_i hshare
    exact absurd hshare hn

theorem half_stored {n m : Nat} {kind : Kind} {granted : Bool} {c : Capture}
    (h : d.half n kind granted = some e) (hm : e.captures.get m = some c) :
    d.captures.get m = some c ∨ ∃ version audio video,
      c = .getLocalStream version audio video ∧ (audio = .pending ∨ video = .pending) := by
  unfold Devices.half at h
  split at h
  · rename_i version audio video hn
    obtain ⟨r,hr,rfl⟩ := Option.map_eq_some_iff.mp h
    have hsame : (if granted then d.grant kind else d).captures = d.captures := by
      cases granted <;> rfl
    split at hm
    · rename_i hpending
      simp only [hsame] at hm
      by_cases hmn : m = n
      · subst hmn
        rw [OrderedMap.get_set_self,Option.some.injEq] at hm
        exact .inr ⟨_,_,_,hm.symm,hpending⟩
      · rw [OrderedMap.get_set_ne _ _ hmn] at hm
        exact .inl hm
    · rw [gather_captures,hsame,OrderedMap.get_delete] at hm
      split at hm
      · cases hm
      · exact .inl hm
  · cases h

theorem Halved.capture (h : Halved d) {c : Capture} (hshare : c ≠ .startScreenShare)
    (hc : ∀ version audio video, c = .getLocalStream version audio video → audio = .pending) :
    Halved (d.capture c) where
  pending := by
    intro n version audio video hn
    rw [Devices.capture,OrderedMap.get_set] at hn
    split at hn
    · cases hn; exact .inl (hc _ _ _ rfl)
    · exact h.pending n version audio video hn
  unshared := by
    intro n hn
    rw [Devices.capture,OrderedMap.get_set] at hn
    split at hn
    · cases hn; exact hshare rfl
    · exact h.unshared n hn
  screen := h.screen

theorem halved_step (h : Halved d) {ev : DeviceEvent} (hev : ev ≠ .startScreenShare)
    (hstep : d.step ev = some e) : Halved e := by
  cases ev with
  | startScreenShare => exact absurd rfl hev
  | getLocalStream =>
    cases hstep
    have hcancel : Halved d.cancelPendingCapture := ⟨h.pending,h.unshared,h.screen⟩
    exact hcancel.capture (by simp) (fun _ _ _ hc => by cases hc; rfl)
  | acquireTrack | setCamera | setMicrophone =>
    cases hstep
    exact h.capture (by simp) (fun _ _ _ hc => nomatch hc)
  | half n kind granted =>
    obtain ⟨_,_,hs,_,_⟩ := half_frame hstep
    refine ⟨fun m version audio video hm => ?_,fun m hm => ?_,hs.trans h.screen⟩
    · rcases half_stored hstep hm with hm | ⟨_,_,_,hc,hpending⟩
      · exact h.pending m version audio video hm
      · cases hc; exact hpending
    · rcases half_stored hstep hm with hm | ⟨_,_,_,hc,_⟩
      · exact h.unshared m hm
      · cases hc
  | answer n granted =>
    obtain ⟨⟨u,r⟩,hu,rfl⟩ := Option.map_eq_some_iff.mp hstep
    obtain ⟨c,hn,_,hc,_,_⟩ := answer_frame hu
    have hget : ∀ m c', u.captures.get m = some c' → d.captures.get m = some c' := by
      intro m c' hm
      rw [hc,OrderedMap.get_delete] at hm
      split at hm
      · cases hm
      · exact hm
    refine ⟨fun m version audio video hm => h.pending m version audio video (hget m _ hm),
      fun m hm => h.unshared m (hget m _ hm),?_⟩
    exact (answer_screen hu (h.unshared n)).trans h.screen
  | cancelPendingCapture | stopLocalPreview | setAudioMuted | setVideoEnabled =>
    cases hstep
    exact ⟨h.pending,h.unshared,h.screen⟩
  | stopScreenShare =>
    cases hstep
    unfold Devices.stopScreenShare
    rw [h.screen]
    exact h
  | ended t =>
    simp only [Devices.step] at hstep
    split at hstep
    · cases hstep; exact ⟨h.pending,h.unshared,h.screen⟩
    · cases hstep

end

/-- Without screen sharing every live track is in localStream or inside a getLocalStream that
waits for its other request, and stopLocalPreview stops all but the latter. -/
theorem captured_tracks_owned {es : List DeviceEvent} {d : Devices}
    (h : Runs.exec Devices.step Devices.init es = some d)
    (hshare : ∀ ev ∈ es, ev ≠ .startScreenShare) :
    (∀ t ∈ d.live, t ∈ d.localStream ∨ d.HalfGranted t) ∧
      ∀ t ∈ d.stopLocalPreview.live, d.HalfGranted t := by
  have hinv : Accounted d ∧ Halved d := by
    refine Runs.exec_invariant_along (P := fun _ ev => ev ≠ .startScreenShare)
      (I := fun d => Accounted d ∧ Halved d) ?_ ⟨accounted_init,?_⟩ (Runs.along_of_forall hshare) h
    · intro s ev u hs hev hu
      have hscreen : s.OneScreen ev := by
        cases ev with
        | answer n granted => exact fun _ hn => absurd hn (hs.2.unshared n)
        | _ => trivial
      exact ⟨accounted_step hs.1 hscreen hu,halved_step hs.2 hev hu⟩
    · exact ⟨by simp [Devices.init],by simp [Devices.init],rfl⟩
  obtain ⟨haccounted,hhalved⟩ := hinv
  have howned : ∀ t ∈ d.live, t ∈ d.localStream ∨ d.HalfGranted t := by
    intro t ht
    rcases haccounted.reach t ht with hl | hs | hh
    · exact .inl hl
    · rw [hhalved.screen] at hs
      cases hs
    · exact .inr (hhalved.half_granted hh)
  refine ⟨howned,fun t ht => ?_⟩
  obtain ⟨hlive,hnot⟩ := (mem_stop _).mp ht
  exact (howned t hlive).resolve_left hnot

/-- A preview with the prompt for the camera open, and another camera picked after a stop. -/
theorem captured_tracks_owned_overlap : ∃ d,
    Runs.exec Devices.step Devices.init [.getLocalStream,.half 0 .audio true,.setCamera,
      .stopLocalPreview,.answer 1 true] = some d ∧ d.live.length = 2 ∧
      (∀ t ∈ d.live, t ∈ d.localStream ∨ d.HalfGranted t) ∧
      ∀ t ∈ d.stopLocalPreview.live, d.HalfGranted t := by
  have hrun : ((Runs.exec Devices.step Devices.init [.getLocalStream,.half 0 .audio true,
      .setCamera,.stopLocalPreview,.answer 1 true]).filter
        (fun d => d.live.length = 2)).isSome := by decide +kernel
  obtain ⟨d,hd⟩ := Option.isSome_iff_exists.mp hrun
  obtain ⟨hd,hlive⟩ := Option.filter_eq_some_iff.mp hd
  exact ⟨d,hd,of_decide_eq_true hlive,captured_tracks_owned hd (by decide)⟩

end MaiaMeet
