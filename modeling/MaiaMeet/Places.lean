import MaiaMeet.Capture
set_option autoImplicit false

/-! The manager never has a track in two places, and the browser grants each track once. -/

namespace MaiaMeet

inductive Place where
  | localStream | screenStream
  | capture (n : Nat)
  deriving DecidableEq, Repr

def Devices.At (d : Devices) (t : Track) : Place → Prop
  | .localStream => t ∈ d.localStream
  | .screenStream => t ∈ d.screenStream.getD []
  | .capture n => ∃ c, d.captures.get n = some c ∧ t ∈ c.tracks

structure Placed (screens : List Track) (d : Devices) : Prop where
  granted : ∀ t p, d.At t p → t.id < d.nextTrack
  live : ∀ t ∈ d.live, t.id < d.nextTrack
  one : ∀ t p q, d.At t p → d.At t q → p = q
  given : ∀ t ∈ screens, t.id < d.nextTrack
  screen : ∀ t ∈ screens, ∀ p, d.At t p → p = .screenStream

section
variable {d e : Devices} {screens : List Track} {t : Track} {kind : Kind} {n : Nat}

theorem placed_init : Placed [] Devices.init where
  granted := by
    intro t p h
    cases p with
    | localStream | screenStream => cases h
    | capture n => obtain ⟨c,hc,_⟩ := h; cases hc
  live := fun t h => by cases h
  one := by
    intro t p q h
    cases p with
    | localStream | screenStream => cases h
    | capture n => obtain ⟨c,hc,_⟩ := h; cases hc
  given := fun t h => by cases h
  screen := fun t h => by cases h

theorem Placed.move (h : Placed screens d) (dest : Place → Place) (new : Place)
    (hdest : dest .screenStream = .screenStream) (hnext : d.nextTrack ≤ e.nextTrack)
    (hlive : ∀ t ∈ e.live, t ∈ d.live ∨ t.id < e.nextTrack)
    (hat : ∀ t p, e.At t p → (∃ q, d.At t q ∧ dest q = p) ∨
      (p = new ∧ d.nextTrack ≤ t.id ∧ t.id < e.nextTrack)) : Placed screens e where
  granted := by
    intro t p hp
    rcases hat t p hp with ⟨q,hq,_⟩ | ⟨_,_,hlt⟩
    · exact Nat.lt_of_lt_of_le (h.granted t q hq) hnext
    · exact hlt
  live := by
    intro t ht
    rcases hlive t ht with hl | hlt
    · exact Nat.lt_of_lt_of_le (h.live t hl) hnext
    · exact hlt
  one := by
    intro t p q hp hq
    rcases hat t p hp with ⟨p',hp',rfl⟩ | ⟨rfl,hfresh,_⟩
    · rcases hat t q hq with ⟨q',hq',rfl⟩ | ⟨_,hfresh,_⟩
      · rw [h.one t p' q' hp' hq']
      · have hlt := h.granted t p' hp'
        omega
    · rcases hat t q hq with ⟨q',hq',_⟩ | ⟨rfl,_,_⟩
      · have hlt := h.granted t q' hq'
        omega
      · rfl
  given := fun t ht => Nat.lt_of_lt_of_le (h.given t ht) hnext
  screen := by
    intro t ht p hp
    rcases hat t p hp with ⟨q,hq,rfl⟩ | ⟨_,hfresh,_⟩
    · rw [h.screen t ht q hq,hdest]
    · have hlt := h.given t ht
      omega

theorem Placed.give (h : Placed screens d) (ht : d.At t .screenStream) :
    Placed (t :: screens) d where
  granted := h.granted
  live := h.live
  one := h.one
  given := by
    intro u hu
    rcases List.mem_cons.mp hu with rfl | hu
    · exact h.granted u .screenStream ht
    · exact h.given u hu
  screen := by
    intro u hu p hp
    rcases List.mem_cons.mp hu with rfl | hu
    · exact h.one u p .screenStream hp ht
    · exact h.screen u hu p hp

theorem Placed.keep (h : Placed screens d) (hnext : d.nextTrack ≤ e.nextTrack)
    (hlive : ∀ t ∈ e.live, t ∈ d.live ∨ t.id < e.nextTrack)
    (hat : ∀ t p, e.At t p → d.At t p) : Placed screens e :=
  h.move id .localStream rfl hnext hlive (fun t p hp => .inl ⟨p,hat t p hp,rfl⟩)

theorem Placed.capture (h : Placed screens d) {c : Capture} (hc : c.tracks = []) :
    Placed screens (d.capture c) := by
  refine h.keep (Nat.le_refl _) (fun t ht => .inl ht) (fun t p hp => ?_)
  cases p with
  | localStream | screenStream => exact hp
  | capture m =>
    obtain ⟨c',hm,ht⟩ := hp
    rw [Devices.capture,OrderedMap.get_set] at hm
    split at hm
    · cases hm
      rw [hc] at ht
      cases ht
    · exact ⟨c',hm,ht⟩

@[simp] theorem answered_localStream (d : Devices) (kind : Kind) (granted : Bool) :
    (d.answered kind granted).localStream = d.localStream := by cases granted <;> rfl

@[simp] theorem answered_screenStream (d : Devices) (kind : Kind) (granted : Bool) :
    (d.answered kind granted).screenStream = d.screenStream := by cases granted <;> rfl

theorem mem_brings {granted : Bool} (h : t ∈ d.brings kind granted) :
    d.nextTrack = t.id ∧ t.id < (d.answered kind granted).nextTrack := by
  cases granted with
  | false => cases h
  | true =>
    rw [List.mem_singleton.mp h]
    exact ⟨rfl,Nat.lt_succ_self _⟩

theorem answered_next (d : Devices) (kind : Kind) (granted : Bool) :
    d.nextTrack ≤ (d.answered kind granted).nextTrack := by
  cases granted with
  | false => exact Nat.le_refl _
  | true => exact Nat.le_succ _

theorem answered_live {granted : Bool} (h : t ∈ (d.answered kind granted).live) :
    t ∈ d.live ∨ t.id < (d.answered kind granted).nextTrack :=
  (mem_answered.mp h).imp id (fun hb => (mem_brings hb).2)

theorem Placed.half (h : Placed screens d) {granted : Bool} (he : d.half n kind granted = some e) :
    Placed screens e := by
  obtain ⟨version,audio,video,audio',video',hn,hm,rfl | rfl⟩ := half_cases he
  · refine h.move id (.capture n) rfl (answered_next d kind granted) (fun t ht => answered_live ht) ?_
    intro t p hp
    cases p with
    | localStream | screenStream => exact .inl ⟨_,by simpa [Devices.At] using hp,rfl⟩
    | capture m =>
      obtain ⟨c,hc,ht⟩ := hp
      by_cases hmn : m = n
      · subst hmn
        rw [OrderedMap.get_set_self,Option.some.injEq] at hc
        subst hc
        rcases (hm t).mp ht with hb | hb
        · obtain ⟨hid,hlt⟩ := mem_brings hb
          exact .inr ⟨rfl,Nat.le_of_eq hid,hlt⟩
        · exact .inl ⟨.capture m,⟨_,hn,hb⟩,rfl⟩
      · rw [OrderedMap.get_set_ne _ _ hmn] at hc
        exact .inl ⟨.capture m,⟨c,hc,ht⟩,rfl⟩
  · -- the tracks of the settled call go to localStream, if anywhere
    refine h.move (fun q => if q = .capture n then .localStream else q) .localStream rfl ?_ ?_ ?_
    · rw [Devices.gather]
      split <;> exact answered_next d kind granted
    · intro t ht
      have hlive : t ∈ (d.answered kind granted).live := by
        unfold Devices.gather at ht
        split at ht
        · exact ((mem_stop _).mp ht).1
        · exact ht
      rw [Devices.gather]
      split <;> exact answered_live hlive
    · intro t p hp
      cases p with
      | localStream =>
        have hmem : t ∈ d.localStream ∨ t ∈ audio'.tracks ++ video'.tracks := by
          simp only [Devices.At,Devices.gather] at hp
          split at hp
          · exact .inl (by simpa [Devices.stop] using hp)
          · exact mem_foldl_addTrack.mp (by simpa using hp)
        rw [hm] at hmem
        rcases hmem with hl | hb | hb
        · exact .inl ⟨.localStream,hl,by simp⟩
        · obtain ⟨hid,hlt⟩ := mem_brings hb
          refine .inr ⟨rfl,Nat.le_of_eq hid,?_⟩
          rw [Devices.gather]
          split <;> exact hlt
        · exact .inl ⟨.capture n,⟨_,hn,hb⟩,by simp⟩
      | screenStream =>
        refine .inl ⟨.screenStream,?_,by simp⟩
        simp only [Devices.At,Devices.gather] at hp
        split at hp <;> simpa [Devices.At,Devices.stop] using hp
      | capture m =>
        obtain ⟨c,hc,ht⟩ := hp
        rw [gather_captures,OrderedMap.get_delete] at hc
        split at hc
        · cases hc
        · rename_i hmn
          exact .inl ⟨.capture m,⟨c,hc,ht⟩,by simp [hmn]⟩

theorem Placed.settle (h : Placed screens d) (new : Place) (hcaptures : e.captures = d.captures.delete n)
    (hnext : d.nextTrack ≤ e.nextTrack)
    (hlive : ∀ t ∈ e.live, t ∈ d.live ∨ t.id < e.nextTrack)
    (hlocal : ∀ t ∈ e.localStream, t ∈ d.localStream ∨
      (new = .localStream ∧ d.nextTrack ≤ t.id ∧ t.id < e.nextTrack))
    (hscreen : ∀ t ∈ e.screenStream.getD [], t ∈ d.screenStream.getD [] ∨
      (new = .screenStream ∧ d.nextTrack ≤ t.id ∧ t.id < e.nextTrack)) : Placed screens e := by
  refine h.move id new rfl hnext hlive (fun t p hp => ?_)
  cases p with
  | localStream =>
    rcases hlocal t hp with hd | ⟨rfl,hid⟩
    · exact .inl ⟨.localStream,hd,rfl⟩
    · exact .inr ⟨rfl,hid⟩
  | screenStream =>
    rcases hscreen t hp with hd | ⟨rfl,hid⟩
    · exact .inl ⟨.screenStream,hd,rfl⟩
    · exact .inr ⟨rfl,hid⟩
  | capture m =>
    obtain ⟨c,hc,ht⟩ := hp
    rw [hcaptures,OrderedMap.get_delete] at hc
    split at hc
    · cases hc
    · exact .inl ⟨.capture m,⟨c,hc,ht⟩,rfl⟩

theorem live_grant (h : t ∈ (d.grant kind).live) :
    t ∈ d.live ∨ t.id < (d.grant kind).nextTrack := by
  rcases mem_grant.mp h with hl | rfl
  · exact .inl hl
  · exact .inr (Nat.lt_succ_self _)

theorem exchange_next (d : Devices) (t : Track) : (d.exchange t).nextTrack = d.nextTrack := by
  unfold Devices.exchange
  split <;> rfl

theorem exchange_subset {u : Track} (h : u ∈ (d.exchange t).localStream) :
    u ∈ d.localStream ∨ u = t := by
  unfold Devices.exchange at h
  split at h
  · exact Stream.mem_addTrack.mp h
  · exact (Stream.mem_addTrack.mp h).imp (fun hu => (Stream.mem_removeTrack.mp hu).1) id

theorem Placed.answer (h : Placed screens d) {granted : Bool} {r : Option Track}
    (he : d.answer n granted = some (e,r)) : Placed screens e := by
  have hnew : ∀ kind, d.nextTrack ≤ (d.newTrack kind).id ∧
      (d.newTrack kind).id < d.nextTrack + 1 := fun _ => ⟨Nat.le_refl _,Nat.lt_succ_self _⟩
  have hdenied : Placed screens { d with captures := d.captures.delete n } :=
    h.settle .localStream rfl (Nat.le_refl _) (fun t ht => .inl ht) (fun t ht => .inl ht)
      (fun t ht => .inl ht)
  unfold Devices.answer at he
  split at he
  · cases he
  · cases he
  · rename_i version kind _
    split at he
    · cases he; exact hdenied
    · split at he
      · cases he
        exact h.settle .localStream rfl (Nat.le_succ _)
          (fun t ht => live_grant ((mem_stop _).mp ht).1) (fun t ht => .inl ht)
          (fun t ht => .inl ht)
      · cases he
        refine h.settle .localStream rfl (Nat.le_succ _) (fun t ht => live_grant ht)
          (fun t ht => ?_) (fun t ht => .inl ht)
        rcases Stream.mem_addTrack.mp ht with ht | rfl
        · exact .inl ht
        · exact .inr ⟨rfl,hnew kind⟩
  · rename_i kind _
    split at he
    · cases he; exact hdenied
    · cases he
      obtain ⟨hc,_,_,hs⟩ := exchange_frame
        (Devices.grant { d with captures := d.captures.delete n } kind) (d.newTrack kind)
      have hn := exchange_next
        (Devices.grant { d with captures := d.captures.delete n } kind) (d.newTrack kind)
      refine h.settle .localStream hc (hn ▸ Nat.le_succ _) (fun t ht => ?_) (fun t ht => ?_)
        (fun t ht => .inl (by rw [hs] at ht; exact ht))
      · rw [hn]
        exact live_grant (mem_exchange ht).1
      · rw [hn]
        rcases exchange_subset ht with ht | rfl
        · exact .inl ht
        · exact .inr ⟨rfl,hnew kind⟩
  · split at he
    · cases he; exact hdenied
    · cases he
      refine h.settle .screenStream rfl (Nat.le_succ _) (fun t ht => live_grant ht)
        (fun t ht => .inl ht) (fun t ht => ?_)
      rw [List.mem_singleton.mp ht]
      exact .inr ⟨rfl,hnew .video⟩

theorem Placed.stop (h : Placed screens d) (tracks : List Track) : Placed screens (d.stop tracks) :=
  h.keep (Nat.le_refl _) (fun _ ht => .inl ((mem_stop tracks).mp ht).1) (fun _ p hp => by
    cases p <;> exact hp)

theorem placed_step (h : Placed screens d) {ev : DeviceEvent} (hstep : d.step ev = some e) :
    Placed screens e := by
  have hcancel : Placed screens d.cancelPendingCapture :=
    h.keep (Nat.le_refl _) (fun t ht => .inl ht) (fun t p hp => by cases p <;> exact hp)
  cases ev with
  | getLocalStream => cases hstep; exact hcancel.capture rfl
  | acquireTrack | setCamera | setMicrophone | startScreenShare =>
    cases hstep
    exact h.capture rfl
  | half n kind granted => exact h.half hstep
  | answer n granted =>
    obtain ⟨⟨u,r⟩,hu,rfl⟩ := Option.map_eq_some_iff.mp hstep
    exact h.answer hu
  | cancelPendingCapture => cases hstep; exact hcancel
  | stopLocalPreview =>
    cases hstep
    refine (hcancel.stop d.localStream).keep (Nat.le_refl _) (fun t ht => .inl ht) (fun t p hp => ?_)
    cases p with
    | localStream => cases hp
    | screenStream | capture => exact hp
  | stopScreenShare =>
    cases hstep
    unfold Devices.stopScreenShare
    split
    · exact h
    · rename_i stream _
      refine (h.stop stream).keep (Nat.le_refl _) (fun t ht => .inl ht) (fun t p hp => ?_)
      cases p with
      | screenStream => cases hp
      | localStream | capture => exact hp
  | setAudioMuted | setVideoEnabled =>
    cases hstep
    exact h.keep (Nat.le_refl _) (fun t ht => .inl ht) (fun t p hp => by cases p <;> exact hp)
  | ended t =>
    simp only [Devices.step] at hstep
    split at hstep
    · cases hstep; exact h.stop [t]
    · cases hstep

end

end MaiaMeet
