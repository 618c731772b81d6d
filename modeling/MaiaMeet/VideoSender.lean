import MaiaMeet.Tracks
set_option autoImplicit false

/-! The senders that session.replaceTrack gives a video track, while nothing else is under way
between the peers. -/

namespace MaiaMeet

namespace Session

def videoSender (s : Session) (id : JsString) : Option Transceiver :=
  (s.peers.get id).bind (fun p => p.transceivers.find? (fun t => t.kind = .video))

structure Wired (s : Session) : Prop where
  only : ∀ id peer i x, s.peers.get id = some peer → peer.transceivers[i]? = some x →
    x.calls ≠ [] → peer.transceivers.findIdx? (fun t => t.kind = .video) = some i
  numbered : ∀ id x c, s.videoSender id = some x → c ∈ x.calls →
    ∃ n, c.1 = .replace n ∧ n < s.nextReplace
  once : ∀ id x, s.videoSender id = some x → (x.calls.map Prod.fst).Nodup
  awaited : ∀ id x n track, s.videoSender id = some x → (.replace n,track) ∈ x.calls →
    ∀ r ∈ s.replaces, r.number = n → id ∈ r.waiting
  issued : ∀ r ∈ s.replaces, r.number < s.nextReplace

end Session

section lists
variable {α : Type} {p : α → Bool} {f : α → α}

theorem find?_modify {l : List α} {i : Nat} (h : l.findIdx? p = some i)
    (hf : ∀ x, p (f x) = p x) : (l.modify i f).find? p = (l.find? p).map f := by
  induction l generalizing i with
  | nil => cases h
  | cons a l ih =>
    rw [List.findIdx?_cons] at h
    by_cases ha : p a = true
    · rw [if_pos ha] at h
      cases h
      simp [ha,hf]
    · rw [if_neg ha] at h
      obtain ⟨j,hj,rfl⟩ := Option.map_eq_some_iff.mp h
      simp [ha,ih hj]

theorem find?_of_findIdx? {l : List α} {i : Nat} {x : α} (h : l.findIdx? p = some i)
    (hx : l[i]? = some x) : l.find? p = some x := by
  induction l generalizing i with
  | nil => cases h
  | cons a l ih =>
    rw [List.findIdx?_cons] at h
    by_cases ha : p a = true
    · rw [if_pos ha] at h
      cases h
      simpa [ha] using hx
    · rw [if_neg ha] at h
      obtain ⟨j,hj,rfl⟩ := Option.map_eq_some_iff.mp h
      simpa [ha] using ih hj (by simpa using hx)

theorem find?_set {l : List α} {i : Nat} {y : α} (h : l.findIdx? p = some i) (hy : p y = true) :
    (l.set i y).find? p = some y := by
  induction l generalizing i with
  | nil => cases h
  | cons a l ih =>
    rw [List.findIdx?_cons] at h
    by_cases ha : p a = true
    · rw [if_pos ha] at h
      cases h
      simp [hy]
    · rw [if_neg ha] at h
      obtain ⟨j,hj,rfl⟩ := Option.map_eq_some_iff.mp h
      simp [ha,ih hj]

end lists

namespace Session

variable {s u : Session} {id : JsString} {n : Nat} {old new : Option Track}

theorem findIdx?_kinds {l m : List Transceiver} (h : l.map Transceiver.kind = m.map Transceiver.kind) :
    l.findIdx? (fun t => t.kind = .video) = m.findIdx? (fun t => t.kind = .video) := by
  have hmap : ∀ k : List Transceiver, k.findIdx? (fun t => t.kind = .video) =
      (k.map Transceiver.kind).findIdx? (fun t => t = .video) := by
    intro k
    rw [List.findIdx?_map]
    rfl
  rw [hmap,hmap,h]

theorem kinds_modify (l : List Transceiver) (i : Nat) {f : Transceiver → Transceiver}
    (hf : ∀ x, (f x).kind = x.kind) :
    (l.modify i f).map Transceiver.kind = l.map Transceiver.kind := by
  induction l generalizing i with
  | nil => simp
  | cons x l ih =>
    cases i with
    | zero => simp [hf]
    | succ i => simp [ih]

theorem kinds_set {l : List Transceiver} {i : Nat} {x y : Transceiver} (hx : l[i]? = some x)
    (hy : y.kind = x.kind) : (l.set i y).map Transceiver.kind = l.map Transceiver.kind := by
  obtain ⟨hlt,rfl⟩ := List.getElem?_eq_some_iff.mp hx
  have hset : l.set i y = l.modify i (fun z => { y with kind := z.kind }) := by
    rw [List.modify_eq_set_get _ hlt]
    simp [← hy]
  rw [hset,kinds_modify l i (f := fun z => { y with kind := z.kind }) (fun z => rfl)]

def call (n : Nat) (track : Option Track) (x : Transceiver) : Transceiver :=
  { x with calls := x.calls ++ [(.replace n,track)] }

theorem callOnSender_video (n : Nat) (track : Option Track) (peer : Peer) :
    callOnSender n track (some .video) peer =
      match peer.transceivers.findIdx? (fun t => t.kind = .video) with
      | none => peer
      | some i => { peer with transceivers := peer.transceivers.modify i (call n track) } := by
  simp only [callOnSender,Option.some.injEq]
  rfl

theorem videoSender_replaceTrack
    (hk : Replace.kind ⟨s.nextReplace,old,new,[]⟩ = some .video) (id : JsString) :
    (s.replaceTrack old new).videoSender id = (s.videoSender id).map (call s.nextReplace new) := by
  simp only [videoSender,replaceTrack,hk,OrderedMap.get_mapValues]
  cases s.peers.get id with
  | none => rfl
  | some peer =>
    simp only [Option.map_some,Option.bind_some,callOnSender_video]
    cases hi : peer.transceivers.findIdx? (fun t => t.kind = .video) with
    | none =>
      have hnone : peer.transceivers.find? (fun t => t.kind = .video) = none := by
        simpa using hi
      simp [hnone]
    | some i => exact find?_modify hi (fun x => rfl)

theorem mem_senders (s : Session) (id : JsString) :
    id ∈ s.senders (some .video) ↔ (s.videoSender id).isSome := by
  constructor
  · intro h
    obtain ⟨⟨j,peer⟩,hmem,rfl⟩ := List.mem_map.mp h
    obtain ⟨hentry,hany⟩ := List.mem_filter.mp hmem
    have hget := (OrderedMap.get_eq_some_iff _ _ _).mpr hentry
    simpa [videoSender,hget] using hany
  · intro h
    cases hget : s.peers.get id with
    | none => simp [videoSender,hget] at h
    | some peer =>
      have hentry := (OrderedMap.get_eq_some_iff _ _ _).mp hget
      refine List.mem_map.mpr ⟨(id,peer),List.mem_filter.mpr ⟨hentry,?_⟩,rfl⟩
      simpa [videoSender,hget] using h

theorem Wired.replaceTrack (h : Wired s)
    (hk : Replace.kind ⟨s.nextReplace,old,new,[]⟩ = some .video) :
    Wired (s.replaceTrack old new) where
  only := by
    intro id peer i x hp hx hc
    simp only [Session.replaceTrack,OrderedMap.get_mapValues,hk] at hp
    obtain ⟨q,hq,rfl⟩ := Option.map_eq_some_iff.mp hp
    rw [callOnSender_video] at hx ⊢
    cases hi : q.transceivers.findIdx? (fun t => t.kind = .video) with
    | none =>
      rw [hi] at hx
      exact absurd (h.only id q i x hq hx hc) (by simp [hi])
    | some k =>
      rw [hi] at hx
      simp only at hx ⊢
      rw [findIdx?_kinds (kinds_modify q.transceivers k (f := call s.nextReplace new) (fun y => rfl)),hi]
      rw [List.getElem?_modify] at hx
      obtain ⟨y,hy,rfl⟩ := Option.map_eq_some_iff.mp hx
      by_cases hki : k = i
      · rw [hki]
      · simp only [if_neg hki] at hc
        rw [← hi,h.only id q i y hq hy hc]
  numbered := by
    intro id x c hx hc
    rw [videoSender_replaceTrack hk] at hx
    obtain ⟨y,hy,rfl⟩ := Option.map_eq_some_iff.mp hx
    rcases List.mem_append.mp hc with hc | hc
    · obtain ⟨n,hn,hlt⟩ := h.numbered id y c hy hc
      exact ⟨n,hn,Nat.lt_succ_of_lt hlt⟩
    · rw [List.mem_singleton.mp hc]
      exact ⟨s.nextReplace,rfl,Nat.lt_succ_self _⟩
  once := by
    intro id x hx
    rw [videoSender_replaceTrack hk] at hx
    obtain ⟨y,hy,rfl⟩ := Option.map_eq_some_iff.mp hx
    rw [call,List.map_append,List.nodup_append]
    refine ⟨h.once id y hy,by simp,?_⟩
    intro a ha b hb hab
    obtain ⟨c,hc,rfl⟩ := List.mem_map.mp ha
    obtain ⟨n,hn,hlt⟩ := h.numbered id y c hy hc
    simp only [List.map_cons,List.map_nil,List.mem_singleton] at hb
    rw [hab,hb] at hn
    cases hn
    exact Nat.lt_irrefl _ hlt
  awaited := by
    intro id x n track hx hc r hr hn
    rw [videoSender_replaceTrack hk] at hx
    obtain ⟨y,hy,rfl⟩ := Option.map_eq_some_iff.mp hx
    rcases List.mem_append.mp hr with hr | hr
    · have hlt := h.issued r hr
      rcases List.mem_append.mp hc with hc | hc
      · exact h.awaited id y n track hy hc r hr hn
      · cases List.mem_singleton.mp hc
        omega
    · rw [List.mem_singleton.mp hr,hk]
      exact (mem_senders s id).mpr (by rw [hy]; rfl)
  issued := by
    intro r hr
    rcases List.mem_append.mp hr with hr | hr
    · exact Nat.lt_succ_of_lt (h.issued r hr)
    · rw [List.mem_singleton.mp hr]
      exact Nat.lt_succ_self _

theorem answered_replaces (s : Session) (n : Nat) (id : JsString) (ok : Bool) {r : Replace}
    (h : r ∈ (s.answered n id ok).1.replaces) : ∃ q ∈ s.replaces, q.number = r.number ∧
      ∀ j ∈ q.waiting, (q.number = n → j ≠ id) → j ∈ r.waiting := by
  cases ok with
  | false => exact ⟨r,(List.mem_filter.mp h).1,rfl,fun j hj _ => hj⟩
  | true =>
    obtain ⟨q,hq,rfl⟩ := List.mem_map.mp h
    refine ⟨q,hq,?_,fun j hj hne => ?_⟩
    · split <;> rfl
    · split
      · rename_i hn
        exact List.mem_filter.mpr ⟨hj,by simpa using hne hn⟩
      · exact hj

theorem Wired.videoSender (h : Wired s) {peer : Peer} {index : Nat} {x : Transceiver}
    (hp : s.peers.get id = some peer) (hx : peer.transceivers[index]? = some x)
    (hc : x.calls ≠ []) : s.videoSender id = some x := by
  rw [Session.videoSender,hp]
  exact find?_of_findIdx? (h.only id peer index x hp hx hc) hx

theorem Wired.taken (h : Wired s) {peer : Peer} {index n : Nat} {x y : Transceiver}
    {track : Option Track} (hp : s.peers.get id = some peer)
    (hx : peer.transceivers[index]? = some x) (hc : x.calls = (.replace n,track) :: y.calls)
    (hy : y.kind = x.kind)
    (hpeers : u.peers = s.peers.set id { peer with transceivers := peer.transceivers.set index y })
    (hnext : u.nextReplace = s.nextReplace)
    (hreplaces : ∀ r ∈ u.replaces, ∃ q ∈ s.replaces, q.number = r.number ∧
      ∀ j ∈ q.waiting, (q.number = n → j ≠ id) → j ∈ r.waiting) :
    (∀ j, u.videoSender j = if j = id then some y else s.videoSender j) ∧ Wired u := by
  have hindex := h.only id peer index x hp hx (by simp [hc])
  have hvideo := h.videoSender hp hx (by simp [hc])
  have hkind : x.kind = .video := by
    rw [Session.videoSender,hp] at hvideo
    simpa using List.find?_some hvideo
  have hsender : ∀ j, u.videoSender j = if j = id then some y else s.videoSender j := by
    intro j
    simp only [Session.videoSender,hpeers,OrderedMap.get_set]
    split
    · exact find?_set hindex (by simp [hy,hkind])
    · rfl
  -- what a sender still has of calls, it had before
  have hcalls : ∀ j z, u.videoSender j = some z → ∃ z', s.videoSender j = some z' ∧
      (∀ c ∈ z.calls, c ∈ z'.calls ∧ (j = id → c.1 ≠ .replace n)) ∧
      (z.calls.map Prod.fst).Nodup := by
    intro j z hz
    rw [hsender] at hz
    split at hz
    · rename_i hj
      subst hj
      cases hz
      have honce := h.once j x hvideo
      rw [hc,List.map_cons,List.nodup_cons] at honce
      refine ⟨x,hvideo,fun c hmem => ⟨by rw [hc]; exact List.mem_cons_of_mem _ hmem,?_⟩,honce.2⟩
      rintro _ hn
      exact honce.1 (List.mem_map.mpr ⟨c,hmem,hn⟩)
    · rename_i hj
      exact ⟨z,hz,fun c hmem => ⟨hmem,fun he => absurd he hj⟩,h.once j z hz⟩
  refine ⟨hsender,?_,?_,?_,?_,?_⟩
  · intro j q i z hq hz hne
    rw [hpeers,OrderedMap.get_set] at hq
    split at hq
    · rename_i hj
      subst hj
      cases hq
      rw [findIdx?_kinds (kinds_set hx hy)]
      by_cases hi : index = i
      · rw [← hi,hindex]
      · simp only [List.getElem?_set_ne hi] at hz
        exact h.only j peer i z hp hz hne
    · exact h.only j q i z hq hz hne
  · intro j z c hz hmem
    obtain ⟨z',hz',hsub,_⟩ := hcalls j z hz
    rw [hnext]
    exact h.numbered j z' c hz' (hsub c hmem).1
  · intro j z hz
    obtain ⟨_,_,_,honce⟩ := hcalls j z hz
    exact honce
  · intro j z m tr hz hmem r hr hm
    obtain ⟨z',hz',hsub,_⟩ := hcalls j z hz
    obtain ⟨q,hq,hnumber,hwaiting⟩ := hreplaces r hr
    obtain ⟨hmem',hother⟩ := hsub _ hmem
    refine hwaiting j (h.awaited j z' m tr hz' hmem' q hq (hnumber.trans hm)) ?_
    rintro hn rfl
    exact hother rfl (by rw [← hm,← hnumber,hn])
  · intro r hr
    obtain ⟨q,hq,hnumber,_⟩ := hreplaces r hr
    rw [hnext,← hnumber]
    exact h.issued q hq

theorem Wired.sender (h : Wired s) {index : Nat} {ok : Bool} {out : List Output}
    (hstep : s.step (.sender id index ok) = some (u,out)) :
    ∃ x n track calls, s.videoSender id = some x ∧ x.calls = (.replace n,track) :: calls ∧
      (∀ j, u.videoSender j = if j = id then
        some { x with track := if ok then track else x.track, calls := calls }
        else s.videoSender j) ∧
      out = (s.answered n id ok).2 ∧ (ok = false → s.rejects (.sender id index ok) = some n) ∧
      Wired u := by
  have howner : ∀ {peer : Peer} {x : Transceiver} {track : Option Track} {calls},
      s.peers.get id = some peer → peer.transceivers[index]? = some x →
      x.calls = (.operation,track) :: calls → False := by
    intro peer x track calls hp hx hc
    have hsender := h.videoSender hp hx (by simp [hc])
    obtain ⟨n,hn,_⟩ := h.numbered id x _ hsender (by rw [hc]; exact List.mem_cons_self)
    cases hn
  cases session_effect hstep with
  | assigned _ _ peer x track calls hp hx hc => exact (howner hp hx hc).elim
  | unassigned _ _ peer x track calls hp hx hc => exact (howner hp hx hc).elim
  | called _ _ _ peer x n track calls hp hx hc =>
    have hreplaces := fun r => answered_replaces (r := r) { s with
      peers := s.peers.set id { peer with
        transceivers := peer.transceivers.set index { x with
          track := if ok then track else x.track
          calls := calls } } } n id ok
    obtain ⟨hsender,hwired⟩ := h.taken (y := { x with
      track := if ok then track else x.track
      calls := calls }) hp hx hc rfl (answered_peers _ n id ok) (by cases ok <;> rfl) hreplaces
    refine ⟨x,n,track,calls,h.videoSender hp hx (by simp [hc]),hc,hsender,rfl,?_,hwired⟩
    rintro rfl
    simp [Session.rejects,hp,hx,hc]

theorem Wired.replaced (h : Wired s) {out : List Output}
    (hstep : s.step (.replaced n) = some (u,out)) : out = [.replaced n] ∧
      (∀ j, u.videoSender j = s.videoSender j) ∧
      (∀ j x track, s.videoSender j = some x → (.replace n,track) ∉ x.calls) ∧ Wired u := by
  cases session_effect hstep with
  | published r hr hw =>
    have hmem := List.mem_of_find?_eq_some hr
    refine ⟨rfl,fun j => rfl,fun j x track hx hc => ?_,h.only,h.numbered,h.once,?_,?_⟩
    · have hwait := h.awaited j x _ track hx hc r hmem rfl
      rw [hw] at hwait
      cases hwait
    · intro j x m track hx hc q hq hm
      exact h.awaited j x m track hx hc q (List.mem_filter.mp hq).1 hm
    · intro q hq
      exact h.issued q (List.mem_filter.mp hq).1

end Session

end MaiaMeet
