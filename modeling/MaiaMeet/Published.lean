import MaiaMeet.Negotiation
set_option autoImplicit false

/-! Which track the senders of the mesh carry, against the track of that kind in
localStream. -/

namespace MaiaMeet

def Peer.kinds (peer : Peer) : List Kind := peer.transceivers.map Transceiver.kind

/-- `getTransceivers().find(t => t.receiver.track.kind === kind)` -/
def Peer.sender (peer : Peer) (k : Kind) : Option Transceiver :=
  peer.transceivers.find? (fun t => t.kind = k)

def Peer.negotiated (peer : Peer) : Bool :=
  peer.localDescription.isSome && peer.remoteDescription.isSome

/-- No call of either replaceTrack and no operation is in flight. -/
def Session.Quiescent (s : Session) : Prop :=
  s.replaces = [] ∧ (∀ e ∈ s.queues.entries, e.2 = ⟨none,[]⟩) ∧
    ∀ e ∈ s.peers.entries, ∀ t ∈ e.2.transceivers, t.calls = []
  deriving Decidable

def Session.Agrees (s : Session) : Prop :=
  ∀ e ∈ s.peers.entries, e.2.negotiated → ∀ k ∈ [Kind.audio,Kind.video],
    ∀ t ∈ e.2.sender k, t.track = s.localStream.ofKind k
  deriving Decidable

/-- The calls of replaceTrack come one at a time and name the track they replace; the
browser's calls succeed. -/
def Session.Proper (s : Session) : SessionEvent → Prop
  | .replaceTrack oldTrack newTrack =>
    s.replaces = [] ∧ ∀ k ∈ Replace.kind ⟨s.nextReplace,oldTrack,newTrack,[]⟩,
      oldTrack = s.localStream.ofKind k
  | .reject _ => False
  | .sender _ _ ok | .orphan _ _ ok => ok = true
  | _ => True

instance (s : Session) (e : SessionEvent) : Decidable (s.Proper e) := by
  cases e <;> unfold Session.Proper <;> infer_instance

def Session.reads (s : Session) : SessionEvent → List Kind
  | .next id =>
    match s.queue id with
    | ⟨none,.offer :: _⟩ => if s.accepts id then [.audio,.video] else []
    | _ => []
  | .settle id _ kinds =>
    match s.peers.get id, (s.queue id).running with
    | some peer, some (.setRemoteDescription true _) =>
      if peer.candidates = [] then (peer.kinds ++ kinds)[0]?.toList else []
    | some peer, some (.flush true _ []) => peer.kinds[0]?.toList
    | _, _ => []
  | .sender id index true =>
    match s.peers.get id with
    | some peer =>
      match peer.transceivers[index]?.bind (fun t => t.calls.head?) with
      | some (.operation,_) => peer.kinds[index + 1]?.toList
      | _ => []
    | none => []
  | _ => []

/-- No turn takes from localStream a track that a call in flight is replacing by another. -/
def Session.Steady (s : Session) (e : SessionEvent) : Prop :=
  ∀ k ∈ s.reads e, ∀ r ∈ s.replaces, r.kind = some k → r.newTrack = s.localStream.ofKind k
  deriving Decidable

def Transceiver.final (t : Transceiver) : Option Track :=
  (t.calls.getLast?.map Prod.snd).getD t.track

def Peer.senderIndex (peer : Peer) (k : Kind) : Option Nat :=
  peer.kinds.findIdx? (fun j => j = k)

def Await.Leaves (i : Nat) : Option Await → Prop
  | some (.flush true _ _) => True
  | some (.replaceTrack j) => j < i
  | _ => False

def Session.target (s : Session) (k : Kind) : Option Track :=
  match s.replaces.find? (fun r => r.kind = some k) with
  | some r => r.newTrack
  | none => s.localStream.ofKind k

def Peer.CarriesBelow (target : Kind → Option Track) (peer : Peer) (n : Nat) : Prop :=
  ∀ k i t, peer.senderIndex k = some i → peer.transceivers[i]? = some t → i < n →
    t.final = target k

def Peer.Carries (target : Kind → Option Track) (peer : Peer) (running : Option Await) : Prop :=
  ∀ k i t, peer.senderIndex k = some i → peer.transceivers[i]? = some t →
    ¬ Await.Leaves i running → t.final = target k

structure Published (s : Session) : Prop where
  one : s.replaces.length ≤ 1
  old : ∀ r ∈ s.replaces, ∀ k, r.kind = some k → r.oldTrack = s.localStream.ofKind k
  single : s.localStream.Single
  carries : ∀ id peer, s.peers.get id = some peer →
    peer.Carries s.target (s.queue id).running

section turns
variable {target : Kind → Option Track} {stream : Stream} {peer : Peer} {index : Nat}

theorem senderIndex_lt {k : Kind} {i : Nat} (h : peer.senderIndex k = some i) :
    ∃ t, peer.transceivers[i]? = some t ∧ t.kind = k := by
  obtain ⟨hi,hk,_⟩ := List.findIdx?_eq_some_iff_getElem.mp h
  have hl : i < peer.transceivers.length := by simpa [Peer.kinds] using hi
  exact ⟨peer.transceivers[i],List.getElem?_eq_getElem hl,by simpa [Peer.kinds] using hk⟩

theorem senderIndex_of_sender {k : Kind} {t : Transceiver} (h : peer.sender k = some t) :
    ∃ i, peer.senderIndex k = some i ∧ peer.transceivers[i]? = some t := by
  have hm : peer.senderIndex k = peer.transceivers.findIdx? (fun t => t.kind = k) := by
    simp [Peer.senderIndex,Peer.kinds,List.findIdx?_map,Function.comp_def]
  obtain ⟨hk,i,hi,rfl,hfirst⟩ := List.find?_eq_some_iff_getElem.mp h
  refine ⟨i,?_,List.getElem?_eq_getElem hi⟩
  rw [hm]
  exact List.findIdx?_eq_some_iff_getElem.mpr ⟨hi,hk,fun j hj => by simpa using hfirst j hj⟩

theorem kinds_set {t : Transceiver} (h : peer.transceivers[index]? = some t)
    (track : Option Track) (calls : List (Owner × Option Track)) :
    Peer.kinds { peer with
      transceivers := peer.transceivers.set index ⟨t.kind,track,calls⟩ } = peer.kinds := by
  obtain ⟨hi,rfl⟩ := List.getElem?_eq_some_iff.mp h
  have hi' : index < (peer.transceivers.map Transceiver.kind).length := by simpa using hi
  have hset := List.set_getElem_self hi'
  rw [List.getElem_map] at hset
  rw [Peer.kinds,List.map_set,hset,Peer.kinds]

/-- One round of the loop extends what is settled by the sender it reaches. -/
theorem carries_assign (h : peer.CarriesBelow target index)
    (hs : ∀ k, peer.kinds[index]? = some k → stream.ofKind k = target k) :
    (peer.assign stream index).peer.Carries target (peer.assign stream index).awaits := by
  unfold Peer.assign
  split
  · rename_i hn
    intro k i t hi ht _
    have hlt : i < index :=
      Nat.lt_of_lt_of_le (List.getElem?_eq_some_iff.mp ht).1 (List.getElem?_eq_none_iff.mp hn)
    exact h k i t hi ht hlt
  · rename_i t ht
    intro k i u hi hu hl
    have hlen := (List.getElem?_eq_some_iff.mp ht).1
    simp only [Peer.senderIndex] at hi
    rw [kinds_set ht] at hi
    by_cases hii : i = index
    · subst i
      obtain ⟨t',ht',hk⟩ := senderIndex_lt hi
      rw [ht] at ht'
      obtain rfl := Option.some.inj ht'
      rw [List.getElem?_set_self hlen] at hu
      cases hu
      have hkind : peer.kinds[index]? = some k := by simp [Peer.kinds,ht,hk]
      simp [Transceiver.final,hk,hs k hkind]
    · rw [List.getElem?_set_ne (Ne.symm hii)] at hu
      simp only [Await.Leaves,not_lt] at hl
      exact h k i u hi hu (by omega)

theorem carriesBelow_of_carries {running : Option Await} {n : Nat}
    (h : peer.Carries target running) (hn : ∀ i < n, ¬ Await.Leaves i running) :
    peer.CarriesBelow target n := fun k i t hi ht hlt => h k i t hi ht (hn i hlt)

theorem carries_flush {offer : Bool} {rest : List Candidate}
    (h : offer = false → peer.Carries target none)
    (hs : offer = true → rest = [] → ∀ k, peer.kinds[0]? = some k → stream.ofKind k = target k) :
    (peer.flush stream offer rest).peer.Carries target (peer.flush stream offer rest).awaits := by
  cases offer with
  | false =>
    have hn := h rfl
    cases rest with
    | nil => exact hn
    | cons c rest => exact fun k i t hi ht _ => hn k i t hi ht (by simp [Await.Leaves])
  | true =>
    cases rest with
    | nil => exact carries_assign (fun k i t _ _ hi => by omega) (hs rfl rfl)
    | cons c rest => exact fun k i t _ _ hl => absurd trivial hl

theorem carries_congr {q : Peer} {running running' : Option Await}
    (ht : q.transceivers = peer.transceivers) (h : peer.Carries target running)
    (hl : ∀ i, Await.Leaves i running → Await.Leaves i running') :
    q.Carries target running' := by
  intro k i t hi hu hn
  rw [ht] at hu
  rw [Peer.senderIndex,Peer.kinds,ht] at hi
  exact h k i t hi hu (fun hr => hn (hl i hr))

theorem carries_append {added : List Transceiver} {running : Option Await}
    (h : peer.Carries target none)
    (ha : ∀ t ∈ added, ∀ k, t.kind = k → t.final = target k) :
    Peer.Carries target { peer with transceivers := peer.transceivers ++ added } running := by
  intro k i t hi ht _
  rw [Peer.senderIndex,Peer.kinds,List.map_append,List.findIdx?_append] at hi
  cases hp : peer.senderIndex k with
  | some j =>
    have hj : i = j := by
      rw [Peer.senderIndex,Peer.kinds] at hp
      rw [hp] at hi
      exact (Option.some.inj hi).symm
    subst hj
    obtain ⟨u,hu,_⟩ := senderIndex_lt hp
    rw [List.getElem?_append_left (List.getElem?_eq_some_iff.mp hu).1] at ht
    exact h k i t hp ht (by simp [Await.Leaves])
  | none =>
    rw [Peer.senderIndex,Peer.kinds] at hp
    rw [hp,Option.none_or,Option.map_eq_some_iff] at hi
    obtain ⟨j,hj,rfl⟩ := hi
    obtain ⟨hjl,hk,_⟩ := List.findIdx?_eq_some_iff_getElem.mp hj
    rw [List.length_map,List.getElem?_append_right (by omega),Nat.add_sub_cancel] at ht
    obtain ⟨hjl,rfl⟩ := List.getElem?_eq_some_iff.mp ht
    exact ha _ (List.getElem_mem _) k (by simpa using hk)

theorem carries_perform {operation : Operation} (h : peer.Carries target none)
    (hs : operation = .offer → ∀ k, stream.ofKind k = target k) :
    (peer.perform stream operation).peer.Carries target
      (peer.perform stream operation).awaits := by
  cases operation with
  | offer =>
    refine carries_append h ?_
    intro t ht k hk
    simp only [List.map_cons,List.map_nil,List.mem_cons,List.not_mem_nil,or_false] at ht
    rcases ht with rfl | rfl <;> exact hk ▸ hs rfl _
  | handle signal =>
    cases signal with
    | offer | answer => exact carries_congr rfl h (by simp [Await.Leaves])
    | iceCandidate c =>
      simp only [Peer.perform]
      split <;> exact carries_congr rfl h (by simp [Await.Leaves])

theorem carries_resume {id sdp : JsString} {kinds : List Kind} {await : Await}
    (h : peer.Carries target (some await)) (hne : ∀ i, await ≠ .replaceTrack i)
    (hs : ∀ k, (∃ remote, await = .setRemoteDescription true remote ∧ peer.candidates = [] ∧
          (peer.kinds ++ kinds)[0]? = some k) ∨
        (∃ c, await = .flush true c [] ∧ peer.kinds[0]? = some k) →
      stream.ofKind k = target k) :
    (peer.resume stream id sdp kinds await).peer.Carries target
      (peer.resume stream id sdp kinds await).awaits := by
  cases await with
  | createOffer | setLocalOffer | addIceCandidate | createAnswer | setLocalAnswer =>
    exact carries_congr rfl h (by simp [Await.Leaves])
  | replaceTrack i => exact absurd rfl (hne i)
  | setRemoteDescription offer remote =>
    refine carries_flush ?_ ?_
    · rintro rfl
      exact carries_congr (by simp) h (by simp [Await.Leaves])
    · rintro rfl hc k hk
      refine hs k (.inl ⟨remote,rfl,hc,?_⟩)
      simpa [Peer.kinds,Function.comp_def] using hk
  | flush offer c rest =>
    refine carries_flush ?_ ?_
    · rintro rfl
      exact carries_congr rfl h (by simp [Await.Leaves])
    · rintro rfl rfl k hk
      exact hs k (.inr ⟨c,rfl,hk⟩)

/-- A settled call changes nothing about where its sender ends up. -/
theorem carries_settle {running : Option Await} {t : Transceiver} {owner : Owner}
    {track : Option Track} {calls : List (Owner × Option Track)}
    (h : peer.Carries target running) (ht : peer.transceivers[index]? = some t)
    (hc : t.calls = (owner,track) :: calls) :
    Peer.Carries target { peer with
      transceivers := peer.transceivers.set index ⟨t.kind,track,calls⟩ } running := by
  intro k i u hi hu hl
  rw [Peer.senderIndex,kinds_set ht] at hi
  by_cases hii : i = index
  · subst i
    rw [List.getElem?_set_self (List.getElem?_eq_some_iff.mp ht).1] at hu
    cases hu
    have hf := h k index t hi ht hl
    cases calls with
    | nil => simpa [Transceiver.final,hc] using hf
    | cons c calls => simpa [Transceiver.final,hc,List.getLast?_cons] using hf
  · rw [List.getElem?_set_ne (Ne.symm hii)] at hu
    exact h k i u hi hu hl

/-- A call of session.replaceTrack binds the sender of its kind for the new track. -/
theorem carries_call {running : Option Await} {n : Nat} {track : Option Track}
    {kind : Option Kind} (h : peer.Carries target running) :
    (Session.callOnSender n track kind peer).Carries
      (fun k => if some k = kind then track else target k) running := by
  cases kind with
  | none =>
    have hindex : peer.transceivers.findIdx? (fun t => some t.kind = none) = none :=
      List.findIdx?_eq_none_iff.mpr (by simp)
    rw [Session.callOnSender,hindex]
    exact fun k i t hi ht hl => by simpa using h k i t hi ht hl
  | some kind =>
    have hindex : peer.transceivers.findIdx? (fun t => some t.kind = some kind) =
        peer.senderIndex kind := by
      simp [Peer.senderIndex,Peer.kinds,List.findIdx?_map,Function.comp_def]
    rw [Session.callOnSender,hindex]
    cases hk : peer.senderIndex kind with
    | none =>
      intro k i t hi ht hl
      have hne : k ≠ kind := fun he => by rw [he,hk] at hi; cases hi
      simpa [hne] using h k i t hi ht hl
    | some j =>
      obtain ⟨u,hu,hku⟩ := senderIndex_lt hk
      have hmod : peer.transceivers.modify j
          (fun t => { t with calls := t.calls ++ [(.replace n,track)] }) =
          peer.transceivers.set j ⟨u.kind,u.track,u.calls ++ [(.replace n,track)]⟩ := by
        rw [List.modify_eq_set_getElem?,hu]
        rfl
      intro k i t hi ht hl
      simp only [Peer.senderIndex] at hi
      simp only [hmod] at hi ht
      rw [kinds_set hu] at hi
      by_cases hij : i = j
      · subst hij
        rw [List.getElem?_set_self (List.getElem?_eq_some_iff.mp hu).1] at ht
        cases ht
        obtain ⟨v,hv,hkv⟩ := senderIndex_lt hi
        rw [hu] at hv
        cases hv
        simp [Transceiver.final,← hkv,hku]
      · have hne : k ≠ kind := by
          rintro rfl
          rw [← Peer.senderIndex,hk] at hi
          exact hij (Option.some.inj hi).symm
        rw [List.getElem?_set_ne (Ne.symm hij)] at ht
        simpa [hne] using h k i t hi ht hl

end turns

section
variable {s t : Session}

theorem target_idle (h : s.replaces = []) (k : Kind) : s.target k = s.localStream.ofKind k := by
  simp [Session.target,h]

theorem target_congr (hr : s.replaces = t.replaces) (hl : s.localStream = t.localStream) :
    s.target = t.target := by
  funext k
  rw [Session.target,Session.target,hr,hl]

theorem target_steady {k : Kind} (h : ∀ r ∈ s.replaces, r.kind = some k →
    r.newTrack = s.localStream.ofKind k) : s.localStream.ofKind k = s.target k := by
  unfold Session.target
  split
  · rename_i r hr
    exact (h r (List.mem_of_find?_eq_some hr) (by simpa using List.find?_some hr)).symm
  · rfl

theorem target_answered (n : Nat) (id : JsString) :
    (s.answered n id true).1.target = s.target := by
  funext k
  have hkind : ∀ r : Replace, (if r.number = n then { r with waiting := r.waiting.filter (· ≠ id) }
      else r).kind = r.kind := by
    intro r
    split <;> rfl
  simp only [Session.target,Session.answered,if_true,List.find?_map,Function.comp_def,hkind]
  cases s.replaces.find? (fun r => r.kind = some k) with
  | none => rfl
  | some r =>
    simp only [Option.map_some]
    split <;> rfl

theorem target_replaceTrack (h : s.replaces = []) (oldTrack newTrack : Option Track) (k : Kind) :
    (s.replaceTrack oldTrack newTrack).target k =
      if some k = Replace.kind ⟨s.nextReplace,oldTrack,newTrack,[]⟩ then newTrack
      else s.target k := by
  have hkind : ∀ waiting, Replace.kind ⟨s.nextReplace,oldTrack,newTrack,waiting⟩ =
      Replace.kind ⟨s.nextReplace,oldTrack,newTrack,[]⟩ := fun _ => rfl
  rw [target_idle h]
  by_cases hk : some k = Replace.kind ⟨s.nextReplace,oldTrack,newTrack,[]⟩
  · simp [Session.target,Session.replaceTrack,h,hkind,← hk]
  · have hk' : ¬ Replace.kind ⟨s.nextReplace,oldTrack,newTrack,[]⟩ = some k :=
      fun he => hk he.symm
    simp [Session.target,Session.replaceTrack,h,hkind,hk,hk']

theorem removed_stream {stream : Stream} {oldTrack : Option Track} {kind : Option Kind}
    (hs : stream.Single) (hk : ∀ k, kind = some k → oldTrack = stream.ofKind k)
    (hu : ∀ u, oldTrack = some u → kind = some u.kind) :
    Stream.Single (oldTrack.elim stream stream.removeTrack) ∧
      ∀ k, Stream.ofKind (oldTrack.elim stream stream.removeTrack) k =
        if kind = some k then none else stream.ofKind k := by
  cases oldTrack with
  | none =>
    refine ⟨hs,fun k => ?_⟩
    split
    · rename_i hkk; exact (hk k hkk).symm
    · rfl
  | some u =>
    obtain rfl := hu u rfl
    have hmem := Stream.ofKind_eq_some (hk u.kind rfl).symm
    refine ⟨hs.removeTrack,fun k => ?_⟩
    simp only [Option.elim_some,Option.some.injEq]
    split
    · rename_i hkk
      exact hkk ▸ Stream.ofKind_removeTrack_self hs hmem.1
    · rename_i hkk
      exact Stream.ofKind_removeTrack_ne hkk

theorem publish_stream {r : Replace}
    (hold : ∀ k, r.kind = some k → r.oldTrack = s.localStream.ofKind k)
    (hs : s.localStream.Single) :
    (s.publish r).localStream.Single ∧
      ∀ k, (s.publish r).localStream.ofKind k =
        if r.kind = some k then r.newTrack else s.localStream.ofKind k := by
  obtain ⟨n,oldTrack,newTrack,waiting⟩ := r
  simp only [Session.publish]
  cases newTrack with
  | none => exact removed_stream hs hold (fun u hu => by simp [Replace.kind,hu])
  | some t =>
    have hu : ∀ u, oldTrack = some u → some t.kind = some u.kind := by
      intro u hu
      have ht := hold t.kind rfl
      rw [hu] at ht
      rw [(Stream.ofKind_eq_some ht.symm).2]
    obtain ⟨hsingle,hremoved⟩ := removed_stream hs hold hu
    have hnone : Stream.ofKind (oldTrack.elim s.localStream s.localStream.removeTrack) t.kind =
        none := by simp [hremoved,Replace.kind]
    refine ⟨hsingle.addTrack hnone,fun k => ?_⟩
    simp only [Option.elim_some,Replace.kind,Option.some.injEq]
    by_cases hk : t.kind = k
    · rw [if_pos hk,← hk]
      exact Stream.ofKind_addTrack_self hnone
    · rw [if_neg hk,Stream.ofKind_addTrack_ne hk,hremoved]
      simp [Replace.kind,hk]

theorem target_publish {r : Replace} (h : s.replaces = [r])
    (hold : ∀ k, r.kind = some k → r.oldTrack = s.localStream.ofKind k)
    (hs : s.localStream.Single) : (s.publish r).target = s.target := by
  funext k
  have hidle : (s.publish r).replaces = [] := by simp [Session.publish,h]
  rw [target_idle hidle,(publish_stream hold hs).2]
  by_cases hk : r.kind = some k <;> simp [Session.target,h,hk]

theorem Published.queues (h : Published s) {queues : OrderedMap JsString Queue}
    (hr : ∀ id, (Session.queue { s with queues := queues } id).running = (s.queue id).running) :
    Published { s with queues := queues } where
  one := h.one
  old := h.old
  single := h.single
  carries := fun id peer hp => by rw [hr]; exact h.carries id peer hp

theorem published_start {stream : Stream} (h : stream.Single) (participants : List JsString) :
    Published (Session.start stream participants) := by
  unfold Session.start
  generalize hs : (⟨OrderedMap.empty,OrderedMap.empty,[],stream,[],0,false⟩ : Session) = s
  have hpub : Published s := by
    subst hs
    exact ⟨by simp,by simp,h,by simp⟩
  clear hs
  induction participants generalizing s with
  | nil => exact hpub
  | cons id participants ih =>
    refine ih _ (hpub.queues ?_)
    intro j
    have hq := Session.queue_enqueue s id j .offer
    rw [Session.enqueue] at hq
    rw [hq]
    split
    · rename_i hj; rw [hj]
    · rfl

theorem Published.after (h : Published s) {id : JsString} {waiting : List Operation} {turn : Turn}
    (hturn : turn.peer.Carries s.target turn.awaits) :
    Published (s.after id waiting turn).1 where
  one := h.one
  old := h.old
  single := h.single
  carries := by
    have htarget : (s.after id waiting turn).1.target = s.target := target_congr rfl rfl
    intro j peer hp
    rw [htarget,Session.queue_after]
    rw [Session.peers_after] at hp
    split at hp
    · rename_i hj
      cases hp
      simpa [hj] using hturn
    · rename_i hj
      simpa [hj] using h.carries j peer hp

theorem Published.peer (h : Published s) {id : JsString} {peer : Peer}
    (hpeer : peer.Carries s.target (s.queue id).running) :
    Published { s with peers := s.peers.set id peer } where
  one := h.one
  old := h.old
  single := h.single
  carries := by
    intro j q hq
    rw [OrderedMap.get_set] at hq
    split at hq
    · rename_i hj
      cases hq
      exact hj ▸ hpeer
    · exact h.carries j q hq

theorem Published.enqueue (h : Published s) (id : JsString) (operation : Operation) :
    Published (s.enqueue id operation) := by
  refine h.queues (fun j => ?_)
  have hq := Session.queue_enqueue s id j operation
  rw [Session.enqueue] at hq
  rw [hq]
  split
  · rename_i hj; rw [hj]
  · rfl

theorem Published.answered (h : Published s) (n : Nat) (id : JsString) :
    Published (s.answered n id true).1 where
  one := by simpa [Session.answered] using h.one
  old := by
    simp only [Session.answered,if_true,List.mem_map]
    rintro _ ⟨r,hr,rfl⟩ k hk
    have hold := h.old r hr k
    split at hk <;> rename_i hn <;> simp only [hn,if_true,if_false] <;> exact hold hk
  single := h.single
  carries := by rw [target_answered]; exact h.carries

theorem Published.replaceTrack (h : Published s) {oldTrack newTrack : Option Track}
    (hp : s.Proper (.replaceTrack oldTrack newTrack)) :
    Published (s.replaceTrack oldTrack newTrack) where
  one := by simp [Session.replaceTrack,hp.1]
  old := by
    intro r hr k hk
    simp only [Session.replaceTrack,hp.1,List.nil_append,List.mem_singleton] at hr
    subst hr
    exact hp.2 k hk
  single := h.single
  carries := by
    intro id peer hpeer
    rw [Session.peers_replaceTrack,Option.map_eq_some_iff] at hpeer
    obtain ⟨peer,hpeer,rfl⟩ := hpeer
    have htarget : (s.replaceTrack oldTrack newTrack).target = fun k =>
        if some k = Replace.kind ⟨s.nextReplace,oldTrack,newTrack,[]⟩ then newTrack
        else s.target k := funext (target_replaceTrack hp.1 oldTrack newTrack)
    rw [htarget]
    exact carries_call (h.carries id peer hpeer)

theorem Published.publish (h : Published s) {r : Replace} (hr : r ∈ s.replaces) :
    Published (s.publish r) := by
  have hone : s.replaces = [r] := by
    have := h.one
    match hs : s.replaces with
    | [] => rw [hs] at hr; cases hr
    | [q] => rw [hs,List.mem_singleton] at hr; rw [hr]
    | q :: q' :: rest => rw [hs] at this; simp at this
  have hidle : (s.publish r).replaces = [] := by simp [Session.publish,hone]
  refine ⟨by simp [hidle],by simp [hidle],(publish_stream (h.old r hr) h.single).1,?_⟩
  rw [target_publish hone (h.old r hr) h.single]
  exact h.carries

theorem published_step (h : Published s) {e : SessionEvent} {out : List Output}
    (hp : s.Proper e) (hs : s.Steady e) (hstep : s.step e = some (t,out)) : Published t := by
  have hread : ∀ k ∈ s.reads e, s.localStream.ofKind k = s.target k := by
    intro k hk
    exact target_steady (hs k hk)
  cases session_effect hstep with
  | unheard => exact h
  | gathered | tracked | disconnected => exact h
  | rejected => cases hp
  | unassigned => cases hp
  | queued id signal hc => exact h.enqueue id _
  | begun id operation waiting peer hq ha hpeer =>
    have hcarries : peer.Carries s.target none := by
      cases hget : s.peers.get id with
      | none =>
        rw [hpeer,hget]
        intro k i u hi
        simp [Peer.new,Peer.senderIndex,Peer.kinds] at hi
      | some q =>
        have := h.carries id q hget
        rw [hpeer,hget]
        rwa [hq] at this
    refine h.after (carries_perform hcarries ?_)
    rintro rfl k
    exact hread k (by cases k <;> simp [Session.reads,hq,ha])
  | skipped id operation waiting hq ha =>
    refine h.queues (fun j => ?_)
    rw [Session.queue_set j rfl]
    split
    · rename_i hj; rw [hj,hq]
    · rfl
  | resumed id sdp kinds peer await hpeer hr hne =>
    have hcarries := h.carries id peer hpeer
    rw [hr] at hcarries
    refine h.after (carries_resume hcarries hne ?_)
    rintro k (⟨remote,rfl,hc,hk⟩ | ⟨c,rfl,hk⟩)
    · exact hread k (by simp [Session.reads,hpeer,hr,hc,hk])
    · exact hread k (by simp [Session.reads,hpeer,hr,hk])
  | assigned id index peer u track calls hpeer hu hc hr =>
    have hcarries := h.carries id peer hpeer
    rw [hr] at hcarries
    have hset := carries_settle hcarries hu hc
    refine h.after (carries_assign (carriesBelow_of_carries hset ?_) ?_)
    · intro i hi
      simp only [Await.Leaves,not_lt]
      omega
    · intro k hk
      rw [kinds_set hu] at hk
      exact hread k (by simp [Session.reads,hpeer,hu,hc,hk])
  | called id index ok peer u n track calls hpeer hu hc =>
    obtain rfl : ok = true := hp
    exact (h.peer (carries_settle (h.carries id peer hpeer) hu hc)).answered n id
  | orphaned n id ok hpeer =>
    obtain rfl : ok = true := hp
    exact h.answered n id
  | replacing oldTrack newTrack => exact h.replaceTrack hp
  | published r hr hw => exact h.publish (List.mem_of_find?_eq_some hr)
  | removed id =>
    refine ⟨h.one,h.old,h.single,fun j peer hj => ?_⟩
    rw [Session.peers_removePeer] at hj
    rw [Session.queue_removePeer]
    split at hj
    · cases hj
    · rename_i hne
      rw [if_neg hne]
      exact h.carries j peer hj
  | ended => exact ⟨h.one,h.old,h.single,fun j peer hj => by cases hj⟩

theorem Published.agrees (h : Published s) (hq : s.Quiescent) : s.Agrees := by
  obtain ⟨hreplaces,hqueues,hcalls⟩ := hq
  rintro ⟨id,peer⟩ hpeer _ k _ t ht
  have hget := (OrderedMap.get_eq_some_iff _ _ _).mpr hpeer
  have hrunning : (s.queue id).running = none := by
    cases hid : s.queues.get id with
    | none => simp [Session.queue,hid]
    | some q =>
      have hidle : q = ⟨none,[]⟩ := hqueues _ ((OrderedMap.get_eq_some_iff _ _ _).mp hid)
      simp [Session.queue,hid,hidle]
  obtain ⟨i,hi,hti⟩ := senderIndex_of_sender ht
  have hfinal := h.carries id peer hget k i t hi hti (by simp [hrunning,Await.Leaves])
  have hidle : t.calls = [] := hcalls _ hpeer t (List.mem_of_getElem? hti)
  rw [target_idle hreplaces] at hfinal
  simpa [Transceiver.final,hidle] using hfinal

end

/-- While calls of session.replaceTrack come one at a time and no browser call fails, every
quiescent state agrees, provided no operation takes from localStream a track whose
replacement by another is in flight. -/
theorem published_agreement {stream : Stream} (hstream : stream.Single)
    (participants : List JsString) {es : List SessionEvent} {s : Session}
    (hrun : Runs.exec Session.advance (Session.start stream participants) es = some s)
    (hproper : Runs.Along Session.advance Session.Proper (Session.start stream participants) es)
    (hsteady : Runs.Along Session.advance Session.Steady (Session.start stream participants) es)
    (hq : s.Quiescent) : s.Agrees := by
  have hstep : ∀ s e t, Published s → s.Proper e ∧ s.Steady e → s.advance e = some t →
      Published t := by
    intro s e t h he ht
    obtain ⟨⟨u,out⟩,hu,rfl⟩ := Option.map_eq_some_iff.mp ht
    exact published_step h he.1 he.2 hu
  exact (Runs.exec_invariant_along hstep (published_start hstream participants)
    (hproper.and hsteady) hrun).agrees hq

def answering (id : JsString) : List SessionEvent :=
  [.signal id (.offer (js "v=0")),.next id,.settle id [] [.audio,.video],
    .sender id 0 true,.sender id 1 true,.settle id [] [],.settle id (js "v=0") []]

def microphone : Track := ⟨0,.audio⟩
def camera : Track := ⟨1,.video⟩
def screen : Track := ⟨2,.video⟩

def lateJoiner : List SessionEvent :=
  answering (js "a") ++ [.replaceTrack (some camera) (some screen),.sender (js "a") 1 true,
    .replaced 0] ++ answering (js "b")

theorem published_agreement_late_joiner :
    ∃ s, Runs.exec Session.advance (Session.start [microphone,camera] []) lateJoiner = some s ∧
      s.peers.keys = [js "a",js "b"] ∧ s.Agrees := by
  have hrun : ((Runs.exec Session.advance (Session.start [microphone,camera] []) lateJoiner).filter
      (fun s => s.Quiescent ∧ s.peers.keys = [js "a",js "b"])).isSome := by decide +kernel
  obtain ⟨s,hs⟩ := Option.isSome_iff_exists.mp hrun
  obtain ⟨hs,hq⟩ := Option.filter_eq_some_iff.mp hs
  obtain ⟨hq,hk⟩ := of_decide_eq_true hq
  exact ⟨s,hs,hk,published_agreement (by decide) [] hs (by decide +kernel) (by decide +kernel) hq⟩

def joinerDuringShare : List SessionEvent :=
  answering (js "a") ++ [.replaceTrack (some camera) (some screen)] ++ answering (js "b") ++
    [.sender (js "a") 1 true,.replaced 0]

theorem published_agreement_during_share :
    ¬ ∀ (stream : Stream) (participants : List JsString) (es : List SessionEvent) (s : Session),
      stream.Single →
      Runs.exec Session.advance (Session.start stream participants) es = some s →
      Runs.Along Session.advance Session.Proper (Session.start stream participants) es →
      s.Quiescent → s.Agrees := by
  intro h
  have hrun : ((Runs.exec Session.advance (Session.start [microphone,camera] [])
      joinerDuringShare).filter (fun s => s.Quiescent ∧ ¬ s.Agrees)).isSome := by decide +kernel
  obtain ⟨s,hs⟩ := Option.isSome_iff_exists.mp hrun
  obtain ⟨hs,hq⟩ := Option.filter_eq_some_iff.mp hs
  obtain ⟨hq,hn⟩ := of_decide_eq_true hq
  exact hn (h _ [] _ s (by decide) hs (by decide +kernel) hq)

end MaiaMeet
