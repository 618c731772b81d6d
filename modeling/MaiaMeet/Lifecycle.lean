import MaiaMeet.KeyAgreement
set_option autoImplicit false

/-! The states of a transport over its whole life, whatever order its callbacks come in. -/

namespace MaiaMeet

namespace TransportState

/-- The place in the documented order. -/
def rank : TransportState → Nat
  | .NEW => 0
  | .ICE_GATHERING => 1
  | .ICE_CONNECTING => 2
  | .ICE_CONNECTED => 3
  | .DTLS_CONNECTING => 4
  | .DTLS_CONNECTED => 5
  | .SRTP_READY => 6
  | .CONNECTED => 7
  | .CLOSED => 8
  | .FAILED => 9

def terminal : TransportState → Bool
  | .CLOSED | .FAILED => true
  | _ => false

def Forward (a b : TransportState) : Prop := a = b ∨ (a.terminal = false ∧ a.rank < b.rank)

instance (a b : TransportState) : Decidable (Forward a b) :=
  inferInstanceAs (Decidable (_ ∨ _))

end TransportState

open TransportState Runs

def WebRtcTransport.Advances (lib : Libsrtp) (t : WebRtcTransport) (e : TransportEvent) : Prop :=
  List.IsChain Forward (t.state :: (t.react lib e).2.filterMap TransportOutput.newState)

/-- The event comes in its turn: gathering ends before anything else happens, ICE connects
before the handshake and not again, no handshake is completed, no failure reported and no
close called on a transport that is through. -/
def WebRtcTransport.InTurn (t : WebRtcTransport) : TransportEvent → Prop
  | .gatheringDone => t.state = .NEW ∨ t.state = .ICE_GATHERING
  | .iceState .CONNECTED _ => t.state.rank ≤ ICE_CONNECTED.rank
  | .iceState .FAILED _ => t.state ≠ .CLOSED
  | .close => t.state ≠ .FAILED
  | .data data handshake => t.completed (.data data handshake) = none ∨ t.state.terminal = false
  | _ => True

instance (t : WebRtcTransport) (e : TransportEvent) : Decidable (t.InTurn e) :=
  match e with
  | .gatheringDone => inferInstanceAs (Decidable (_ ∨ _))
  | .iceState .CONNECTED _ => inferInstanceAs (Decidable (_ ≤ _))
  | .iceState .FAILED _ | .close => inferInstanceAs (Decidable (¬ _))
  | .data _ _ => inferInstanceAs (Decidable (_ ∨ _))
  | .iceState .DISCONNECTED _ | .iceState .GATHERING _ | .iceState .CONNECTING _
  | .iceState .COMPLETED _ | .sendRtp _ | .sendRtcp _ | .onPublisherRtp => instDecidableTrue

namespace WebRtcTransport

variable {lib : Libsrtp} {t u : WebRtcTransport}

theorem advances_iff (e : TransportEvent) : t.Advances lib e ↔ t.InTurn e := by
  rw [Advances,(reaction lib t e).moves,moves]
  cases e with
  | gatheringDone =>
    cases hs : t.state <;> simp [TransportEvent.asks,completed,InTurn,hs,Forward,rank,terminal]
  | close =>
    cases hs : t.state <;> simp [TransportEvent.asks,completed,InTurn,hs,Forward,rank,terminal]
  | sendRtp | sendRtcp | onPublisherRtp => simp [TransportEvent.asks,completed,InTurn]
  | iceState state handshake =>
    cases state with
    | CONNECTED =>
      cases handshake <;> cases hs : t.state <;>
        simp [TransportEvent.asks,completed,InTurn,hs,Forward,rank,terminal]
    | FAILED =>
      cases hs : t.state <;> simp [TransportEvent.asks,completed,InTurn,hs,Forward,rank,terminal]
    | _ => simp [TransportEvent.asks,completed,InTurn]
  | data data handshake =>
    cases hc : t.completed (.data data handshake) with
    | none => simp [TransportEvent.asks,InTurn,hc]
    | some block =>
      cases hs : t.state <;> simp [TransportEvent.asks,InTurn,hc,hs,Forward,rank,terminal]

structure Forwards (lib : Libsrtp) (t : WebRtcTransport) : Prop where
  ready : t.srtp.initialized = true
  sends : ∀ data c, data.length ≤ 1400 → t.srtp.protect lib data = some c →
    (t.react lib (.sendRtp data)).2 = [.send c]
  sendsRtcp : ∀ data c, data.length ≤ 1400 → t.srtp.protectRtcp lib data = some c →
    (t.react lib (.sendRtcp data)).2 = [.send c]
  delivers : ∀ data c handshake, RtpPacket.isRtp data → data.length ≤ 1400 →
    t.rtpCallback = true → t.srtp.unprotect lib data = some c →
    (t.react lib (.data data handshake)).2 = [.rtp c]

theorem guarded_connected (h : t.state = .CONNECTED) {data : List UInt8}
    (hlen : data.length ≤ 1400) (f : List UInt8 → Option (List UInt8)) :
    t.guarded data f = f data := by
  simp [guarded,h,Nat.not_lt.mpr hlen]

theorem forwards_of_connected (hkeyed : t.Keyed) (h : t.state = .CONNECTED) :
    t.Forwards lib where
  ready := by
    obtain ⟨block,hblock⟩ := Option.isSome_iff_exists.mp (hkeyed.connected h)
    rw [hkeyed.srtp block (by rw [hblock]; rfl)]
    rfl
  sends := by
    intro data c hlen hc
    simp [react,sendRtp,guarded_connected h hlen,hc]
  sendsRtcp := by
    intro data c hlen hc
    simp [react,sendRtcp,guarded_connected h hlen,hc]
  delivers := by
    intro data c handshake hrtp hlen hcb hc
    simp [react_rtp hrtp,onRtp,guarded_connected h hlen,hcb,hc]

def quits : TransportEvent → Bool
  | .close | .iceState .FAILED _ => true
  | _ => false

/-- What an event in its turn may do to the state. -/
theorem react_inTurn (lib : Libsrtp) {e : TransportEvent} (h : t.InTurn e) :
    Forward t.state (t.react lib e).1.state ∧
      (t.state = .CONNECTED → quits e = false → (t.react lib e).1.state = .CONNECTED) := by
  rw [(reaction lib t e).state,moves]
  cases e with
  | gatheringDone | close =>
    cases hs : t.state <;>
      simp [InTurn,TransportEvent.asks,completed,Forward,rank,terminal,quits,hs] at h ⊢
  | sendRtp | sendRtcp | onPublisherRtp => exact ⟨Or.inl rfl,fun h _ => h⟩
  | iceState state handshake =>
    cases state with
    | CONNECTED =>
      cases handshake <;> cases hs : t.state <;>
        simp [InTurn,TransportEvent.asks,completed,Forward,rank,terminal,hs] at h ⊢
    | FAILED =>
      cases hs : t.state <;>
        simp [InTurn,TransportEvent.asks,completed,Forward,rank,terminal,quits,hs] at h ⊢
    | _ => exact ⟨Or.inl rfl,fun h _ => h⟩
  | data data handshake =>
    cases hc : t.completed (.data data handshake) with
    | none => exact ⟨Or.inl rfl,fun h _ => h⟩
    | some block =>
      cases hs : t.state <;>
        simp [InTurn,TransportEvent.asks,hc,Forward,rank,terminal,hs] at h ⊢

theorem forward_trans {a b c : TransportState} (h : Forward a b) (h' : Forward b c) :
    Forward a c := by
  rcases h with rfl | ⟨ht,hr⟩
  · exact h'
  · rcases h' with rfl | ⟨-,hr'⟩
    · exact Or.inr ⟨ht,hr⟩
    · exact Or.inr ⟨ht,by omega⟩

theorem forward_run {es : List TransportEvent} (h : exec (step lib) t es = some u)
    (hturn : Along (step lib) InTurn t es) :
    Forward t.state u.state ∧ (t.state = .CONNECTED → (∀ e ∈ es, quits e = false) →
      u.state = .CONNECTED) := by
  induction es generalizing t with
  | nil => cases h; exact ⟨Or.inl rfl,fun h _ => h⟩
  | cons e es ih =>
    obtain ⟨hforward,hstay⟩ := react_inTurn lib hturn.1
    obtain ⟨hrun,hlive⟩ := ih h (hturn.2 _ rfl)
    refine ⟨forward_trans hforward hrun,fun hstate hes => ?_⟩
    obtain ⟨he,hes⟩ := List.forall_mem_cons.mp hes
    exact hlive (hstay hstate he) hes

end WebRtcTransport

/-- A transport's state only moves forward in exactly the runs whose events come in their
turn. In these runs CLOSED and FAILED are final, a connected transport forwards media until
it is closed or fails, and a closed one passes nothing. -/
theorem transport_lifecycle (lib : Libsrtp) (es : List TransportEvent) :
    (Along (WebRtcTransport.step lib) (WebRtcTransport.Advances lib) WebRtcTransport.new es ↔
      Along (WebRtcTransport.step lib) WebRtcTransport.InTurn WebRtcTransport.new es) ∧
    (Along (WebRtcTransport.step lib) WebRtcTransport.InTurn WebRtcTransport.new es →
      ∀ pre post t u, es = pre ++ post →
        exec (WebRtcTransport.step lib) WebRtcTransport.new pre = some t →
        exec (WebRtcTransport.step lib) t post = some u →
        Forward t.state u.state ∧
        (t.state = .CONNECTED → (∀ e ∈ post, WebRtcTransport.quits e = false) →
          u.state = .CONNECTED ∧ u.Forwards lib) ∧
        (t.state = .CLOSED → ∀ e, ∀ o ∈ (u.react lib e).2, o.media = false)) := by
  refine ⟨along_congr (fun t e => t.advances_iff e),?_⟩
  rintro hturn pre post t u rfl ht hu
  obtain ⟨hforward,hlive⟩ :=
    WebRtcTransport.forward_run hu ((along_append ht).mp hturn).2
  refine ⟨hforward,fun hstate hpost => ?_,fun hstate => ?_⟩
  · have hkeyed := WebRtcTransport.keyed_run (exec_append_some.mpr ⟨t,ht,hu⟩)
    have hconn := hlive hstate hpost
    exact ⟨hconn,WebRtcTransport.forwards_of_connected hkeyed hconn⟩
  · rw [hstate] at hforward
    apply WebRtcTransport.quiet
    rcases hforward with h | ⟨h,-⟩
    · rw [← h]; decide
    · cases h

/-- A whole life in turn: the transport connects, forwards, is closed, and passes nothing
of what still comes. -/
theorem transport_lifecycle_closed :
    Along (WebRtcTransport.step taggingLib) WebRtcTransport.InTurn WebRtcTransport.new
        (.gatheringDone :: sampleEvents ++ [.close,.data [22] none]) ∧
      ∃ t u, exec (WebRtcTransport.step taggingLib) WebRtcTransport.new
          (.gatheringDone :: sampleEvents ++ [.close]) = some t ∧
        exec (WebRtcTransport.step taggingLib) t [.data [22] none] = some u ∧
        t.state = .CLOSED ∧ ∀ e, ∀ o ∈ (u.react taggingLib e).2, o.media = false := by
  have hturn : Along (WebRtcTransport.step taggingLib) WebRtcTransport.InTurn WebRtcTransport.new
      (.gatheringDone :: sampleEvents ++ [.close,.data [22] none]) := by decide +kernel
  refine ⟨hturn,{ sampleTransport with state := .CLOSED },_,rfl,rfl,rfl,?_⟩
  exact ((transport_lifecycle taggingLib _).2 hturn (.gatheringDone :: sampleEvents ++ [.close])
    [.data [22] none] _ _ rfl rfl rfl).2.2 rfl

/-- Gathering that ends on a connected transport takes it back, and nothing passes then. -/
theorem transport_lifecycle_late_gathering :
    ¬ Along (WebRtcTransport.step taggingLib) (WebRtcTransport.Advances taggingLib)
        WebRtcTransport.new (sampleEvents ++ [.gatheringDone]) ∧
      ∃ t u, exec (WebRtcTransport.step taggingLib) WebRtcTransport.new sampleEvents = some t ∧
        t.state = .CONNECTED ∧ t.step taggingLib .gatheringDone = some u ∧
        u.state = .ICE_GATHERING ∧ ∀ e, ∀ o ∈ (u.react taggingLib e).2, o.media = false := by
  constructor
  · rw [along_congr (fun t e => t.advances_iff e)]
    decide +kernel
  · refine ⟨sampleTransport,_,sample_run,rfl,rfl,rfl,WebRtcTransport.quiet ?_⟩
    decide

end MaiaMeet
