import MaiaMeet.KeyAgreement
set_option autoImplicit false

/-! How often a transport is keyed: the handshake is driven from ICE and from DTLS datagrams. -/

namespace MaiaMeet

namespace WebRtcTransport

/-- The calls of `SrtpContext::init` in a run: each is followed by the transition to
CONNECTED, which nothing else makes. -/
def inits (lib : Libsrtp) (t : WebRtcTransport) (es : List TransportEvent) : Nat :=
  (Runs.trace (step lib) (fun t e => (t.react lib e).2) t es).count (.transition .CONNECTED)

/-- `SSL_do_handshake` goes on returning 1 once it has. -/
def Lasting (t : WebRtcTransport) : TransportEvent → Prop
  | .iceState .CONNECTED handshake => t.dtls.handshakeDone = true → handshake.isSome = true
  | _ => True

def Unkeyed (t : WebRtcTransport) : TransportEvent → Prop
  | .iceState .CONNECTED _ => t.dtls.handshakeDone = false
  | _ => True

def keyed (t : WebRtcTransport) : Nat := if t.dtls.handshakeDone then 1 else 0

variable {lib : Libsrtp} {t u : WebRtcTransport}

theorem count_connected (out : List TransportOutput) :
    out.count (.transition .CONNECTED) =
      (out.filterMap TransportOutput.newState).count .CONNECTED := by
  induction out with
  | nil => rfl
  | cons o out ih =>
    cases o with
    | transition newState => cases newState <;> simp [TransportOutput.newState,ih]
    | send data | rtp data =>
      rw [List.filterMap_cons_none rfl,List.count_cons_of_ne (by simp),ih]

theorem count_asks (e : TransportEvent) : e.asks.toList.count .CONNECTED = 0 := by
  cases e with
  | iceState state handshake => cases state <;> rfl
  | _ => rfl

/-- An event keys the transport if it completes a handshake, and else does not. -/
theorem count_react (e : TransportEvent) :
    (t.react lib e).2.count (.transition .CONNECTED) = (t.completed e).toList.length := by
  rw [count_connected,(reaction lib t e).moves,moves,List.count_append,count_asks]
  cases t.completed e <;> rfl

theorem react_done (e : TransportEvent) : (t.react lib e).1.dtls.handshakeDone =
    (t.dtls.handshakeDone || (t.completed e).isSome) := by
  cases e with
  | gatheringDone | sendRtp | sendRtcp | onPublisherRtp | close => exact (Bool.or_false _).symm
  | iceState state handshake =>
    cases state with
    | CONNECTED =>
      cases handshake with
      | none => exact (Bool.or_false _).symm
      | some block => exact (Bool.or_true _).symm
    | _ => exact (Bool.or_false _).symm
  | data data handshake =>
    cases data with
    | nil => exact (Bool.or_false _).symm
    | cons b bytes =>
      by_cases hdtls : (b ≥ 20 && b ≤ 63) = true
      · cases hdone : t.dtls.handshakeDone <;> cases handshake <;>
          simp [react,classifyAndDispatch,feedData,completed,hdtls,hdone,doHandshake,
            onDtlsHandshakeComplete,transition]
      · have hsame : (t.react lib (.data (b :: bytes) handshake)).1 = t := by
          rw [react,classifyAndDispatch,if_neg hdtls]
          repeat' split
          all_goals rfl
        have hnone : t.completed (.data (b :: bytes) handshake) = none := by simp [completed,hdtls]
        rw [hsame,hnone]
        exact (Bool.or_false _).symm

theorem completed_done (hdone : t.dtls.handshakeDone = true) {e : TransportEvent}
    (hssl : t.Lasting e) : (t.completed e).toList.length = 0 ↔ t.Unkeyed e := by
  cases e with
  | gatheringDone | sendRtp | sendRtcp | onPublisherRtp | close => simp [completed,Unkeyed]
  | iceState state handshake =>
    cases state with
    | CONNECTED =>
      obtain ⟨block,rfl⟩ := Option.isSome_iff_exists.mp (hssl hdone)
      simp [completed,Unkeyed,hdone]
    | _ => simp [completed,Unkeyed]
  | data data handshake =>
    cases data with
    | nil => simp [completed,Unkeyed]
    | cons b bytes => simp [completed,Unkeyed,hdone]

theorem inits_cons (t : WebRtcTransport) (e : TransportEvent) (es : List TransportEvent) :
    inits lib t (e :: es) = (t.completed e).toList.length + inits lib (t.react lib e).1 es := by
  rw [inits,Runs.trace,List.count_append,count_react]
  rfl

/-- A keyed transport and the rest of its run: it is keyed no more exactly if ICE does not
report CONNECTED then. -/
theorem inits_le_one {es : List TransportEvent} (hssl : Runs.Along (step lib) Lasting t es) :
    t.keyed + inits lib t es ≤ 1 ↔ Runs.Along (step lib) Unkeyed t es := by
  induction es generalizing t with
  | nil =>
    have hkeyed : t.keyed ≤ 1 := by unfold keyed; split <;> omega
    simp [inits,Runs.trace,Runs.Along,hkeyed]
  | cons e es ih =>
    have hrest := ih (hssl.2 _ rfl)
    have hstep : Runs.Along (step lib) Unkeyed t (e :: es) ↔
        t.Unkeyed e ∧ Runs.Along (step lib) Unkeyed (t.react lib e).1 es := by
      simp [Runs.Along,step]
    rw [inits_cons,hstep,← hrest,keyed,keyed,react_done]
    cases hdone : t.dtls.handshakeDone with
    | true =>
      rw [← completed_done hdone hssl.1]
      simp only [Bool.true_or,if_true]
      omega
    | false =>
      have hfresh : t.Unkeyed e := by
        cases e with
        | iceState state handshake => cases state <;> first | exact hdone | trivial
        | _ => trivial
      cases t.completed e <;> simp [hfresh]

theorem srtp_kept {es : List TransportEvent} (hdone : t.dtls.handshakeDone = true)
    (hssl : Runs.Along (step lib) Lasting t es) (hfresh : Runs.Along (step lib) Unkeyed t es)
    (h : Runs.exec (step lib) t es = some u) : u.srtp = t.srtp := by
  induction es generalizing t with
  | nil => cases h; rfl
  | cons e es ih =>
    obtain ⟨v,hv,hu⟩ := Runs.exec_cons_some.mp h
    cases hv
    have hnone : t.completed e = none := by
      have hzero := (completed_done hdone hssl.1).mpr hfresh.1
      cases hc : t.completed e with
      | none => rfl
      | some block => simp [hc] at hzero
    rw [ih (by rw [react_done,hdone,Bool.true_or]) (hssl.2 _ rfl) (hfresh.2 _ rfl) hu,
      (reaction lib t e).srtp,hnone]
    rfl

end WebRtcTransport

open WebRtcTransport

/-- A transport is keyed at most once exactly if ICE never reports CONNECTED after the
handshake, and then its sessions stay those of the handshake. -/
theorem keyed_once {lib : Libsrtp} {es : List TransportEvent}
    (hssl : Runs.Along (step lib) Lasting new es) :
    (inits lib new es ≤ 1 ↔ Runs.Along (step lib) Unkeyed new es) ∧
      (Runs.Along (step lib) Unkeyed new es → ∀ fs gs t u, es = fs ++ gs →
        Runs.exec (step lib) new fs = some t → t.dtls.handshakeDone = true →
        Runs.exec (step lib) new es = some u → u.srtp = t.srtp) := by
  constructor
  · have hnew : (new.keyed) = 0 := rfl
    rw [← inits_le_one hssl,hnew,Nat.zero_add]
  · rintro hfresh fs gs t u rfl ht hdone hu
    obtain ⟨t',ht',hgs⟩ := Runs.exec_append_some.mp hu
    obtain rfl : t = t' := Option.some.inj (ht.symm.trans ht')
    exact srtp_kept hdone ((Runs.along_append ht).mp hssl).2 ((Runs.along_append ht).mp hfresh).2 hgs

/-- ICE connects once, and the handshake ends with a datagram. -/
theorem keyed_once_datagram : inits taggingLib new sampleEvents ≤ 1 := by
  refine (keyed_once ?_).1.mpr ?_ <;> simp [sampleEvents,Runs.Along,Lasting,Unkeyed,new,step,react]

/-- ICE reports CONNECTED again over a connected transport: both sessions are made anew. -/
theorem keyed_twice : ∃ es : List TransportEvent,
    Runs.Along (step taggingLib) Lasting new es ∧ ¬ inits taggingLib new es ≤ 1 := by
  refine ⟨[.iceState .CONNECTED none,.data [22] (some sampleBlock),
    .iceState .CONNECTED (some sampleBlock)],?_,by decide⟩
  simp [Runs.Along,Lasting,new,step,react]

end MaiaMeet
