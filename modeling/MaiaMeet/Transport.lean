import MaiaMeet.Rtp
import MaiaMeet.Runs
set_option autoImplicit false

/-!
WebRtcTransport of the SFU with its DtlsTransport and SrtpContext. libjuice and OpenSSL
stand outside: their callbacks are events, and an event in which OpenSSL runs the handshake
says whether the handshake is complete then, and what it exports.
-/

namespace MaiaMeet

inductive TransportState where
  | NEW | ICE_GATHERING | ICE_CONNECTING | ICE_CONNECTED
  | DTLS_CONNECTING | DTLS_CONNECTED | SRTP_READY | CONNECTED | CLOSED | FAILED
  deriving DecidableEq, Repr

inductive JuiceState where
  | DISCONNECTED | GATHERING | CONNECTING | CONNECTED | COMPLETED | FAILED
  deriving DecidableEq, Repr

/-- What `SSL_export_keying_material` fills. -/
structure KeyBlock where
  mat : List UInt8
  size : mat.length = 60
  deriving DecidableEq

structure KeyingMaterial where
  clientKey : List UInt8
  clientSalt : List UInt8
  serverKey : List UInt8
  serverSalt : List UInt8

def extractKeyingMaterial (b : KeyBlock) : KeyingMaterial where
  clientKey := Bytes.slice b.mat 0 16
  serverKey := Bytes.slice b.mat 16 16
  clientSalt := Bytes.slice b.mat 32 14
  serverSalt := Bytes.slice b.mat 46 14

/-- libsrtp under a master key and salt, `none` for a status other than ok. -/
structure Libsrtp where
  protect : List UInt8 → List UInt8 → Option (List UInt8)
  unprotect : List UInt8 → List UInt8 → Option (List UInt8)
  protectRtcp : List UInt8 → List UInt8 → Option (List UInt8)

structure SrtpContext where
  sendSession : Option (List UInt8)
  recvSession : Option (List UInt8)
  initialized : Bool
  deriving DecidableEq

namespace SrtpContext

def new : SrtpContext := ⟨none,none,false⟩

def init (km : KeyingMaterial) (isClient : Bool) : SrtpContext :=
  let recvKey := if isClient then km.clientKey ++ km.clientSalt else km.serverKey ++ km.serverSalt
  let sendKey := if isClient then km.serverKey ++ km.serverSalt else km.clientKey ++ km.clientSalt
  ⟨some sendKey,some recvKey,true⟩

variable (lib : Libsrtp) (srtp : SrtpContext) (buf : List UInt8)

def protect : Option (List UInt8) :=
  if !srtp.initialized then none else srtp.sendSession.bind (fun key => lib.protect key buf)

def unprotect : Option (List UInt8) :=
  if !srtp.initialized then none else srtp.recvSession.bind (fun key => lib.unprotect key buf)

def protectRtcp : Option (List UInt8) :=
  if !srtp.initialized then none else srtp.sendSession.bind (fun key => lib.protectRtcp key buf)

end SrtpContext

/-- `exported` is what the SSL object exports once its handshake is done. -/
structure DtlsTransport where
  handshakeDone : Bool
  exported : Option KeyBlock
  deriving DecidableEq

structure WebRtcTransport where
  state : TransportState
  dtls : DtlsTransport
  srtp : SrtpContext
  rtpCallback : Bool
  deriving DecidableEq

/-- What a transport does for others to see: the states it enters, the packets it sends,
and those it hands to its publisher callback. -/
inductive TransportOutput where
  | transition (newState : TransportState)
  | send (data : List UInt8)
  | rtp (data : List UInt8)
  deriving DecidableEq

inductive TransportEvent where
  | gatheringDone
  | iceState (state : JuiceState) (handshake : Option KeyBlock)
  | data (data : List UInt8) (handshake : Option KeyBlock)
  | sendRtp (data : List UInt8)
  | sendRtcp (data : List UInt8)
  | onPublisherRtp
  | close

namespace WebRtcTransport

def new : WebRtcTransport := ⟨.NEW,⟨false,none⟩,.new,false⟩

def transition (t : WebRtcTransport) (newState : TransportState) :
    WebRtcTransport × List TransportOutput :=
  ({ t with state := newState },[.transition newState])

def onDtlsHandshakeComplete (t : WebRtcTransport) (km : KeyingMaterial) :
    WebRtcTransport × List TransportOutput :=
  ({ t with srtp := .init km false }).transition .CONNECTED

/-- `SSL_do_handshake` returns 1 in the case of `some`. -/
def doHandshake (t : WebRtcTransport) : Option KeyBlock → WebRtcTransport × List TransportOutput
  | some block =>
    ({ t with dtls := ⟨true,some block⟩ }).onDtlsHandshakeComplete (extractKeyingMaterial block)
  | none => (t,[])

def feedData (t : WebRtcTransport) (handshake : Option KeyBlock) :
    WebRtcTransport × List TransportOutput :=
  if !t.dtls.handshakeDone then t.doHandshake handshake else (t,[])

def onIceStateChange (t : WebRtcTransport) (state : JuiceState) (handshake : Option KeyBlock) :
    WebRtcTransport × List TransportOutput :=
  if state = .CONNECTED then
    let (t,entered) := t.transition .ICE_CONNECTED
    let (t,out) := t.doHandshake handshake
    (t,entered ++ out)
  else if state = .FAILED then t.transition .FAILED
  else (t,[])

variable (lib : Libsrtp) (t : WebRtcTransport)

/-- The body that sendRtp, sendRtcp and onRtp share: the buffer that libsrtp turned the
packet into, if they come so far. -/
def guarded (data : List UInt8) (transform : List UInt8 → Option (List UInt8)) :
    Option (List UInt8) :=
  if t.state ≠ .CONNECTED then none
  else if data.length > 1400 then none
  else transform data

def sendRtp (data : List UInt8) : List TransportOutput :=
  ((t.guarded data (t.srtp.protect lib)).map .send).toList

def sendRtcp (data : List UInt8) : List TransportOutput :=
  ((t.guarded data (t.srtp.protectRtcp lib)).map .send).toList

def onRtp (data : List UInt8) : List TransportOutput :=
  if t.rtpCallback then ((t.guarded data (t.srtp.unprotect lib)).map .rtp).toList else []

/-- An RTCP packet is unprotected and dropped, like what is neither. -/
def classifyAndDispatch (data : List UInt8) (handshake : Option KeyBlock) :
    WebRtcTransport × List TransportOutput :=
  match data with
  | [] => (t,[])
  | b :: _ =>
    if b ≥ 20 && b ≤ 63 then t.feedData handshake
    else if b ≥ 128 && b ≤ 191 then
      if RtpPacket.isRtp data then (t,t.onRtp lib data) else (t,[])
    else (t,[])

def react : TransportEvent → WebRtcTransport × List TransportOutput
  | .gatheringDone => t.transition .ICE_GATHERING
  | .iceState state handshake => t.onIceStateChange state handshake
  | .data data handshake => t.classifyAndDispatch lib data handshake
  | .sendRtp data => (t,t.sendRtp lib data)
  | .sendRtcp data => (t,t.sendRtcp lib data)
  | .onPublisherRtp => ({ t with rtpCallback := true },[])
  | .close => t.transition .CLOSED

def step (e : TransportEvent) : Option WebRtcTransport := some (t.react lib e).1

end WebRtcTransport

def WebRtcTransport.completed (t : WebRtcTransport) : TransportEvent → Option KeyBlock
  | .iceState state handshake => if state = .CONNECTED then handshake else none
  | .data (b :: _) handshake =>
    if (b ≥ 20 && b ≤ 63) && !t.dtls.handshakeDone then handshake else none
  | _ => none

def TransportEvent.asks : TransportEvent → Option TransportState
  | .gatheringDone => some .ICE_GATHERING
  | .iceState .CONNECTED _ => some .ICE_CONNECTED
  | .iceState .FAILED _ => some .FAILED
  | .close => some .CLOSED
  | _ => none

def TransportOutput.newState : TransportOutput → Option TransportState
  | .transition newState => some newState
  | _ => none

def TransportOutput.media : TransportOutput → Bool
  | .transition _ => false
  | _ => true

namespace WebRtcTransport

variable {lib : Libsrtp} {t : WebRtcTransport}

def moves (t : WebRtcTransport) (e : TransportEvent) : List TransportState :=
  e.asks.toList ++ (t.completed e).toList.map (fun _ => .CONNECTED)

theorem filterMap_newState {out : List TransportOutput} (h : ∀ o ∈ out, o.media) :
    out.filterMap TransportOutput.newState = [] := by
  apply List.filterMap_eq_nil_iff.mpr
  intro o ho
  have := h o ho
  cases o <;> first | rfl | cases this

theorem media_of_mem {buf : Option (List UInt8)} {out : List UInt8 → TransportOutput}
    (hout : ∀ data, (out data).media) : ∀ o ∈ (buf.map out).toList, o.media := by
  intro o ho
  cases buf with
  | none => cases ho
  | some data => rw [List.mem_singleton.mp ho]; exact hout data

theorem onRtp_media {data : List UInt8} : ∀ o ∈ t.onRtp lib data, o.media := by
  unfold onRtp
  split
  · exact media_of_mem (fun _ => rfl)
  · simp

structure Reaction (lib : Libsrtp) (t : WebRtcTransport) (e : TransportEvent) : Prop where
  moves : (t.react lib e).2.filterMap TransportOutput.newState = t.moves e
  state : (t.react lib e).1.state = (t.moves e).getLastD t.state
  srtp : (t.react lib e).1.srtp = (t.completed e).elim t.srtp
    (fun block => .init (extractKeyingMaterial block) false)
  exported : (t.react lib e).1.dtls.exported = (t.completed e).or t.dtls.exported
  callback : t.rtpCallback = true → (t.react lib e).1.rtpCallback = true

theorem reaction (lib : Libsrtp) (t : WebRtcTransport) (e : TransportEvent) :
    Reaction lib t e := by
  cases e with
  | gatheringDone | close | onPublisherRtp => exact ⟨rfl,rfl,rfl,rfl,fun h => by first | rfl | exact h⟩
  | sendRtp data => exact ⟨filterMap_newState (media_of_mem fun _ => rfl),rfl,rfl,rfl,id⟩
  | sendRtcp data => exact ⟨filterMap_newState (media_of_mem fun _ => rfl),rfl,rfl,rfl,id⟩
  | iceState state handshake =>
    cases state with
    | CONNECTED => cases handshake <;> exact ⟨rfl,rfl,rfl,rfl,id⟩
    | _ => exact ⟨rfl,rfl,rfl,rfl,id⟩
  | data data handshake =>
    cases data with
    | nil => exact ⟨rfl,rfl,rfl,rfl,id⟩
    | cons b bytes =>
      have hreact : t.react lib (.data (b :: bytes) handshake) =
        t.classifyAndDispatch lib (b :: bytes) handshake := rfl
      by_cases hdtls : (b ≥ 20 && b ≤ 63) = true
      · rw [classifyAndDispatch,if_pos hdtls,feedData] at hreact
        cases hdone : t.dtls.handshakeDone with
        | true =>
          have hnone : t.completed (.data (b :: bytes) handshake) = none := by
            simp [completed,hdone]
          rw [hdone] at hreact
          constructor <;> simp [hreact,hnone,WebRtcTransport.moves,TransportEvent.asks]
        | false =>
          have hcomp : t.completed (.data (b :: bytes) handshake) = handshake := by
            simp only [completed,hdtls,hdone]
            rfl
          rw [hdone] at hreact
          cases handshake with
          | none =>
            constructor <;> simp [hreact,hcomp,WebRtcTransport.moves,TransportEvent.asks,
              doHandshake]
          | some block =>
            constructor <;> simp [hreact,hcomp,WebRtcTransport.moves,TransportEvent.asks,
              doHandshake,onDtlsHandshakeComplete,transition,TransportOutput.newState]
      · have hnone : t.completed (.data (b :: bytes) handshake) = none := by
          simp only [completed,hdtls]
          rfl
        rw [classifyAndDispatch,if_neg hdtls] at hreact
        have hmoves : t.moves (.data (b :: bytes) handshake) = [] := by
          simp [WebRtcTransport.moves,TransportEvent.asks,hnone]
        have hquiet : (t.react lib (.data (b :: bytes) handshake)).1 = t ∧
            ∀ o ∈ (t.react lib (.data (b :: bytes) handshake)).2, o.media := by
          rw [hreact]
          repeat' split
          · exact ⟨rfl,onRtp_media⟩
          all_goals exact ⟨rfl,by simp⟩
        obtain ⟨hsame,hout⟩ := hquiet
        constructor
        · rw [filterMap_newState hout,hmoves]
        all_goals rw [hsame]
        · rw [hmoves]; rfl
        · rw [hnone]; rfl
        · rw [hnone]; rfl
        · exact id

end WebRtcTransport

section
open RtpPacket

theorem media_byte {b : UInt8} (h : b >>> 6 = 2) :
    (b ≥ 20 && b ≤ 63) = false ∧ (b ≥ 128 && b ≤ 191) = true := by
  have hall : ∀ n : Fin 256, (UInt8.ofNat n) >>> 6 = 2 →
      ((UInt8.ofNat n) ≥ 20 && (UInt8.ofNat n) ≤ 63) = false ∧
        ((UInt8.ofNat n) ≥ 128 && (UInt8.ofNat n) ≤ 191) = true := by decide +kernel
  have hb := hall ⟨b.toNat,b.toNat_lt⟩
  simp only [UInt8.ofNat_toNat] at hb
  exact hb h

theorem react_rtp {lib : Libsrtp} {t : WebRtcTransport} {data : List UInt8}
    {handshake : Option KeyBlock} (h : isRtp data) : (t.react lib (.data data handshake)).2 = t.onRtp lib data := by
  cases data with
  | nil => simp [isRtp,MIN_HEADER_SIZE] at h
  | cons b bytes =>
    have hversion : b >>> 6 = 2 := by
      have := h
      simp only [isRtp,Bool.and_eq_true,beq_iff_eq] at this
      exact this.1.2
    obtain ⟨hdtls,hmedia⟩ := media_byte hversion
    simp only [WebRtcTransport.react,WebRtcTransport.classifyAndDispatch,hdtls,hmedia,h]
    rfl

end

namespace WebRtcTransport

variable {lib : Libsrtp} {t : WebRtcTransport}

theorem quiet (h : t.state ≠ .CONNECTED) (e : TransportEvent) :
    ∀ o ∈ (t.react lib e).2, o.media = false := by
  intro o ho
  have hnone (data : List UInt8) (f : List UInt8 → Option (List UInt8)) :
    t.guarded data f = none := if_pos h
  cases e with
  | gatheringDone | close => rw [List.mem_singleton.mp ho]; rfl
  | onPublisherRtp => cases ho
  | sendRtp data | sendRtcp data => simp [react,sendRtp,sendRtcp,hnone] at ho
  | iceState state handshake =>
    cases state with
    | CONNECTED =>
      cases handshake with
      | none => rw [List.mem_singleton.mp ho]; rfl
      | some block =>
        rcases List.mem_cons.mp ho with rfl | ho
        · rfl
        · rw [List.mem_singleton.mp ho]; rfl
    | FAILED => rw [List.mem_singleton.mp ho]; rfl
    | _ => cases ho
  | data data handshake =>
    have hrtp : t.onRtp lib data = [] := by simp [onRtp,hnone]
    cases data with
    | nil => cases ho
    | cons b bytes =>
      simp only [react,classifyAndDispatch,hrtp] at ho
      split at ho
      · unfold feedData at ho
        split at ho
        · cases handshake with
          | none => cases ho
          | some block => rw [List.mem_singleton.mp ho]; rfl
        · cases ho
      · repeat' split at ho
        all_goals cases ho

/-- The SRTP sessions of a transport are those of its last handshake, and without one it
is not connected. -/
structure Keyed (t : WebRtcTransport) : Prop where
  srtp : ∀ block ∈ t.dtls.exported, t.srtp = .init (extractKeyingMaterial block) false
  connected : t.state = .CONNECTED → t.dtls.exported.isSome

theorem keyed_react (h : t.Keyed) (e : TransportEvent) : (t.react lib e).1.Keyed := by
  have hreact := reaction lib t e
  refine ⟨fun block hblock => ?_,fun hstate => ?_⟩
  · rw [hreact.exported] at hblock
    rw [hreact.srtp]
    cases hc : t.completed e with
    | none => exact h.srtp block (by simpa [hc] using hblock)
    | some b =>
      have hb : b = block := by simpa [hc] using hblock
      rw [hb]
      rfl
  · rw [hreact.exported]
    rw [hreact.state,WebRtcTransport.moves] at hstate
    cases hc : t.completed e with
    | some b => rfl
    | none =>
      rw [hc] at hstate
      cases ha : e.asks with
      | none => exact h.connected (by simpa [ha] using hstate)
      | some s =>
        have hs : s = .CONNECTED := by simpa [ha] using hstate
        subst hs
        cases e with
        | iceState state handshake => cases state <;> cases ha
        | _ => cases ha

theorem keyed_run {es : List TransportEvent} (h : Runs.exec (step lib) new es = some t) :
    t.Keyed := by
  refine Runs.exec_invariant ?_ ⟨fun _ hb => (by cases hb),fun hs => (by cases hs)⟩ h
  intro s e u hs hu
  cases hu
  exact keyed_react hs e

end WebRtcTransport

end MaiaMeet
