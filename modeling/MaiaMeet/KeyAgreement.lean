import MaiaMeet.Transport
set_option autoImplicit false

/-! Which half of the exported block each side uses. The browser is the DTLS client: it
protects with the client's key and salt and unprotects with the server's. -/

namespace MaiaMeet

namespace KeyBlock

def clientWrite (b : KeyBlock) : List UInt8 := Bytes.slice b.mat 0 16 ++ Bytes.slice b.mat 32 14

def serverWrite (b : KeyBlock) : List UInt8 := Bytes.slice b.mat 16 16 ++ Bytes.slice b.mat 46 14

end KeyBlock

/-- libsrtp under the given keys: what one key protects only this key unprotects, the fixed
header stays in place and 10 bytes of authentication data are added. A packet with nothing
but the fixed header and a payload is always protected. -/
structure Libsrtp.Works (lib : Libsrtp) (keys : List (List UInt8)) : Prop where
  inverts : ∀ key ∈ keys, ∀ data c, lib.protect key data = some c →
    lib.unprotect key c = some data
  tells : ∀ key ∈ keys, ∀ key' ∈ keys, key ≠ key' → ∀ data c, lib.protect key data = some c →
    lib.unprotect key' c = none
  header : ∀ key ∈ keys, ∀ data c, lib.protect key data = some c →
    c.length = data.length+10 ∧ c.take 12 = data.take 12
  accepts : ∀ key ∈ keys, ∀ data, 12 ≤ data.length → data.length ≤ 1390 →
    RtpPacket.byte data 0 = 0x80 → (lib.protect key data).isSome

structure WebRtcTransport.Agrees (lib : Libsrtp) (t : WebRtcTransport) (b : KeyBlock) : Prop where
  inbound : ∀ data c handshake, RtpPacket.isRtp data → data.length ≤ 1390 →
    lib.protect b.clientWrite data = some c → (t.react lib (.data c handshake)).2 = [.rtp data]
  outbound : ∀ data c, .send c ∈ (t.react lib (.sendRtp data)).2 →
    lib.unprotect b.serverWrite c = some data

section
variable {data c : List UInt8}
open RtpPacket

theorem byte_of_take (h : c.take 12 = data.take 12) {i : Nat} (hi : i < 12) :
    byte c i = byte data i := by
  have hget : (c.take 12)[i]? = (data.take 12)[i]? := by rw [h]
  rw [List.getElem?_take_of_lt hi,List.getElem?_take_of_lt hi] at hget
  rw [byte,byte,List.getD_eq_getElem?_getD,List.getD_eq_getElem?_getD,hget]

theorem isRtp_of_take (h : c.take 12 = data.take 12) (hlen : data.length ≤ c.length)
    (hrtp : isRtp data) : isRtp c := by
  unfold isRtp version payloadType at hrtp ⊢
  rw [byte_of_take h (by omega),byte_of_take h (by omega)]
  simp only [Bool.and_eq_true,decide_eq_true_eq] at hrtp ⊢
  exact ⟨⟨by omega,hrtp.1.2⟩,hrtp.2⟩

end

/-- The sessions a finished handshake leaves: the server's pair inbound, the client's outbound. -/
theorem init_sessions (b : KeyBlock) : SrtpContext.init (extractKeyingMaterial b) false =
    ⟨some b.clientWrite,some b.serverWrite,true⟩ := rfl

section
variable {lib : Libsrtp} {t : WebRtcTransport} {b : KeyBlock}

theorem onRtp_connected (hstate : t.state = .CONNECTED) (hcb : t.rtpCallback = true)
    (hsrtp : t.srtp = ⟨some b.clientWrite,some b.serverWrite,true⟩) {data : List UInt8}
    (hlen : data.length ≤ 1400) :
    t.onRtp lib data = ((lib.unprotect b.serverWrite data).map .rtp).toList := by
  simp [WebRtcTransport.onRtp,WebRtcTransport.guarded,SrtpContext.unprotect,hstate,hcb,hsrtp,
    Nat.not_lt.mpr hlen]

theorem sendRtp_connected (hsrtp : t.srtp = ⟨some b.clientWrite,some b.serverWrite,true⟩)
    {data c : List UInt8} (h : .send c ∈ t.sendRtp lib data) :
    lib.protect b.clientWrite data = some c := by
  simp only [WebRtcTransport.sendRtp,Option.mem_toList,Option.map_eq_some_iff,
    TransportOutput.send.injEq,exists_eq_right,WebRtcTransport.guarded] at h
  simp only [ite_not,hsrtp,SrtpContext.protect] at h
  split at h
  · split at h
    · cases h
    · simpa using h
  · cases h

theorem agrees_of_eq (hlib : lib.Works [b.clientWrite,b.serverWrite])
    (hstate : t.state = .CONNECTED) (hcb : t.rtpCallback = true)
    (hsrtp : t.srtp = ⟨some b.clientWrite,some b.serverWrite,true⟩)
    (heq : b.clientWrite = b.serverWrite) : t.Agrees lib b where
  inbound := by
    intro data c handshake hrtp hlen hc
    obtain ⟨hlength,htake⟩ := hlib.header _ List.mem_cons_self data c hc
    rw [react_rtp (isRtp_of_take htake (by omega) hrtp),
      onRtp_connected hstate hcb hsrtp (by omega),← heq,
      hlib.inverts _ List.mem_cons_self data c hc]
    rfl
  outbound := by
    intro data c hc
    rw [← heq]
    exact hlib.inverts _ List.mem_cons_self data c (sendRtp_connected hsrtp hc)

theorem eq_of_agrees (hlib : lib.Works [b.clientWrite,b.serverWrite])
    (hstate : t.state = .CONNECTED) (hcb : t.rtpCallback = true)
    (hsrtp : t.srtp = ⟨some b.clientWrite,some b.serverWrite,true⟩)
    (h : t.Agrees lib b) : b.clientWrite = b.serverWrite := by
  by_contra hne
  let data : List UInt8 := 0x80 :: List.replicate 11 0
  have hrtp : RtpPacket.isRtp data := by decide
  obtain ⟨c,hc⟩ := Option.isSome_iff_exists.mp
    (hlib.accepts _ List.mem_cons_self data (by decide) (by decide) rfl)
  obtain ⟨hlength,htake⟩ := hlib.header _ List.mem_cons_self data c hc
  have hlen : c.length = 22 := hlength
  have hin := h.inbound data c none hrtp (by decide) hc
  have htells := hlib.tells _ List.mem_cons_self _ (by simp) hne data c hc
  rw [react_rtp (isRtp_of_take htake (by omega) hrtp),
    onRtp_connected hstate hcb hsrtp (by omega),htells] at hin
  cases hin

end

/-- A connected transport and its browser understand each other exactly when the exported
block has the same client and server key and salt. -/
theorem key_agreement {lib : Libsrtp} {b : KeyBlock}
    (hlib : lib.Works [b.clientWrite,b.serverWrite]) {es : List TransportEvent}
    {t : WebRtcTransport}
    (h : Runs.exec (WebRtcTransport.step lib) WebRtcTransport.new es = some t)
    (hstate : t.state = .CONNECTED) (hblock : t.dtls.exported = some b)
    (hcb : t.rtpCallback = true) : t.Agrees lib b ↔ b.clientWrite = b.serverWrite := by
  have hsrtp := (WebRtcTransport.keyed_run h).srtp b (by rw [hblock]; rfl)
  rw [init_sessions] at hsrtp
  exact ⟨eq_of_agrees hlib hstate hcb hsrtp,agrees_of_eq hlib hstate hcb hsrtp⟩

def taggingLib : Libsrtp where
  protect key data := if 12 ≤ data.length then some (data ++ key.take 10) else none
  unprotect key c := if c.drop (c.length-10) = key.take 10 then some (c.take (c.length-10))
    else none
  protectRtcp key data := some (data ++ key.take 10)

theorem tagging_works {keys : List (List UInt8)} (hlen : ∀ key ∈ keys, key.length = 30)
    (hne : ∀ key ∈ keys, ∀ key' ∈ keys, key ≠ key' → key.take 10 ≠ key'.take 10) :
    taggingLib.Works keys := by
  have hprotect {key data c : List UInt8} (h : taggingLib.protect key data = some c) :
      12 ≤ data.length ∧ c = data ++ key.take 10 := by
    simp only [taggingLib,Option.ite_none_right_eq_some,Option.some.injEq] at h
    exact ⟨h.1,h.2.symm⟩
  have htag {key : List UInt8} (hkey : key ∈ keys) : (key.take 10).length = 10 := by
    simp [hlen key hkey]
  constructor
  · intro key hkey data c h
    obtain ⟨-,rfl⟩ := hprotect h
    simp [taggingLib,hlen key hkey]
  · intro key hkey key' hkey' hkeys data c h
    obtain ⟨-,rfl⟩ := hprotect h
    simp [taggingLib,hlen key hkey,hne key hkey key' hkey' hkeys]
  · intro key hkey data c h
    obtain ⟨hdata,rfl⟩ := hprotect h
    refine ⟨by rw [List.length_append,htag hkey],?_⟩
    rw [List.take_append_of_le_length hdata]
  · intro key _ data hdata _ _
    simp [taggingLib,hdata]

def sampleBlock : KeyBlock where
  mat := List.replicate 16 1 ++ List.replicate 16 2 ++ List.replicate 14 3 ++ List.replicate 14 4
  size := by decide

def sampleEvents : List TransportEvent :=
  [.onPublisherRtp,.iceState .CONNECTED none,.data [22] (some sampleBlock)]

theorem sample_works : taggingLib.Works [sampleBlock.clientWrite,sampleBlock.serverWrite] :=
  tagging_works (by decide) (by decide)

def sampleTransport : WebRtcTransport where
  state := .CONNECTED
  dtls := ⟨true,some sampleBlock⟩
  srtp := ⟨some sampleBlock.clientWrite,some sampleBlock.serverWrite,true⟩
  rtpCallback := true

theorem sample_run : Runs.exec (WebRtcTransport.step taggingLib) WebRtcTransport.new sampleEvents =
    some sampleTransport := rfl

theorem key_agreement_sample : sampleTransport.Agrees taggingLib sampleBlock ↔
    sampleBlock.clientWrite = sampleBlock.serverWrite :=
  key_agreement sample_works sample_run rfl rfl rfl

/-- The browser's packet is dropped, and what the transport sends the browser rejects. -/
theorem key_agreement_crossed :
    Runs.exec (WebRtcTransport.step taggingLib) WebRtcTransport.new sampleEvents =
      some sampleTransport ∧ ∃ data c, RtpPacket.isRtp data ∧ taggingLib.protect sampleBlock.clientWrite data = some c ∧
      (sampleTransport.react taggingLib (.data c none)).2 = [] ∧
      (sampleTransport.react taggingLib (.sendRtp data)).2 = [.send c] ∧
      taggingLib.unprotect sampleBlock.serverWrite c = none ∧
      ¬ sampleTransport.Agrees taggingLib sampleBlock := by
  refine ⟨sample_run,0x80 :: List.replicate 11 0,0x80 :: List.replicate 11 0 ++ List.replicate 10 1,
    by decide,by decide,by decide,by decide,by decide,fun h => ?_⟩
  have heq := eq_of_agrees sample_works rfl rfl rfl h
  revert heq
  decide

end MaiaMeet
