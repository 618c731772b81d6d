import MaiaMeet.KeyAgreement
set_option autoImplicit false

/-! No media before the keys: what passes a transport in either direction is under the keys of
the last handshake its run has completed. -/

namespace MaiaMeet

open Runs

namespace WebRtcTransport

def handshakes (lib : Libsrtp) (es : List TransportEvent) : List KeyBlock :=
  trace (step lib) (fun t e => (t.completed e).toList) new es

/-- What an event lets through under the keys of a block: a packet of at most 1400 bytes on its
way out, protected, or a datagram with an RTP header, unprotected. -/
inductive Passes (lib : Libsrtp) (block : KeyBlock) : TransportEvent → TransportOutput → Prop where
  | sendRtp (data c : List UInt8) (hlen : data.length ≤ 1400)
      (h : lib.protect block.clientWrite data = some c) : Passes lib block (.sendRtp data) (.send c)
  | sendRtcp (data c : List UInt8) (hlen : data.length ≤ 1400)
      (h : lib.protectRtcp block.clientWrite data = some c) :
      Passes lib block (.sendRtcp data) (.send c)
  | onRtp (data packet : List UInt8) (handshake : Option KeyBlock) (hlen : data.length ≤ 1400)
      (hrtp : RtpPacket.isRtp data) (h : lib.unprotect block.serverWrite data = some packet) :
      Passes lib block (.data data handshake) (.rtp packet)

variable {lib : Libsrtp} {t : WebRtcTransport} {es : List TransportEvent}

theorem exported_run (h : exec (step lib) new es = some t) :
    t.dtls.exported = (handshakes lib es).getLast? := by
  induction es using List.reverseRecOn generalizing t with
  | nil =>
    cases h
    rfl
  | append_singleton es e ih =>
    obtain ⟨u,hu,hstep⟩ := exec_snoc_some.mp h
    rw [handshakes,trace_snoc hu hstep,List.getLast?_append]
    cases hstep
    rw [(reaction lib u e).exported,ih hu]
    cases u.completed e <;> rfl

theorem guarded_eq_some {data c : List UInt8} {f : List UInt8 → Option (List UInt8)}
    (h : t.guarded data f = some c) : data.length ≤ 1400 ∧ f data = some c := by
  unfold guarded at h
  split at h
  · cases h
  · split at h
    · cases h
    · exact ⟨by omega,h⟩

theorem doHandshake_media {handshake : Option KeyBlock} {o : TransportOutput}
    (ho : o ∈ (t.doHandshake handshake).2) : o.media = false := by
  cases handshake with
  | none => cases ho
  | some block =>
    rw [List.mem_singleton.mp ho]
    rfl

theorem iceState_media {state : JuiceState} {handshake : Option KeyBlock} {o : TransportOutput}
    (ho : o ∈ (t.react lib (.iceState state handshake)).2) : o.media = false := by
  cases state with
  | CONNECTED =>
    rcases List.mem_cons.mp ho with rfl | ho
    · rfl
    · exact doHandshake_media ho
  | FAILED =>
    rw [List.mem_singleton.mp ho]
    rfl
  | DISCONNECTED | GATHERING | CONNECTING | COMPLETED => cases ho

theorem data_media {data : List UInt8} {handshake : Option KeyBlock} {o : TransportOutput}
    (hrtp : ¬RtpPacket.isRtp data) (ho : o ∈ (t.react lib (.data data handshake)).2) :
    o.media = false := by
  cases data with
  | nil => cases ho
  | cons b bytes =>
    rw [react,classifyAndDispatch] at ho
    split at ho
    · unfold feedData at ho
      split at ho
      · exact doHandshake_media ho
      · cases ho
    · split at ho <;> cases ho

theorem passes_react {block : KeyBlock} (hsrtp : t.srtp = .init (extractKeyingMaterial block) false)
    {e : TransportEvent} {o : TransportOutput} (ho : o ∈ (t.react lib e).2)
    (hmedia : o.media = true) : Passes lib block e o := by
  rw [init_sessions] at hsrtp
  cases e with
  | sendRtp data =>
    obtain ⟨c,hc,rfl⟩ := Option.map_eq_some_iff.mp (Option.mem_toList.mp ho)
    obtain ⟨hlen,hc⟩ := guarded_eq_some hc
    rw [hsrtp] at hc
    exact .sendRtp data c hlen hc
  | sendRtcp data =>
    obtain ⟨c,hc,rfl⟩ := Option.map_eq_some_iff.mp (Option.mem_toList.mp ho)
    obtain ⟨hlen,hc⟩ := guarded_eq_some hc
    rw [hsrtp] at hc
    exact .sendRtcp data c hlen hc
  | data data handshake =>
    by_cases hrtp : RtpPacket.isRtp data
    · rw [react_rtp hrtp,onRtp] at ho
      split at ho
      · obtain ⟨c,hc,rfl⟩ := Option.map_eq_some_iff.mp (Option.mem_toList.mp ho)
        obtain ⟨hlen,hc⟩ := guarded_eq_some hc
        rw [hsrtp] at hc
        exact .onRtp data c handshake hlen hrtp hc
      · cases ho
    · rw [data_media hrtp ho] at hmedia
      cases hmedia
  | gatheringDone | close =>
    rw [List.mem_singleton.mp ho] at hmedia
    cases hmedia
  | onPublisherRtp => cases ho
  | iceState state handshake =>
    rw [iceState_media ho] at hmedia
    cases hmedia

end WebRtcTransport

open WebRtcTransport

/-- Whatever a transport sends or hands on is under the keys that the last handshake of its run
exported; before the first there is nothing. -/
theorem media_under_keys (lib : Libsrtp) {es : List TransportEvent} {t : WebRtcTransport}
    (hrun : exec (WebRtcTransport.step lib) WebRtcTransport.new es = some t) {e : TransportEvent}
    {o : TransportOutput} (ho : o ∈ (t.react lib e).2) (hmedia : o.media = true) :
    t.state = .CONNECTED ∧ ∃ block, (handshakes lib es).getLast? = some block ∧
      Passes lib block e o := by
  have hkeyed := keyed_run hrun
  by_cases hstate : t.state = .CONNECTED
  · obtain ⟨block,hblock⟩ := Option.isSome_iff_exists.mp (hkeyed.connected hstate)
    refine ⟨hstate,block,(exported_run hrun).symm.trans hblock,?_⟩
    exact passes_react (hkeyed.srtp block (by rw [hblock]; rfl)) ho hmedia
  · rw [quiet hstate e o ho] at hmedia
    cases hmedia

theorem media_under_keys_sample : sampleTransport.state = .CONNECTED ∧
    ∃ block, (handshakes taggingLib sampleEvents).getLast? = some block ∧
      Passes taggingLib block (.sendRtp (0x80 :: List.replicate 11 0))
        (.send (0x80 :: List.replicate 11 0 ++ List.replicate 10 1)) := by
  have hrun : exec (step taggingLib) new sampleEvents = some sampleTransport := rfl
  exact media_under_keys taggingLib hrun (by decide) rfl

end MaiaMeet
