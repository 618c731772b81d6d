import MaiaMeet.Cells
import MaiaMeet.Router
import MaiaMeet.KeyAgreement
set_option autoImplicit false

/-!
`Router::route` with its buffers, down to libsrtp: each copies into a scratch buffer of 1500
bytes, and an access outside a buffer or to a byte that was never written is a fault.
-/

namespace MaiaMeet

/-- The size of the buffers of `route` and `sendRtp`. -/
def SCRATCH_SIZE : Nat := 1500

namespace RtpPacket

def sequenceNumberIn (buf : Cells) : Option UInt16 :=
  (buf.read 2 2).map (fun bytes => .ofNat (Bytes.toNat bytes))

def timestampIn (buf : Cells) : Option UInt32 :=
  (buf.read 4 4).map (fun bytes => .ofNat (Bytes.toNat bytes))

def setSequenceNumberIn (seq : UInt16) (buf : Cells) : Option Cells :=
  buf.write 2 (Bytes.ofNat 2 seq.toNat)

def setTimestampIn (ts : UInt32) (buf : Cells) : Option Cells :=
  buf.write 4 (Bytes.ofNat 4 ts.toNat)

end RtpPacket

open RtpPacket

namespace RtpRewriter

def fixOffsetsIn (r : RtpRewriter) (buf : Cells) : Option RtpRewriter :=
  if r.initialized then some r
  else do
    let seq ← sequenceNumberIn buf
    let ts ← timestampIn buf
    some { r with
      seqOffset := seq - (r.lastOutSeq + 1)
      tsOffset := ts - (r.lastOutTs + 90000)
      initialized := true }

def rewriteIn (r : RtpRewriter) (buf : Cells) : Option (RtpRewriter × Cells) := do
  let r ← r.fixOffsetsIn buf
  let lastInSeq ← sequenceNumberIn buf
  let lastInTs ← timestampIn buf
  let lastOutSeq := lastInSeq - r.seqOffset
  let lastOutTs := lastInTs - r.tsOffset
  let buf ← setSequenceNumberIn lastOutSeq buf
  let buf ← setTimestampIn lastOutTs buf
  some ({ r with lastInSeq, lastInTs, lastOutSeq, lastOutTs },buf)

end RtpRewriter

/-- `protect` on the first `len` bytes of `buf`, with the buffer and the length it leaves.
libsrtp may write the `trailer` bytes behind the packet. -/
def SrtpContext.protectIn (lib : Libsrtp) (trailer : Nat) (srtp : SrtpContext) (buf : Cells)
    (len : Nat) : Option (Option (Cells × Nat)) :=
  if !srtp.initialized then some none
  else do
    let data ← buf.read 0 len
    if len + trailer ≤ buf.length then
      ((srtp.sendSession.bind (fun key => lib.protect key data)).elim (some none)
        (fun c => (buf.write 0 c).map (fun buf => some (buf,c.length))))
    else none

def WebRtcTransport.sendRtpIn (lib : Libsrtp) (trailer : Nat) (t : WebRtcTransport) (data : Cells)
    (len : Nat) : Option (List TransportOutput) :=
  if t.state ≠ .CONNECTED then some []
  else if len > 1400 then some []
  else do
    let bytes ← data.read 0 len
    let buf ← (Cells.uninit SCRATCH_SIZE).write 0 bytes
    let done ← t.srtp.protectIn lib trailer buf len
    done.elim (some []) (fun r => (r.1.read 0 r.2).map (fun out => [.send out]))

namespace Router

variable {T : Type} (lib : Libsrtp) (trailer : Nat) (transport : T → WebRtcTransport)

/-- The loop of `route`: the entries after it, and what each call of sendRtp sends. -/
def forwardIn (data : List UInt8) : List (SubscriberEntry T) →
    Option (List (SubscriberEntry T) × List (T × List TransportOutput))
  | [] => some ([],[])
  | sub :: subs => do
    let buf ← (Cells.uninit SCRATCH_SIZE).write 0 data
    let (rewriter,buf) ← sub.rewriter.rewriteIn buf
    let out ← (transport sub.transport).sendRtpIn lib trailer buf data.length
    let (subs,calls) ← forwardIn data subs
    some ({ sub with rewriter := rewriter } :: subs,(sub.transport,out) :: calls)

/-- `transport` is what the entries' pointers point to. -/
def routeIn (r : Router T) (ssrc : UInt32) (data : List UInt8) :
    Option (Router T × List (T × List TransportOutput)) :=
  match r.routes.get ssrc with
  | none => some (r,[])
  | some subs => (forwardIn lib trailer transport data subs).map (fun res =>
    ({ r with routes := r.routes.set ssrc res.1 },res.2))

end Router

section
variable {n : Nat} {data : List UInt8}

theorem sequenceNumberIn_holding (hn : data.length ≤ n) (h : 4 ≤ data.length) :
    sequenceNumberIn (.holding n data) = some (sequenceNumber data) := by
  rw [sequenceNumberIn,Cells.read_holding hn h]
  rfl

theorem timestampIn_holding (hn : data.length ≤ n) (h : 8 ≤ data.length) :
    timestampIn (.holding n data) = some (timestamp data) := by
  rw [timestampIn,Cells.read_holding hn h]
  rfl

theorem timestampIn_short (h : data.length < 8) : timestampIn (.holding n data) = none := by
  rw [timestampIn,Cells.read_holding_none (by omega) h]
  rfl

theorem setSequenceNumberIn_holding (hn : data.length ≤ n) (h : 4 ≤ data.length) (seq : UInt16) :
    setSequenceNumberIn seq (.holding n data) = some (.holding n (setSequenceNumber seq data)) :=
  Cells.write_holding hn (by simpa using h)

theorem setTimestampIn_holding (hn : data.length ≤ n) (h : 8 ≤ data.length) (ts : UInt32) :
    setTimestampIn ts (.holding n data) = some (.holding n (setTimestamp ts data)) :=
  Cells.write_holding hn (by simpa using h)

theorem length_setSequenceNumber_short (h : 4 ≤ data.length) (seq : UInt16) :
    (setSequenceNumber seq data).length = data.length :=
  Bytes.length_write (by simpa using h)

namespace RtpRewriter

theorem length_rewrite (h : 8 ≤ data.length) (r : RtpRewriter) :
    (r.rewrite data).2.length = data.length := by
  have hseq : (setSequenceNumber (sequenceNumber data - (r.fixOffsets data).seqOffset)
      data).length = data.length := length_setSequenceNumber_short (by omega) _
  exact (Bytes.length_write (by rw [hseq]; simpa using h)).trans hseq

theorem fixOffsetsIn_holding (hn : data.length ≤ n) (h : 8 ≤ data.length) (r : RtpRewriter) :
    r.fixOffsetsIn (.holding n data) = some (r.fixOffsets data) := by
  unfold fixOffsetsIn fixOffsets
  rw [sequenceNumberIn_holding hn (by omega),timestampIn_holding hn h]
  split <;> rfl

/-- From 8 bytes on a rewriter works on the buffer as it does on the packet. -/
theorem rewriteIn_holding (hn : data.length ≤ n) (h : 8 ≤ data.length) (r : RtpRewriter) :
    r.rewriteIn (.holding n data) =
      some ((r.rewrite data).1,.holding n (r.rewrite data).2) := by
  have hseq : (setSequenceNumber (sequenceNumber data - (r.fixOffsets data).seqOffset)
      data).length = data.length := length_setSequenceNumber_short (by omega) _
  simp only [rewriteIn,fixOffsetsIn_holding hn h,sequenceNumberIn_holding hn (by omega),
    timestampIn_holding hn h,setSequenceNumberIn_holding hn (by omega),Option.bind_eq_bind,
    Option.bind_some]
  rw [setTimestampIn_holding (by omega) (by omega)]
  rfl

theorem rewriteIn_short (h : data.length < 8) (r : RtpRewriter) :
    r.rewriteIn (.holding n data) = none := by
  simp [rewriteIn,timestampIn_short h]

end RtpRewriter

end

def Libsrtp.Adds (lib : Libsrtp) (trailer : Nat) : Prop :=
  ∀ key data c, lib.protect key data = some c → c.length ≤ data.length + trailer

def WebRtcTransport.protects (t : WebRtcTransport) : Bool :=
  t.state = .CONNECTED && t.srtp.initialized

section
variable {lib : Libsrtp} {trailer n : Nat} {data : List UInt8}

theorem SrtpContext.protect_adds (hlib : lib.Adds trailer) {srtp : SrtpContext} {c : List UInt8}
    (h : srtp.protect lib data = some c) :
    srtp.initialized = true ∧ c.length ≤ data.length + trailer := by
  unfold protect at h
  cases hinit : srtp.initialized with
  | false => simp [hinit] at h
  | true =>
    obtain ⟨key,-,hc⟩ := Option.bind_eq_some_iff.mp (by simpa [hinit] using h)
    exact ⟨rfl,hlib key data c hc⟩

theorem SrtpContext.protectIn_holding (hn : data.length ≤ n) (srtp : SrtpContext) :
    srtp.protectIn lib trailer (.holding n data) data.length =
      if srtp.initialized ∧ n < data.length + trailer then none
      else (srtp.protect lib data).elim (some none)
        (fun c => ((Cells.holding n data).write 0 c).map (fun buf => some (buf,c.length))) := by
  have hread : (Cells.holding n data).read 0 data.length = some data := by
    rw [Cells.read_holding hn (by omega),Bytes.slice,List.drop_zero,List.take_length]
  unfold protectIn protect
  cases hinit : srtp.initialized with
  | false => rfl
  | true =>
    by_cases hfit : n < data.length + trailer
    · simp [hread,Cells.length_holding hn,hfit,Nat.not_le.mpr hfit]
    · simp [hread,Cells.length_holding hn,hfit,Nat.not_lt.mp hfit]

/-- sendRtp on a buffer that holds a packet faults exactly if libsrtp finds too little room. -/
theorem WebRtcTransport.sendRtpIn_holding (hlib : lib.Adds trailer)
    (hn : data.length ≤ SCRATCH_SIZE) (t : WebRtcTransport) :
    t.sendRtpIn lib trailer (.holding SCRATCH_SIZE data) data.length =
      if t.protects ∧ data.length ≤ 1400 ∧ SCRATCH_SIZE < data.length + trailer then none
      else some (t.sendRtp lib data) := by
  unfold sendRtpIn sendRtp guarded
  by_cases hstate : t.state = .CONNECTED
  · by_cases hlen : data.length > 1400
    · simp [hstate,hlen,Nat.not_le.mpr hlen]
    · have hread : (Cells.holding SCRATCH_SIZE data).read 0 data.length = some data := by
        rw [Cells.read_holding hn (by omega),Bytes.slice,List.drop_zero,List.take_length]
      have hprotects : t.protects = t.srtp.initialized := by simp [protects,hstate]
      simp only [hstate,hlen,hread,Cells.write_uninit hn,SrtpContext.protectIn_holding hn,
        hprotects,Nat.not_lt.mp hlen,Option.bind_eq_bind,Option.bind_some]
      by_cases hfit : t.srtp.initialized = true ∧ SCRATCH_SIZE < data.length + trailer
      · simp [hfit]
      · rw [if_neg hfit]
        cases hc : t.srtp.protect lib data with
        | none => simp [hfit]
        | some c =>
          obtain ⟨hinit,hc'⟩ := SrtpContext.protect_adds hlib hc
          have hroom : c.length ≤ SCRATCH_SIZE := by
            have := not_and.mp hfit hinit
            omega
          have hsize : 0 + c.length ≤ (Cells.holding SCRATCH_SIZE data).length := by
            rw [Cells.length_holding hn]
            omega
          obtain ⟨m,hm⟩ := Cells.write_isSome hsize
          simp [hfit,hm,Cells.read_write hm]
  · simp [hstate,protects]

namespace Router

variable {T : Type} {transport : T → WebRtcTransport}

def sends (lib : Libsrtp) (transport : T → WebRtcTransport) (d : Delivery T) :
    T × List TransportOutput := (d.1,(transport d.1).sendRtp lib d.2)

def Fits (trailer : Nat) (transport : T → WebRtcTransport) (data : List UInt8)
    (e : SubscriberEntry T) : Prop :=
  8 ≤ data.length ∧ data.length ≤ SCRATCH_SIZE ∧
    ((transport e.transport).protects = true → data.length ≤ 1400 →
      data.length + trailer ≤ SCRATCH_SIZE)

theorem forwardIn_cons (hlib : lib.Adds trailer) (e : SubscriberEntry T)
    (subs : List (SubscriberEntry T)) :
    (Fits trailer transport data e → forwardIn lib trailer transport data (e :: subs) =
      (forwardIn lib trailer transport data subs).map (fun res =>
        (e.pass data :: res.1,sends lib transport (e.delivery data) :: res.2))) ∧
      (¬ Fits trailer transport data e →
        forwardIn lib trailer transport data (e :: subs) = none) := by
  by_cases hlen : data.length ≤ SCRATCH_SIZE
  · by_cases hshort : data.length < 8
    · refine ⟨fun hfits => absurd hfits.1 (by omega),fun _ => ?_⟩
      simp [forwardIn,Cells.write_uninit hlen,RtpRewriter.rewriteIn_short hshort]
    · have hrewrite := RtpRewriter.rewriteIn_holding hlen (Nat.not_lt.mp hshort) e.rewriter
      have hlength := RtpRewriter.length_rewrite (Nat.not_lt.mp hshort) e.rewriter
      have hsend := (transport e.transport).sendRtpIn_holding hlib (hlength ▸ hlen)
      rw [hlength] at hsend
      constructor
      · rintro ⟨-,-,hroom⟩
        rw [if_neg (fun h => absurd (hroom h.1 h.2.1) (by omega))] at hsend
        simp only [forwardIn,Cells.write_uninit hlen,hrewrite,hsend,Option.bind_eq_bind,
          Option.bind_some]
        cases forwardIn lib trailer transport data subs <;> rfl
      · intro hfits
        have hroom : (transport e.transport).protects = true ∧ data.length ≤ 1400 ∧
            SCRATCH_SIZE < data.length + trailer := by
          by_contra hroom
          refine hfits ⟨by omega,hlen,fun hp hl => ?_⟩
          by_contra hover
          exact hroom ⟨hp,hl,by omega⟩
        rw [if_pos hroom] at hsend
        simp [forwardIn,Cells.write_uninit hlen,hrewrite,hsend]
  · refine ⟨fun hfits => absurd hfits.2.1 hlen,fun _ => ?_⟩
    simp [forwardIn,Cells.write_uninit_none (Nat.not_le.mp hlen)]

theorem forwardIn_some (hlib : lib.Adds trailer) {subs : List (SubscriberEntry T)}
    (h : ∀ e ∈ subs, Fits trailer transport data e) :
    forwardIn lib trailer transport data subs = some (subs.map (SubscriberEntry.pass data),
      (subs.map (SubscriberEntry.delivery data)).map (sends lib transport)) := by
  induction subs with
  | nil => rfl
  | cons e subs ih =>
    obtain ⟨he,hsubs⟩ := List.forall_mem_cons.mp h
    rw [(forwardIn_cons hlib e subs).1 he,ih hsubs]
    rfl

theorem forwardIn_none (hlib : lib.Adds trailer) {subs : List (SubscriberEntry T)}
    {e : SubscriberEntry T} (he : e ∈ subs) (h : ¬ Fits trailer transport data e) :
    forwardIn lib trailer transport data subs = none := by
  induction subs with
  | nil => cases he
  | cons e' subs ih =>
    by_cases he' : Fits trailer transport data e'
    · have hmem : e ∈ subs := (List.mem_cons.mp he).resolve_left (fun heq => h (heq ▸ he'))
      rw [(forwardIn_cons hlib e' subs).1 he',ih hmem]
      rfl
    · exact (forwardIn_cons hlib e' subs).2 he'

/-- If no access faults, the router and what is sent are as without buffers. -/
theorem routeIn_some (hlib : lib.Adds trailer) {r : Router T} {ssrc : UInt32}
    (h : ∀ e ∈ r.entries ssrc, Fits trailer transport data e) :
    r.routeIn lib trailer transport ssrc data = some ((r.route ssrc data).1,
      (r.route ssrc data).2.2.map (sends lib transport)) := by
  unfold entries at h
  unfold routeIn route
  cases hr : r.routes.get ssrc with
  | none => rfl
  | some subs =>
    rw [hr,Option.getD_some] at h
    simp only [forwardIn_some hlib h,forward_eq]
    rfl

theorem routeIn_none (hlib : lib.Adds trailer) {r : Router T} {ssrc : UInt32}
    {e : SubscriberEntry T} (he : e ∈ r.entries ssrc) (h : ¬ Fits trailer transport data e) :
    r.routeIn lib trailer transport ssrc data = none := by
  unfold entries at he
  unfold routeIn
  cases hr : r.routes.get ssrc with
  | none => simp [hr] at he
  | some subs =>
    rw [hr,Option.getD_some] at he
    simp only [forwardIn_none hlib he h]
    rfl

end Router

end

/-- Shorter than a header, or longer than the buffers. -/
def Malformed (data : List UInt8) : Prop := data.length < 12 ∨ SCRATCH_SIZE < data.length

namespace Router

variable {T : Type}

/-- No access faults, and a packet of malformed length changes nothing and is sent nowhere. -/
def RoutesSafely (lib : Libsrtp) (trailer : Nat) (transport : T → WebRtcTransport) (r : Router T)
    (ssrc : UInt32) (data : List UInt8) : Prop :=
  ∃ res, r.routeIn lib trailer transport ssrc data = some res ∧
    (Malformed data → res.2 = [] ∧ ∀ s, res.1.entries s = r.entries s)

/-- The source has no subscriber, or the packet has a header and fits the buffers, also with
libsrtp's trailer where a subscriber sends it. -/
def Roomy (trailer : Nat) (transport : T → WebRtcTransport) (r : Router T) (ssrc : UInt32)
    (data : List UInt8) : Prop :=
  r.entries ssrc = [] ∨ (12 ≤ data.length ∧ data.length ≤ SCRATCH_SIZE ∧
    ∀ e ∈ r.entries ssrc, (transport e.transport).protects = true → data.length ≤ 1400 →
      data.length + trailer ≤ SCRATCH_SIZE)

end Router

/-- `route` checks no length itself: it is safe exactly for the packets that fit, and then
does what the router does on packets. -/
theorem route_bounds {T : Type} {lib : Libsrtp} {trailer : Nat} (hlib : lib.Adds trailer)
    (transport : T → WebRtcTransport) (r : Router T) (ssrc : UInt32) (data : List UInt8) :
    (r.RoutesSafely lib trailer transport ssrc data ↔ r.Roomy trailer transport ssrc data) ∧
      ∀ res, r.routeIn lib trailer transport ssrc data = some res →
        res.1 = (r.route ssrc data).1 ∧
          res.2 = (r.route ssrc data).2.2.map (Router.sends lib transport) := by
  obtain ⟨-,hdeliveries,hentries⟩ := r.route_spec ssrc data
  by_cases hfits : ∀ e ∈ r.entries ssrc, Router.Fits trailer transport data e
  · have hroute := Router.routeIn_some hlib hfits
    refine ⟨⟨?_,?_⟩,?_⟩
    · rintro ⟨res,hres,hdrop⟩
      cases hroute.symm.trans hres
      cases hsubs : r.entries ssrc with
      | nil => exact .inl hsubs
      | cons e subs =>
        obtain ⟨-,hsize,-⟩ := hfits e (by simp [hsubs])
        refine .inr ⟨?_,hsize,fun e he hp hl => (hfits e he).2.2 hp hl⟩
        by_contra hshort
        have hempty := (hdrop (.inl (by omega))).1
        simp [hdeliveries,hsubs] at hempty
    · intro hroomy
      refine ⟨_,hroute,fun hmalformed => ?_⟩
      rcases hroomy with hnone | ⟨hheader,hsize,-⟩
      · refine ⟨by simp [hdeliveries,hnone],fun s => ?_⟩
        rw [hentries]
        split
        · rename_i hs
          rw [hs,hnone]
          rfl
        · rfl
      · unfold Malformed at hmalformed
        omega
    · intro res hres
      cases hroute.symm.trans hres
      exact ⟨rfl,rfl⟩
  · obtain ⟨e,he,hnot⟩ : ∃ e ∈ r.entries ssrc, ¬ Router.Fits trailer transport data e := by
      simpa using hfits
    have hroute := Router.routeIn_none hlib he hnot
    refine ⟨⟨?_,?_⟩,?_⟩
    · rintro ⟨res,hres,-⟩
      rw [hroute] at hres
      cases hres
    · rintro (hnone | ⟨hheader,hsize,hroom⟩)
      · rw [hnone] at he
        cases he
      · exact absurd ⟨by omega,hsize,hroom e he⟩ hnot
    · intro res hres
      rw [hroute] at hres
      cases hres

theorem tagging_adds : taggingLib.Adds 10 := by
  intro key data c h
  simp only [taggingLib,Option.ite_none_right_eq_some,Option.some.injEq] at h
  rw [← h.2,List.length_append,List.length_take]
  omega

def oneSubscriber (t : WebRtcTransport) : Router WebRtcTransport :=
  Router.new.addSubscription 7 t "sub"

/-- A packet of 1400 bytes to a connected subscriber. -/
theorem route_bounds_full :
    ((oneSubscriber sampleTransport).RoutesSafely taggingLib 10 id 7 (List.replicate 1400 128) ↔
      (oneSubscriber sampleTransport).Roomy 10 id 7 (List.replicate 1400 128)) ∧
      ∀ res, (oneSubscriber sampleTransport).routeIn taggingLib 10 id 7
          (List.replicate 1400 128) = some res →
        res.1 = ((oneSubscriber sampleTransport).route 7 (List.replicate 1400 128)).1 ∧
          res.2 = ((oneSubscriber sampleTransport).route 7 (List.replicate 1400 128)).2.2.map
            (Router.sends taggingLib id) :=
  route_bounds tagging_adds id _ _ _

/-- One byte more than the buffer is written, bytes that were never written are read, and a
packet without a whole header is rewritten and passed on. -/
theorem route_overruns : ∃ r : Router WebRtcTransport,
    r.routeIn taggingLib 10 id 7 (List.replicate 1501 128) = none ∧
      r.routeIn taggingLib 10 id 7 (List.replicate 7 128) = none ∧
      ¬ r.RoutesSafely taggingLib 10 id 7 (List.replicate 11 128) := by
  let e : SubscriberEntry WebRtcTransport := ⟨"sub",.new,.new⟩
  have he : e ∈ (oneSubscriber .new).entries 7 := List.mem_singleton.mpr rfl
  refine ⟨oneSubscriber .new,?_,?_,?_⟩
  · refine Router.routeIn_none tagging_adds he (fun hfits => ?_)
    have hsize := hfits.2.1
    rw [List.length_replicate,SCRATCH_SIZE] at hsize
    omega
  · refine Router.routeIn_none tagging_adds he (fun hfits => ?_)
    have hsize := hfits.1
    rw [List.length_replicate] at hsize
    omega
  · rintro ⟨res,hres,hdrop⟩
    have hfits : ∀ e' ∈ (oneSubscriber .new).entries 7,
        Router.Fits 10 id (List.replicate 11 128) e' := by
      intro e' he'
      obtain rfl := List.mem_singleton.mp he'
      exact ⟨by decide,by decide,fun hp => nomatch hp⟩
    cases (Router.routeIn_some tagging_adds hfits).symm.trans hres
    have hcalls := (hdrop (.inl (by decide))).1
    rw [((oneSubscriber .new).route_spec 7 _).2.1] at hcalls
    cases hcalls

end MaiaMeet
