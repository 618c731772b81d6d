import MaiaMeet.Rtp
set_option autoImplicit false

/-! RTP packets put together field by field, and what the accessors make of them. -/

namespace MaiaMeet

structure HeaderExtension where
  profile : UInt16
  words : List UInt32
  words_le : words.length ≤ 65535

structure RtpFields where
  marker : Bool
  payloadType : Fin 128
  sequenceNumber : UInt16
  timestamp : UInt32
  ssrc : UInt32
  csrcs : List UInt32
  csrcs_le : csrcs.length ≤ 15
  extension : Option HeaderExtension
  payload : List UInt8

namespace RtpFields

def words (ws : List UInt32) : List UInt8 := ws.flatMap (fun w => Bytes.ofNat 4 w.toNat)

variable (f : RtpFields)

/-- Version, padding bit, extension bit and CSRC count. -/
def byte0 : UInt8 := .ofNat (2*64 + (if f.extension.isSome then 16 else 0) + f.csrcs.length)

def byte1 : UInt8 := .ofNat ((if f.marker then 128 else 0) + f.payloadType)

def fixedHeader : List UInt8 :=
  [f.byte0,f.byte1] ++ Bytes.ofNat 2 f.sequenceNumber.toNat ++ Bytes.ofNat 4 f.timestamp.toNat ++
    Bytes.ofNat 4 f.ssrc.toNat

def extensionHeader : List UInt8 :=
  match f.extension with
  | none => []
  | some e => Bytes.ofNat 2 e.profile.toNat ++ Bytes.ofNat 2 e.words.length ++ words e.words

def header : List UInt8 := f.fixedHeader ++ words f.csrcs ++ f.extensionHeader

def build : List UInt8 := f.header ++ f.payload

def Partitions : Prop :=
  RtpPacket.payload f.build = f.header.length ∧
    RtpPacket.payloadSize f.build = f.payload.length

instance : Decidable f.Partitions := inferInstanceAs (Decidable (_ ∧ _))

end RtpFields

namespace RtpFields

variable {f : RtpFields}

@[simp] theorem length_words (ws : List UInt32) : (words ws).length = 4*ws.length := by
  induction ws with
  | nil => rfl
  | cons w ws ih =>
    simp only [words] at ih
    simp [words,ih]
    omega

@[simp] theorem length_fixedHeader : f.fixedHeader.length = 12 := by simp [fixedHeader]

theorem byte0_bits : ∀ (x : Bool) (n : Fin 16),
    let b := UInt8.ofNat (2*64 + (if x then 16 else 0) + n)
    b >>> 6 = 2 ∧ ((b >>> 5) &&& 1 != 0) = false ∧ ((b >>> 4) &&& 1 != 0) = x ∧
      (b &&& 0x0F).toNat = n := by decide +kernel

theorem byte1_bits : ∀ (m : Bool) (n : Fin 128),
    let b := UInt8.ofNat ((if m then 128 else 0) + n)
    ((b >>> 7) &&& 1 != 0) = m ∧ (b &&& 0x7F).toNat = n := by decide +kernel

theorem accessors_build : RtpPacket.version f.build = 2 ∧ RtpPacket.padding f.build = false ∧
    RtpPacket.extension f.build = f.extension.isSome ∧
    (RtpPacket.csrcCount f.build).toNat = f.csrcs.length ∧
    RtpPacket.marker f.build = f.marker ∧
    (RtpPacket.payloadType f.build).toNat = f.payloadType ∧
    RtpPacket.sequenceNumber f.build = f.sequenceNumber ∧
    RtpPacket.timestamp f.build = f.timestamp ∧ RtpPacket.ssrc f.build = f.ssrc := by
  obtain ⟨hversion,hpadding,hextension,hcount⟩ :=
    byte0_bits f.extension.isSome ⟨f.csrcs.length,Nat.lt_succ_of_le f.csrcs_le⟩
  obtain ⟨hmarker,htype⟩ := byte1_bits f.marker f.payloadType
  refine ⟨hversion,hpadding,hextension,hcount,hmarker,htype,?_,?_,?_⟩
  · have hfield : Bytes.field f.build 2 2 = f.sequenceNumber.toNat :=
      Bytes.field_ofNat (p := [f.byte0,f.byte1])
        (q := Bytes.ofNat 4 f.timestamp.toNat ++ Bytes.ofNat 4 f.ssrc.toNat ++ words f.csrcs ++
          f.extensionHeader ++ f.payload)
        (by simp [build,header,fixedHeader]) rfl f.sequenceNumber.toNat_lt
    rw [RtpPacket.sequenceNumber,hfield,UInt16.ofNat_toNat]
  · have hfield : Bytes.field f.build 4 4 = f.timestamp.toNat :=
      Bytes.field_ofNat (p := [f.byte0,f.byte1] ++ Bytes.ofNat 2 f.sequenceNumber.toNat)
        (q := Bytes.ofNat 4 f.ssrc.toNat ++ words f.csrcs ++ f.extensionHeader ++ f.payload)
        (by simp [build,header,fixedHeader]) (by simp) f.timestamp.toNat_lt
    rw [RtpPacket.timestamp,hfield,UInt32.ofNat_toNat]
  · have hfield : Bytes.field f.build 8 4 = f.ssrc.toNat :=
      Bytes.field_ofNat (p := [f.byte0,f.byte1] ++ Bytes.ofNat 2 f.sequenceNumber.toNat ++
          Bytes.ofNat 4 f.timestamp.toNat)
        (q := words f.csrcs ++ f.extensionHeader ++ f.payload)
        (by simp [build,header,fixedHeader]) (by simp) f.ssrc.toNat_lt
    rw [RtpPacket.ssrc,hfield,UInt32.ofNat_toNat]

theorem length_build : f.build.length = f.header.length + f.payload.length := List.length_append

theorem length_header : f.header.length = 12 + 4*f.csrcs.length + f.extensionHeader.length := by
  simp [header]
  omega

theorem payloadSize_build (h : RtpPacket.payload f.build = f.header.length) :
    RtpPacket.payloadSize f.build = f.payload.length := by
  rw [RtpPacket.payloadSize,h,length_build]
  split <;> omega

theorem extensionLength_build {e : HeaderExtension} (he : f.extension = some e) :
    Bytes.field f.build (12 + 4*f.csrcs.length + 2) 2 = e.words.length :=
  Bytes.field_ofNat (p := f.fixedHeader ++ words f.csrcs ++ Bytes.ofNat 2 e.profile.toNat)
    (q := words e.words ++ f.payload) (by simp [build,header,extensionHeader,he])
    (by simp; omega) (Nat.lt_succ_of_le e.words_le)

end RtpFields

/-- The accessors partition every packet into header and payload, but for an extension
without words before an empty payload: the test for its header asks for one byte more. -/
theorem payload_partition (f : RtpFields) :
    f.Partitions ↔ ¬ (f.extension.any (fun e => e.words.isEmpty) ∧ f.payload = []) := by
  obtain ⟨-,-,hextension,hcount,-⟩ := f.accessors_build
  have hsize := f.length_build
  have hheader := f.length_header
  have hpayload : RtpPacket.payload f.build = f.header.length ↔
      ¬ (f.extension.any (fun e => e.words.isEmpty) ∧ f.payload = []) := by
    rw [RtpPacket.payload,hextension,hcount,RtpPacket.MIN_HEADER_SIZE,Nat.mul_comm _ 4]
    cases he : f.extension with
    | none =>
      have hnone : f.extensionHeader = [] := by rw [RtpFields.extensionHeader,he]
      simp [hheader,hnone]
    | some e =>
      have hsome : f.extensionHeader.length = 4 + 4*e.words.length := by
        simp [RtpFields.extensionHeader,he]
        omega
      rw [RtpFields.extensionLength_build he]
      have hany : (some e).any (fun e => e.words.isEmpty) ∧ f.payload = [] ↔
          e.words.length = 0 ∧ f.payload.length = 0 := by simp
      rw [hany]
      simp only [Option.isSome_some,Bool.true_and,decide_eq_true_eq]
      split <;> omega
  refine ⟨fun h => hpayload.mp h.1,fun h => ⟨hpayload.mpr h,?_⟩⟩
  exact RtpFields.payloadSize_build (hpayload.mpr h)

def emptyExtension : RtpFields where
  marker := false
  payloadType := 96
  sequenceNumber := 1
  timestamp := 0
  ssrc := 7
  csrcs := []
  csrcs_le := Nat.zero_le _
  extension := some ⟨0xBEDE,[],Nat.zero_le _⟩
  payload := []

/-- The extension's own header is taken for payload. -/
theorem empty_extension_counted : ¬ emptyExtension.Partitions ∧
    emptyExtension.header.length = 16 ∧ RtpPacket.payload emptyExtension.build = 12 ∧
    RtpPacket.payloadSize emptyExtension.build = 4 := by decide

end MaiaMeet
