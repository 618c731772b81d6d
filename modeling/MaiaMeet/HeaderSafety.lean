import MaiaMeet.RouteSafety
set_option autoImplicit false

/-!
The header of a packet read from the packet's own buffer: an access outside it is a fault,
and arithmetic on `size_t` wraps at 2^64.
-/

namespace MaiaMeet

namespace RtpPacket

/-- What an RtpPacket is made from: a buffer and its length. -/
structure View where
  data : List UInt8
  size : UInt64
  covers : size.toNat = data.length

def View.buf (p : View) : Cells := .holding p.data.length p.data

def byteIn (buf : Cells) (i : Nat) : Option UInt8 := (buf.read i 1).bind List.head?

def versionIn (buf : Cells) : Option UInt8 := (byteIn buf 0).map (fun b : UInt8 => b >>> 6)
def paddingIn (buf : Cells) : Option Bool :=
  (byteIn buf 0).map (fun b : UInt8 => (b >>> 5) &&& 1 != 0)
def extensionIn (buf : Cells) : Option Bool :=
  (byteIn buf 0).map (fun b : UInt8 => (b >>> 4) &&& 1 != 0)
def csrcCountIn (buf : Cells) : Option UInt8 :=
  (byteIn buf 0).map (fun b : UInt8 => b &&& 0x0F)
def markerIn (buf : Cells) : Option Bool :=
  (byteIn buf 1).map (fun b : UInt8 => (b >>> 7) &&& 1 != 0)
def payloadTypeIn (buf : Cells) : Option UInt8 :=
  (byteIn buf 1).map (fun b : UInt8 => b &&& 0x7F)

def ssrcIn (buf : Cells) : Option UInt32 :=
  (buf.read 8 4).map (fun bytes => .ofNat (Bytes.toNat bytes))

/-- The test that isRtp and isRtcp share. -/
def isKindIn (kind : UInt8 → Bool) (buf : Cells) (len : UInt64) : Option Bool :=
  if len < 12 then some false
  else do
    let pt ← payloadTypeIn buf
    let v ← versionIn buf
    some (v == 2 && kind pt)

def isRtpIn : Cells → UInt64 → Option Bool := isKindIn (fun pt => pt < 64 || pt ≥ 96)
def isRtcpIn : Cells → UInt64 → Option Bool := isKindIn (fun pt => pt ≥ 64 && pt < 96)

/-- `payload()`, a pointer into the buffer by its distance from `data_`. -/
def payloadIn (p : View) : Option UInt64 := do
  let csrcCount ← csrcCountIn p.buf
  let offset := 12 + csrcCount.toUInt64*4
  let extension ← extensionIn p.buf
  if extension && p.size > offset + 4 then
    let extLen ← p.buf.read (offset + 2).toNat 2
    some (offset + (4 + (UInt16.ofNat (Bytes.toNat extLen)).toUInt64*4))
  else some offset

def payloadSizeIn (p : View) : Option UInt64 := do
  let offset ← payloadIn p
  if offset ≥ p.size then some 0 else some (p.size - offset)

section
variable {p : View} {data : List UInt8}

theorem csrcCount_lt (data : List UInt8) : (csrcCount data).toNat < 16 := by
  have hle : (csrcCount data).toNat ≤ 15 := by
    rw [csrcCount,UInt8.toNat_and]
    exact Nat.and_le_right
  omega

theorem slice_one {i : Nat} (h : i < data.length) : Bytes.slice data i 1 = [byte data i] := by
  rw [Bytes.slice,List.drop_eq_getElem_cons h,byte,List.getD_eq_getElem?_getD,
    List.getElem?_eq_getElem h]
  rfl

theorem byteIn_view {i : Nat} (h : i < p.data.length) : byteIn p.buf i = some (byte p.data i) := by
  rw [byteIn,View.buf,Cells.read_holding (Nat.le_refl _) (by omega),slice_one h]
  rfl

theorem byteIn_first (h : 12 ≤ p.data.length) : byteIn p.buf 0 = some (byte p.data 0) :=
  byteIn_view (by omega)

theorem byteIn_second (h : 12 ≤ p.data.length) : byteIn p.buf 1 = some (byte p.data 1) :=
  byteIn_view (by omega)

theorem csrcCountIn_view (h : 12 ≤ p.data.length) :
    csrcCountIn p.buf = some (csrcCount p.data) := by
  rw [csrcCountIn,byteIn_first h]
  rfl

theorem extensionIn_view (h : 12 ≤ p.data.length) :
    extensionIn p.buf = some (extension p.data) := by
  rw [extensionIn,byteIn_first h]
  rfl

theorem versionIn_view (h : 12 ≤ p.data.length) : versionIn p.buf = some (version p.data) := by
  rw [versionIn,byteIn_first h]
  rfl

theorem payloadTypeIn_view (h : 12 ≤ p.data.length) :
    payloadTypeIn p.buf = some (payloadType p.data) := by
  rw [payloadTypeIn,byteIn_second h]
  rfl

theorem field_lt (data : List UInt8) (i : Nat) : Bytes.field data i 2 < 65536 := by
  have hlen : (Bytes.slice data i 2).length ≤ 2 := List.length_take_le 2 _
  exact Nat.lt_of_lt_of_le (Bytes.toNat_lt _) (Nat.pow_le_pow_right (by omega) hlen)

theorem toNat_csrcEnd (data : List UInt8) :
    (12 + (csrcCount data).toUInt64*4 : UInt64).toNat = 12 + (csrcCount data).toNat*4 := by
  have hcount := csrcCount_lt data
  simp
  omega

theorem toNat_extensionEnd {offset : UInt64} (h : offset.toNat ≤ 72) {n : Nat} (hn : n < 65536) :
    (offset + (4 + (UInt16.ofNat n).toUInt64*4)).toNat = offset.toNat + (4 + n*4) := by
  simp
  omega

theorem payload_extended (hbit : extension data = true)
    (hsize : 12 + (csrcCount data).toNat*4 + 4 < data.length) :
    payload data = 12 + (csrcCount data).toNat*4 +
      (4 + Bytes.field data (12 + (csrcCount data).toNat*4 + 2) 2*4) :=
  if_pos (by simp [hbit,MIN_HEADER_SIZE]; omega)

theorem payload_plain
    (h : ¬(extension data = true ∧ 12 + (csrcCount data).toNat*4 + 4 < data.length)) :
    payload data = 12 + (csrcCount data).toNat*4 :=
  if_neg (by simpa [MIN_HEADER_SIZE] using h)

theorem payloadIn_view (h : 12 ≤ p.data.length) :
    ∃ offset, payloadIn p = some offset ∧ offset.toNat = payload p.data := by
  have hend := toNat_csrcEnd p.data
  have hcount := csrcCount_lt p.data
  have hguard : p.size > 12 + (csrcCount p.data).toUInt64*4 + 4 ↔
      12 + (csrcCount p.data).toNat*4 + 4 < p.data.length := by
    rw [gt_iff_lt,UInt64.lt_iff_toNat_lt,UInt64.toNat_add,hend,p.covers]
    simp
    omega
  simp only [payloadIn,csrcCountIn_view h,extensionIn_view h,Option.bind_eq_bind,Option.bind_some]
  by_cases hext : extension p.data = true ∧ 12 + (csrcCount p.data).toNat*4 + 4 < p.data.length
  · obtain ⟨hbit,hsize⟩ := hext
    -- the two bytes read lie behind the CSRC list and before the fourth byte of the extension
    have hat : (12 + (csrcCount p.data).toUInt64*4 + 2 : UInt64).toNat =
        12 + (csrcCount p.data).toNat*4 + 2 := by
      rw [UInt64.toNat_add,hend]
      simp
      omega
    have hread : p.buf.read (12 + (csrcCount p.data).toUInt64*4 + 2 : UInt64).toNat 2 =
        some (Bytes.slice p.data (12 + (csrcCount p.data).toNat*4 + 2) 2) := by
      rw [hat]
      exact Cells.read_holding (Nat.le_refl _) (by omega)
    have hlen := field_lt p.data (12 + (csrcCount p.data).toNat*4 + 2)
    refine ⟨_,by rw [if_pos (by simp [hbit,hguard,hsize]),hread]; rfl,?_⟩
    have hsum := toNat_extensionEnd (Nat.le_trans (Nat.le_of_eq hend) (by omega)) hlen
    rw [hend] at hsum
    rw [payload_extended hbit hsize]
    exact hsum
  · refine ⟨_,if_neg (by simpa [hguard] using hext),?_⟩
    rw [payload_plain hext,hend]

theorem payloadSizeIn_view (h : 12 ≤ p.data.length) :
    ∃ size, payloadSizeIn p = some size ∧ size.toNat = payloadSize p.data := by
  obtain ⟨offset,hread,hoffset⟩ := payloadIn_view h
  have hge : offset ≥ p.size ↔ payload p.data ≥ p.data.length := by
    rw [ge_iff_le,UInt64.le_iff_toNat_le,hoffset,p.covers]
  simp only [payloadSizeIn,hread,Option.bind_eq_bind,Option.bind_some,payloadSize]
  by_cases hend : payload p.data ≥ p.data.length
  · refine ⟨0,if_pos (hge.mpr hend),?_⟩
    rw [if_pos hend]
    rfl
  · have hle : offset ≤ p.size := by
      rw [UInt64.le_iff_toNat_le,hoffset,p.covers]
      omega
    refine ⟨p.size - offset,if_neg (fun he => hend (hge.mp he)),?_⟩
    rw [if_neg hend,UInt64.toNat_sub_of_le _ _ hle,hoffset,p.covers]

/-- The payload never starts before the end of the CSRC list, nor further behind it than
the longest extension. -/
theorem payload_bounds (data : List UInt8) :
    12 + (csrcCount data).toNat*4 ≤ payload data ∧ payload data ≤ 262216 := by
  have hcount := csrcCount_lt data
  by_cases hext : extension data = true ∧ 12 + (csrcCount data).toNat*4 + 4 < data.length
  · have hlen := field_lt data (12 + (csrcCount data).toNat*4 + 2)
    rw [payload_extended hext.1 hext.2]
    omega
  · rw [payload_plain hext]
    omega

theorem payload_suffix (data : List UInt8) (h : payloadSize data ≠ 0) :
    payload data + payloadSize data = data.length ∧
      Bytes.slice data (payload data) (payloadSize data) = data.drop (payload data) := by
  have hin : payload data < data.length := by
    by_contra hout
    exact h (if_pos (by omega))
  have hsize : payloadSize data = data.length - payload data := if_neg (by omega)
  refine ⟨by omega,?_⟩
  rw [Bytes.slice,hsize]
  exact List.take_of_length_le (by simp)

theorem isKindIn_view (kind : UInt8 → Bool) (p : View) : isKindIn kind p.buf p.size =
    some (12 ≤ p.data.length && version p.data == 2 && kind (payloadType p.data)) := by
  have hlen : p.size < 12 ↔ p.data.length < 12 := by
    rw [UInt64.lt_iff_toNat_lt,p.covers]
    rfl
  rw [isKindIn]
  by_cases h : p.data.length < 12
  · rw [if_pos (hlen.mpr h),decide_eq_false (Nat.not_le_of_lt h)]
    rfl
  · have hle := Nat.le_of_not_lt h
    rw [if_neg (fun hs => h (hlen.mp hs)),payloadTypeIn_view hle,versionIn_view hle,
      decide_eq_true hle]
    rfl

theorem classify_view (p : View) : isRtpIn p.buf p.size = some (isRtp p.data) ∧
    isRtcpIn p.buf p.size = some (isRtcp p.data) :=
  ⟨isKindIn_view _ p,isKindIn_view _ p⟩

end

end RtpPacket

open RtpPacket

/-- No accessor of a packet of at least 12 bytes reads outside its buffer, `size_t` does not
wrap, and the payload is empty or the rest of the buffer behind the CSRC list. -/
theorem header_reads_safe (p : View) (h : 12 ≤ p.data.length) :
    (versionIn p.buf = some (version p.data) ∧ paddingIn p.buf = some (padding p.data) ∧
      extensionIn p.buf = some (extension p.data) ∧ csrcCountIn p.buf = some (csrcCount p.data) ∧
      markerIn p.buf = some (marker p.data) ∧ payloadTypeIn p.buf = some (payloadType p.data) ∧
      sequenceNumberIn p.buf = some (sequenceNumber p.data) ∧
      timestampIn p.buf = some (timestamp p.data) ∧ ssrcIn p.buf = some (ssrc p.data)) ∧
    ∃ offset size, payloadIn p = some offset ∧ payloadSizeIn p = some size ∧
      offset.toNat = payload p.data ∧ offset.toNat ≤ 262216 ∧
      (size = 0 ∨ 12 + 4*(csrcCount p.data).toNat ≤ offset.toNat ∧
        offset.toNat + size.toNat = p.data.length ∧
        Bytes.slice p.data offset.toNat size.toNat = p.data.drop offset.toNat) := by
  have hfirst := byteIn_first h
  have hsecond := byteIn_second h
  refine ⟨⟨versionIn_view h,?_,extensionIn_view h,csrcCountIn_view h,?_,payloadTypeIn_view h,
    sequenceNumberIn_holding (Nat.le_refl _) (by omega),
    timestampIn_holding (Nat.le_refl _) (by omega),?_⟩,?_⟩
  · rw [paddingIn,hfirst]
    rfl
  · rw [markerIn,hsecond]
    rfl
  · rw [ssrcIn,View.buf,Cells.read_holding (Nat.le_refl _) h]
    rfl
  · obtain ⟨offset,hoffset,hstart⟩ := payloadIn_view h
    obtain ⟨size,hsize,hcount⟩ := payloadSizeIn_view h
    obtain ⟨hlow,hhigh⟩ := payload_bounds p.data
    refine ⟨offset,size,hoffset,hsize,hstart,by omega,?_⟩
    by_cases hzero : size = 0
    · exact Or.inl hzero
    · have hne : payloadSize p.data ≠ 0 := fun h0 =>
        hzero (UInt64.toNat_inj.mp (hcount.trans h0))
      rw [hstart,hcount]
      exact Or.inr ⟨by omega,payload_suffix p.data hne⟩

/-- 17 bytes that claim an extension of 65535 words. -/
def overclaiming : View where
  data := [0x90,0x60,0,1,0,0,0,2,0,0,0,3,0,0,0xFF,0xFF,0]
  size := 17
  covers := rfl

theorem overclaiming_safe : 12 ≤ overclaiming.data.length ∧
    ∃ offset size, payloadIn overclaiming = some offset ∧ payloadSizeIn overclaiming = some size ∧
      offset.toNat = 262156 ∧ size = 0 := by
  have hlen : 12 ≤ overclaiming.data.length := by decide
  obtain ⟨_,offset,size,hoffset,hsize,hstart,_,hrest⟩ := header_reads_safe overclaiming hlen
  have hpayload : payload overclaiming.data = 262156 := by decide
  refine ⟨hlen,offset,size,hoffset,hsize,hstart.trans hpayload,?_⟩
  rcases hrest with hzero | ⟨_,hsum,_⟩
  · exact hzero
  · -- an offset past the end leaves no room for a payload
    have hend : overclaiming.data.length = 17 := by decide
    omega

end MaiaMeet
