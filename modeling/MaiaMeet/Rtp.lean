import Mathlib.Data.List.Forall2
import MaiaMeet.Bytes
set_option autoImplicit false

/-! RtpPacket and RtpRewriter of the SFU. A packet is a view of a buffer; its functions
read and write the 12 bytes of the fixed header, so they are for buffers of that length. -/

namespace MaiaMeet

namespace RtpPacket

def MIN_HEADER_SIZE : Nat := 12

def byte (data : List UInt8) (i : Nat) : UInt8 := data.getD i 0

def version (data : List UInt8) : UInt8 := byte data 0 >>> 6
def padding (data : List UInt8) : Bool := (byte data 0 >>> 5) &&& 1 != 0
def extension (data : List UInt8) : Bool := (byte data 0 >>> 4) &&& 1 != 0
def csrcCount (data : List UInt8) : UInt8 := byte data 0 &&& 0x0F
def marker (data : List UInt8) : Bool := (byte data 1 >>> 7) &&& 1 != 0
def payloadType (data : List UInt8) : UInt8 := byte data 1 &&& 0x7F

def isRtp (data : List UInt8) : Bool :=
  MIN_HEADER_SIZE ≤ data.length && version data == 2 &&
    (payloadType data < 64 || payloadType data ≥ 96)

def isRtcp (data : List UInt8) : Bool :=
  MIN_HEADER_SIZE ≤ data.length && version data == 2 &&
    (payloadType data ≥ 64 && payloadType data < 96)

def sequenceNumber (data : List UInt8) : UInt16 := .ofNat (Bytes.field data 2 2)
def timestamp (data : List UInt8) : UInt32 := .ofNat (Bytes.field data 4 4)
def ssrc (data : List UInt8) : UInt32 := .ofNat (Bytes.field data 8 4)

def payload (data : List UInt8) : Nat :=
  let offset := MIN_HEADER_SIZE + (csrcCount data).toNat*4
  if extension data && data.length > offset + 4 then
    offset + (4 + Bytes.field data (offset+2) 2*4)
  else offset

def payloadSize (data : List UInt8) : Nat :=
  if payload data ≥ data.length then 0 else data.length - payload data

def setSequenceNumber (seq : UInt16) (data : List UInt8) : List UInt8 :=
  Bytes.write data 2 (Bytes.ofNat 2 seq.toNat)

def setTimestamp (ts : UInt32) (data : List UInt8) : List UInt8 :=
  Bytes.write data 4 (Bytes.ofNat 4 ts.toNat)

end RtpPacket

structure RtpRewriter where
  initialized : Bool
  seqOffset : UInt16
  tsOffset : UInt32
  lastInSeq : UInt16
  lastInTs : UInt32
  lastOutSeq : UInt16
  lastOutTs : UInt32
  deriving DecidableEq, Repr

namespace RtpRewriter
open RtpPacket

def new : RtpRewriter := ⟨false,0,0,0,0,0,0⟩

def reset (r : RtpRewriter) : RtpRewriter := { r with initialized := false }

def fixOffsets (r : RtpRewriter) (data : List UInt8) : RtpRewriter :=
  if r.initialized then r
  else { r with
    seqOffset := sequenceNumber data - (r.lastOutSeq + 1)
    tsOffset := timestamp data - (r.lastOutTs + 90000)
    initialized := true }

def rewrite (r : RtpRewriter) (data : List UInt8) : RtpRewriter × List UInt8 :=
  let r := r.fixOffsets data
  let lastInSeq := sequenceNumber data
  let lastInTs := timestamp data
  let lastOutSeq := lastInSeq - r.seqOffset
  let lastOutTs := lastInTs - r.tsOffset
  ({ r with lastInSeq, lastInTs, lastOutSeq, lastOutTs },
    setTimestamp lastOutTs (setSequenceNumber lastOutSeq data))

end RtpRewriter

section
variable {data : List UInt8}
open RtpPacket

theorem toNat_field (n : Nat) {v : Nat} (h : v < 256^n) :
    Bytes.toNat (Bytes.ofNat n v) = v := by rw [Bytes.toNat_ofNat,Nat.mod_eq_of_lt h]

theorem length_setSequenceNumber (h : 12 ≤ data.length) (seq : UInt16) :
    (setSequenceNumber seq data).length = data.length :=
  Bytes.length_write (by simp; omega)

theorem length_setTimestamp (h : 12 ≤ data.length) (ts : UInt32) :
    (setTimestamp ts data).length = data.length := Bytes.length_write (by simp; omega)

theorem sequenceNumber_set (h : 12 ≤ data.length) (seq : UInt16) :
    sequenceNumber (setSequenceNumber seq data) = seq := by
  have hsize : 2 + (Bytes.ofNat 2 seq.toNat).length ≤ data.length := by simp; omega
  have hfield := Bytes.field_write hsize
  rw [Bytes.length_ofNat,toNat_field 2 seq.toNat_lt] at hfield
  rw [sequenceNumber,setSequenceNumber,hfield,UInt16.ofNat_toNat]

theorem timestamp_set (h : 12 ≤ data.length) (ts : UInt32) :
    timestamp (setTimestamp ts data) = ts := by
  have hsize : 4 + (Bytes.ofNat 4 ts.toNat).length ≤ data.length := by simp; omega
  have hfield := Bytes.field_write hsize
  rw [Bytes.length_ofNat,toNat_field 4 ts.toNat_lt] at hfield
  rw [timestamp,setTimestamp,hfield,UInt32.ofNat_toNat]

theorem getElem?_setSequenceNumber (h : 12 ≤ data.length) (seq : UInt16) {j : Nat}
    (hj : j < 2 ∨ 4 ≤ j) : (setSequenceNumber seq data)[j]? = data[j]? :=
  Bytes.getElem?_write (by simp; omega) (by simp; omega)

theorem getElem?_setTimestamp (h : 12 ≤ data.length) (ts : UInt32) {j : Nat}
    (hj : j < 4 ∨ 8 ≤ j) : (setTimestamp ts data)[j]? = data[j]? :=
  Bytes.getElem?_write (by simp; omega) (by simp; omega)

theorem sequenceNumber_setTimestamp (h : 12 ≤ data.length) (ts : UInt32) :
    sequenceNumber (setTimestamp ts data) = sequenceNumber data := by
  unfold sequenceNumber Bytes.field
  rw [Bytes.slice_congr (fun j _ hj => getElem?_setTimestamp h ts (Or.inl hj))]

/-- A packet as a rewriter passes it on: moved by two constants, the same elsewhere. -/
structure Shifted (seqShift : UInt16) (tsShift : UInt32) (p q : List UInt8) : Prop where
  length : q.length = p.length
  outside : ∀ j, j < 2 ∨ 8 ≤ j → q[j]? = p[j]?
  seq : sequenceNumber q = sequenceNumber p + seqShift
  ts : timestamp q = timestamp p + tsShift

namespace RtpRewriter

def stream : RtpRewriter → List (List UInt8) → List (List UInt8)
  | _, [] => []
  | r, p :: ps => (r.rewrite p).2 :: stream (r.rewrite p).1 ps

theorem rewrite_shifted (h : 12 ≤ data.length) (r : RtpRewriter) :
    Shifted (-(r.fixOffsets data).seqOffset) (-(r.fixOffsets data).tsOffset) data
      (r.rewrite data).2 := by
  have hseq := length_setSequenceNumber h (sequenceNumber data - (r.fixOffsets data).seqOffset)
  have h' := Nat.le_trans h (Nat.le_of_eq hseq.symm)
  refine ⟨?_,?_,?_,?_⟩
  · exact (length_setTimestamp h' _).trans hseq
  · intro j hj
    exact (getElem?_setTimestamp h' _ (by omega)).trans (getElem?_setSequenceNumber h _ (by omega))
  · refine (sequenceNumber_setTimestamp h' _).trans ((sequenceNumber_set h _).trans ?_)
    rw [UInt16.sub_eq_add_neg]
  · refine (timestamp_set h' _).trans ?_
    rw [UInt32.sub_eq_add_neg]

theorem rewrite_initialized (r : RtpRewriter) (data : List UInt8) :
    (r.rewrite data).1.initialized = true ∧
      (r.rewrite data).1.seqOffset = (r.fixOffsets data).seqOffset ∧
      (r.rewrite data).1.tsOffset = (r.fixOffsets data).tsOffset := by
  refine ⟨?_,rfl,rfl⟩
  simp only [rewrite,fixOffsets]
  split
  · assumption
  · rfl

/-- A running stream moves every packet by its two constants. -/
theorem stream_shifted {ps : List (List UInt8)} (h : ∀ p ∈ ps, 12 ≤ p.length)
    {r : RtpRewriter} (hr : r.initialized = true) :
    List.Forall₂ (Shifted (-r.seqOffset) (-r.tsOffset)) ps (r.stream ps) := by
  induction ps generalizing r with
  | nil => exact .nil
  | cons p ps ih =>
    obtain ⟨hp,hps⟩ := List.forall_mem_cons.mp h
    have hfix : r.fixOffsets p = r := if_pos hr
    obtain ⟨hr',hseq,hts⟩ := r.rewrite_initialized p
    rw [hfix] at hseq hts
    have hhead := rewrite_shifted hp r
    rw [hfix] at hhead
    have htail := ih hps hr'
    rw [hseq,hts] at htail
    exact .cons hhead htail

/-- A stream from where the rewriter was left: the next number and time first, then the
same shifts. -/
theorem stream_first {p : List UInt8} {ps : List (List UInt8)} (h : ∀ q ∈ p :: ps, 12 ≤ q.length)
    {r : RtpRewriter} (hr : r.initialized = false) :
    List.Forall₂ (Shifted (r.lastOutSeq + 1 - sequenceNumber p)
      (r.lastOutTs + 90000 - timestamp p)) (p :: ps) (r.stream (p :: ps)) := by
  obtain ⟨hp,hps⟩ := List.forall_mem_cons.mp h
  have hfix : r.fixOffsets p = { r with
      seqOffset := sequenceNumber p - (r.lastOutSeq + 1)
      tsOffset := timestamp p - (r.lastOutTs + 90000)
      initialized := true } := by simp [fixOffsets,hr]
  have hseq : -(r.fixOffsets p).seqOffset = r.lastOutSeq + 1 - sequenceNumber p := by
    rw [hfix,UInt16.neg_sub]
  have hts : -(r.fixOffsets p).tsOffset = r.lastOutTs + 90000 - timestamp p := by
    rw [hfix,UInt32.neg_sub]
  obtain ⟨hr',hseq',hts'⟩ := r.rewrite_initialized p
  have hhead := rewrite_shifted hp r
  have htail := stream_shifted hps hr'
  rw [hseq',hts'] at htail
  rw [hseq,hts] at hhead htail
  exact .cons hhead htail

theorem stream_new {p : List UInt8} {ps : List (List UInt8)} (h : ∀ q ∈ p :: ps, 12 ≤ q.length) :
    List.Forall₂ (Shifted (1 - sequenceNumber p) (90000 - timestamp p)) (p :: ps)
      (new.stream (p :: ps)) := stream_first h (r := new) rfl

end RtpRewriter

end

end MaiaMeet
