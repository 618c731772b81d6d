import Mathlib.Algebra.Group.Nat.Defs
import Mathlib.Data.List.Induction
set_option autoImplicit false

/-! Big-endian fields of a byte string: reading one, and overwriting one in place. -/

namespace Bytes

def toNat (bytes : List UInt8) : Nat := bytes.foldl (fun n b => 256*n + b.toNat) 0

/-- The last `n` bytes of a number. -/
def ofNat : Nat → Nat → List UInt8
  | 0, _ => []
  | n+1, v => ofNat n (v/256) ++ [.ofNat v]

@[simp] theorem length_ofNat (n v : Nat) : (ofNat n v).length = n := by
  induction n generalizing v with
  | zero => rfl
  | succ n ih => simp [ofNat,ih]

theorem toNat_append_singleton (bytes : List UInt8) (b : UInt8) :
    toNat (bytes ++ [b]) = 256*toNat bytes + b.toNat := by simp [toNat]

theorem toNat_lt (bytes : List UInt8) : toNat bytes < 256^bytes.length := by
  induction bytes using List.reverseRecOn with
  | nil => simp [toNat]
  | append_singleton bytes b ih =>
    have hb := b.toNat_lt
    rw [toNat_append_singleton,List.length_append,List.length_singleton,Nat.pow_succ]
    omega

theorem toNat_ofNat (n v : Nat) : toNat (ofNat n v) = v % 256^n := by
  induction n generalizing v with
  | zero => simp [ofNat,toNat,Nat.mod_one]
  | succ n ih =>
    have hb : (UInt8.ofNat v).toNat = v % 256 := UInt8.toNat_ofNat'
    rw [ofNat,toNat_append_singleton,ih,hb,Nat.pow_succ,Nat.mul_comm (256^n) 256,
      Nat.mod_mul]
    omega

def slice (data : List UInt8) (i n : Nat) : List UInt8 := (data.drop i).take n

def field (data : List UInt8) (i n : Nat) : Nat := toNat (slice data i n)

def write (data : List UInt8) (i : Nat) (bytes : List UInt8) : List UInt8 :=
  data.take i ++ bytes ++ data.drop (i + bytes.length)

variable {data bytes : List UInt8} {i : Nat}

theorem length_write (h : i + bytes.length ≤ data.length) :
    (write data i bytes).length = data.length := by
  simp [write]
  omega

theorem getElem?_write (h : i + bytes.length ≤ data.length) {j : Nat}
    (hj : j < i ∨ i + bytes.length ≤ j) : (write data i bytes)[j]? = data[j]? := by
  have hi : (data.take i).length = i := by simp; omega
  rcases hj with hj | hj
  · rw [write,List.append_assoc,List.getElem?_append_left (by omega),List.getElem?_take_of_lt hj]
  · rw [write,List.getElem?_append_right (by simp; omega),List.getElem?_drop]
    congr 1
    simp
    omega

theorem slice_write (h : i + bytes.length ≤ data.length) :
    slice (write data i bytes) i bytes.length = bytes := by
  have hi : (data.take i).length = i := by simp; omega
  rw [slice,write,List.append_assoc,List.drop_append_of_le_length (by omega),
    List.drop_eq_nil_of_le (by omega),List.nil_append,List.take_append_of_le_length (by omega),
    List.take_length]

theorem slice_congr {data' : List UInt8} {n : Nat}
    (h : ∀ j, i ≤ j → j < i + n → data'[j]? = data[j]?) :
    slice data' i n = slice data i n := by
  apply List.ext_getElem?
  intro j
  rw [slice,slice]
  by_cases hj : j < n
  · rw [List.getElem?_take_of_lt hj,List.getElem?_take_of_lt hj,List.getElem?_drop,
      List.getElem?_drop]
    exact h (i+j) (by omega) (by omega)
  · rw [List.getElem?_take_eq_none (by omega),List.getElem?_take_eq_none (by omega)]

theorem field_ofNat {p q : List UInt8} {n v : Nat} (hdata : data = p ++ ofNat n v ++ q)
    (hi : p.length = i) (h : v < 256^n) : field data i n = v := by
  have hslice : slice data i n = ofNat n v := by
    rw [slice,hdata,← hi,List.append_assoc,List.drop_left,List.take_append_of_le_length (by simp),
      List.take_of_length_le (by simp)]
  rw [field,hslice,toNat_ofNat,Nat.mod_eq_of_lt h]

theorem field_write (h : i + bytes.length ≤ data.length) :
    field (write data i bytes) i bytes.length = toNat bytes := by rw [field,slice_write h]

end Bytes
