import MaiaMeet.Bytes
set_option autoImplicit false

/-! A buffer of fixed length whose bytes may not be initialised yet. An access outside the
buffer and a read of a byte that was never written are faults: `none`. -/

abbrev Cells := List (Option UInt8)

namespace Cells

def uninit (n : Nat) : Cells := List.replicate n none

def initialised : Cells → Option (List UInt8)
  | [] => some []
  | none :: _ => none
  | some b :: m => (initialised m).map (b :: ·)

def read (m : Cells) (i n : Nat) : Option (List UInt8) :=
  if i + n ≤ m.length then initialised ((m.drop i).take n) else none

def write (m : Cells) (i : Nat) (bytes : List UInt8) : Option Cells :=
  if i + bytes.length ≤ m.length then
    some (m.take i ++ bytes.map some ++ m.drop (i + bytes.length))
  else none

def holding (n : Nat) (data : List UInt8) : Cells :=
  data.map some ++ uninit (n - data.length)

variable {n i k : Nat} {data bytes : List UInt8} {m m' : Cells}

@[simp] theorem length_uninit : (uninit n).length = n := List.length_replicate

theorem length_holding (h : data.length ≤ n) : (holding n data).length = n := by
  simp [holding]
  omega

@[simp] theorem initialised_map (data : List UInt8) : initialised (data.map some) = some data := by
  induction data with
  | nil => rfl
  | cons b data ih => simp [initialised,ih]

theorem initialised_eq_none (h : none ∈ m) : initialised m = none := by
  induction m with
  | nil => cases h
  | cons b m ih =>
    cases b with
    | none => rfl
    | some b =>
      have htail : none ∈ m := by simpa using h
      simp [initialised,ih htail]

theorem read_write (h : m.write i bytes = some m') : m'.read i bytes.length = some bytes := by
  unfold write at h
  split at h
  · rename_i hsize
    cases h
    have hi : (m.take i).length = i := by simp; omega
    have hdrop : (m.take i ++ bytes.map some ++ m.drop (i + bytes.length)).drop i =
        bytes.map some ++ m.drop (i + bytes.length) := by
      rw [List.append_assoc]
      exact List.drop_left' hi
    rw [read,hdrop,List.take_left' (List.length_map _),initialised_map,if_pos]
    simp
    omega
  · cases h

theorem write_isSome (h : i + bytes.length ≤ m.length) : ∃ m', m.write i bytes = some m' :=
  ⟨_,if_pos h⟩

theorem write_uninit (h : data.length ≤ n) : (uninit n).write 0 data = some (holding n data) := by
  have hsize : 0 + data.length ≤ (uninit n).length := by simpa using h
  rw [write,if_pos hsize,Nat.zero_add]
  simp [holding,uninit]

theorem write_uninit_none (h : n < data.length) : (uninit n).write 0 data = none := by
  apply if_neg
  simpa using h

theorem read_holding (hn : data.length ≤ n) (h : i + k ≤ data.length) :
    (holding n data).read i k = some (Bytes.slice data i k) := by
  have hsize : i + k ≤ (holding n data).length := by rw [length_holding hn]; omega
  have hslice : ((holding n data).drop i).take k = (Bytes.slice data i k).map some := by
    rw [holding,List.drop_append_of_le_length (by simp; omega),
      List.take_append_of_le_length (by simp; omega),Bytes.slice,List.map_take,List.map_drop]
  rw [read,if_pos hsize,hslice,initialised_map]

/-- A read that goes past the bytes written is a fault. -/
theorem read_holding_none (hk : 0 < k) (h : data.length < i + k) :
    (holding n data).read i k = none := by
  unfold read
  split
  · rename_i hsize
    simp only [holding,List.length_append,List.length_map,length_uninit] at hsize
    apply initialised_eq_none
    -- the first byte read that was not written
    apply List.mem_of_getElem? (i := max i data.length - i)
    rw [List.getElem?_take_of_lt (by omega),List.getElem?_drop,holding,
      List.getElem?_append_right (by rw [List.length_map]; omega),uninit,List.getElem?_replicate,
      if_pos (by rw [List.length_map]; omega)]
  · rfl

theorem write_holding (hn : data.length ≤ n) (h : i + bytes.length ≤ data.length) :
    (holding n data).write i bytes = some (holding n (Bytes.write data i bytes)) := by
  have hsize : i + bytes.length ≤ (holding n data).length := by rw [length_holding hn]; omega
  have hrest : n - (Bytes.write data i bytes).length = n - data.length := by
    rw [Bytes.length_write h]
  rw [write,if_pos hsize,holding,holding,hrest,List.take_append_of_le_length (by simp; omega),
    List.drop_append_of_le_length (by simp; omega),Bytes.write]
  simp

end Cells
