import MaiaMeet.Percent
import MaiaMeet.Utf8
set_option autoImplicit false

/-!
Queries of URLs as `application/x-www-form-urlencoded` has them: a list of named values, each in
the octets of its UTF-8 form, and its text in ASCII. No name has to be different from the others.
-/

namespace Query

abbrev Params := List (List UInt8 × List UInt8)

/-- `*-._` and the letters and digits -/
def kept (b : UInt8) : Bool :=
  b == 42 || b == 45 || b == 46 || b == 95 || (48 ≤ b && b ≤ 57) || (65 ≤ b && b ≤ 90) ||
    (97 ≤ b && b ≤ 122)

def encodeOctet (b : UInt8) : List UInt16 :=
  if b = 32 then [43] else if kept b then [b.toUInt16] else Percent.escape b

def encode (octets : List UInt8) : List UInt16 := octets.flatMap encodeOctet

/-- An escape that is none stays as it is. -/
def percentDecode : List UInt16 → List UInt8
  | [] => []
  | u :: rest =>
    if u = 37 then
      match rest with
      | hi :: lo :: rest' =>
        match Percent.octet hi lo with
        | some b => b :: percentDecode rest'
        | none => 37 :: percentDecode (hi :: lo :: rest')
      | [hi] => 37 :: percentDecode [hi]
      | [] => [37]
    else u.toUInt8 :: percentDecode rest

def plusToSpace (u : UInt16) : UInt16 := if u = 43 then 32 else u

def decode (text : List UInt16) : List UInt8 := Utf8.decode (percentDecode (text.map plusToSpace))

def parsePair (text : List UInt16) : List UInt8 × List UInt8 :=
  (decode (text.takeWhile (· ≠ 61)),decode ((text.dropWhile (· ≠ 61)).drop 1))

def parse (text : List UInt16) : Params := ((text.splitOn 38).filter (· ≠ [])).map parsePair

def pairText (p : List UInt8 × List UInt8) : List UInt16 := encode p.1 ++ 61 :: encode p.2

def serialize (params : Params) : List UInt16 := [38].intercalate (params.map pairText)

def get (params : Params) (name : List UInt8) : Option (List UInt8) :=
  (params.find? (fun p => p.1 = name)).map Prod.snd

/-- The first value of the name is replaced and the others go; a new name comes last. -/
def set (params : Params) (name value : List UInt8) : Params :=
  match params with
  | [] => [(name,value)]
  | p :: params =>
    if p.1 = name then (name,value) :: params.filter (fun q => q.1 ≠ name)
    else p :: set params name value

/-- Letters, digits and `%*+-._`: what the text of a name or value is made of. -/
def plain (u : UInt16) : Bool :=
  u == 37 || u == 42 || u == 43 || u == 45 || u == 46 || u == 95 || (48 ≤ u && u ≤ 57) ||
    (65 ≤ u && u ≤ 90) || (97 ≤ u && u ≤ 122)

theorem plain_lt {u : UInt16} (h : plain u) : u.toNat < 128 := by
  simp [plain,← UInt16.toNat_inj,UInt16.le_iff_toNat_le] at h
  omega

theorem encodeOctet_plain (b : UInt8) : ∀ u ∈ encodeOctet b, plain u := by
  have hall : ∀ k : Fin 256, (encodeOctet (UInt8.ofNat k)).all plain := by decide +kernel
  have hb := hall ⟨b.toNat,b.toNat_lt⟩
  rw [UInt8.ofNat_toNat] at hb
  exact List.all_eq_true.mp hb

theorem encode_plain {octets : List UInt8} {u : UInt16} (h : u ∈ encode octets) : plain u := by
  obtain ⟨b,_,hu⟩ := List.mem_flatMap.mp h
  exact encodeOctet_plain b u hu

theorem percentDecode_ne {u : UInt16} (hu : u ≠ 37) (rest : List UInt16) :
    percentDecode (u :: rest) = u.toUInt8 :: percentDecode rest := by
  rw [percentDecode.eq_def]
  simp [hu]

theorem percentDecode_escape (b : UInt8) (rest : List UInt16) :
    percentDecode (Percent.escape b ++ rest) = b :: percentDecode rest := by
  rw [Percent.escape,List.cons_append,List.cons_append,List.cons_append,List.nil_append,
    percentDecode.eq_def]
  simp [Percent.octet_hexDigits]

theorem percentDecode_octet (b : UInt8) (rest : List UInt16) :
    percentDecode ((encodeOctet b).map plusToSpace ++ rest) = b :: percentDecode rest := by
  by_cases hspace : b = 32
  · subst hspace
    exact percentDecode_ne (by decide) rest
  · by_cases hkept : kept b
    · have hall : ∀ k : Fin 256, kept (UInt8.ofNat k) → plusToSpace (UInt8.ofNat k).toUInt16 ≠ 37 ∧
          (plusToSpace (UInt8.ofNat k).toUInt16).toUInt8 = UInt8.ofNat k := by decide +kernel
      have hb := hall ⟨b.toNat,b.toNat_lt⟩
      rw [UInt8.ofNat_toNat] at hb
      obtain ⟨hne,hoctet⟩ := hb hkept
      rw [encodeOctet,if_neg hspace,if_pos hkept,List.map_singleton,List.singleton_append,
        percentDecode_ne hne,hoctet]
    · have hall : ∀ k : Fin 256, (Percent.escape (UInt8.ofNat k)).map plusToSpace =
          Percent.escape (UInt8.ofNat k) := by decide +kernel
      have hb := hall ⟨b.toNat,b.toNat_lt⟩
      rw [UInt8.ofNat_toNat] at hb
      rw [encodeOctet,if_neg hspace,if_neg hkept,hb,percentDecode_escape]

theorem percentDecode_encode (octets : List UInt8) :
    percentDecode ((encode octets).map plusToSpace) = octets := by
  rw [encode]
  induction octets with
  | nil => rfl
  | cons b octets ih => rw [List.flatMap_cons,List.map_append,percentDecode_octet,ih]

/-- The names and values are texts: UTF-8 that is decoded to itself. -/
def Texts (params : Params) : Prop :=
  ∀ p ∈ params, Utf8.decode p.1 = p.1 ∧ Utf8.decode p.2 = p.2

theorem parse_texts (text : List UInt16) : Texts (parse text) := by
  intro p hp
  obtain ⟨l,_,rfl⟩ := List.mem_map.mp hp
  exact ⟨Utf8.decode_decode _,Utf8.decode_decode _⟩

theorem parsePair_pairText {p : List UInt8 × List UInt8}
    (h : Utf8.decode p.1 = p.1 ∧ Utf8.decode p.2 = p.2) : parsePair (pairText p) = p := by
  have hall : ∀ u ∈ encode p.1, decide (u ≠ 61) = true := by
    intro u hu
    refine decide_eq_true (fun h => ?_)
    have hplain := encode_plain hu
    rw [h] at hplain
    exact absurd hplain (by decide)
  have hstop : List.takeWhile (fun u => decide (u ≠ 61)) (61 :: encode p.2) = [] := rfl
  have hfrom : List.dropWhile (fun u => decide (u ≠ 61)) (61 :: encode p.2) = 61 :: encode p.2 := rfl
  rw [parsePair,pairText,List.takeWhile_append_of_pos hall,List.dropWhile_append_of_pos hall,hstop,
    hfrom,List.append_nil,List.drop_one,List.tail_cons,decode,decode,percentDecode_encode,
    percentDecode_encode,h.1,h.2]

theorem serialize_plain {params : Params} {u : UInt16} (h : u ∈ serialize params) :
    plain u ∨ u = 38 ∨ u = 61 := by
  induction params with
  | nil => cases h
  | cons p params ih =>
    have hpair : u ∈ pairText p → plain u ∨ u = 38 ∨ u = 61 := by
      intro hu
      rcases List.mem_append.mp hu with hu | hu
      · exact .inl (encode_plain hu)
      · rcases List.mem_cons.mp hu with hu | hu
        · exact .inr (.inr hu)
        · exact .inl (encode_plain hu)
    cases params with
    | nil => exact hpair (by simpa [serialize] using h)
    | cons q params =>
      have hsplit : serialize (p :: q :: params) =
          pairText p ++ ([38] ++ serialize (q :: params)) := by
        simp [serialize]
      rw [hsplit] at h
      rcases List.mem_append.mp h with h | h
      · exact hpair h
      · rcases List.mem_append.mp h with h | h
        · exact .inr (.inl (List.mem_singleton.mp h))
        · exact ih h

/-- Whatever texts the names and values are, they are read back as they were. -/
theorem parse_serialize {params : Params} (h : Texts params) : parse (serialize params) = params := by
  cases params with
  | nil => rfl
  | cons p params =>
    have hne : (p :: params).map pairText ≠ [] := by simp
    have hsep : ∀ l ∈ (p :: params).map pairText, 38 ∉ l := by
      intro l hl hin
      obtain ⟨q,_,rfl⟩ := List.mem_map.mp hl
      rcases List.mem_append.mp hin with h | h
      · exact absurd (encode_plain h) (by decide)
      · rcases List.mem_cons.mp h with h | h
        · cases h
        · exact absurd (encode_plain h) (by decide)
    have hfilter : ((p :: params).map pairText).filter (· ≠ []) = (p :: params).map pairText := by
      refine List.filter_eq_self.mpr (fun l hl => ?_)
      obtain ⟨q,_,rfl⟩ := List.mem_map.mp hl
      simp [pairText]
    have hid : ((p :: params).map pairText).map parsePair = p :: params := by
      rw [List.map_map]
      exact (List.map_congr_left (fun q hq => parsePair_pairText (h q hq))).trans (List.map_id _)
    rw [parse,serialize,List.splitOn_intercalate 38 hsep hne,hfilter,hid]

section
variable (params : Params) (name value : List UInt8)

theorem set_texts (h : Texts params) (hname : Utf8.decode name = name)
    (hvalue : Utf8.decode value = value) : Texts (set params name value) := by
  induction params with
  | nil =>
    intro p hp
    rw [List.mem_singleton.mp hp]
    exact ⟨hname,hvalue⟩
  | cons q params ih =>
    have hrest : Texts params := fun p hp => h p (List.mem_cons_of_mem q hp)
    intro p hp
    rw [set] at hp
    split at hp
    · rcases List.mem_cons.mp hp with rfl | hp
      · exact ⟨hname,hvalue⟩
      · exact hrest p (List.mem_of_mem_filter hp)
    · rcases List.mem_cons.mp hp with rfl | hp
      · exact h p List.mem_cons_self
      · exact ih hrest p hp

theorem get_set : get (set params name value) name = some value := by
  induction params with
  | nil => simp [set,get]
  | cons p params ih =>
    rw [set]
    by_cases hp : p.1 = name
    · rw [if_pos hp]
      simp [get]
    · rw [if_neg hp,get,List.find?_cons_of_neg (by simpa using hp)]
      exact ih

/-- The parameters of other names stay, in their order. -/
theorem filter_set : (set params name value).filter (fun q => q.1 ≠ name) =
    params.filter (fun q => q.1 ≠ name) := by
  induction params with
  | nil => simp [set]
  | cons p params ih =>
    rw [set]
    by_cases hp : p.1 = name
    · rw [if_pos hp]
      simp [hp]
    · rw [if_neg hp,List.filter_cons_of_pos (by simpa using hp),ih,
        List.filter_cons_of_pos (by simpa using hp)]

theorem set_set : set (set params name value) name value = set params name value := by
  induction params with
  | nil => simp [set]
  | cons p params ih =>
    rw [set]
    by_cases hp : p.1 = name
    · rw [if_pos hp,set,if_pos rfl,List.filter_filter]
      simp
    · rw [if_neg hp,set,if_neg hp,ih]

end

end Query
