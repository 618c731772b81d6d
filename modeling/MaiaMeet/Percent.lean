import Mathlib.Data.List.Basic
set_option autoImplicit false

/-!
Percent-encoding of text in UTF-16 code units: an escape stands for one byte of a character's
UTF-8 form. `decode` is the operation of that name in ECMAScript, with no escape preserved.
-/

namespace Percent

def hexDigit (n : Nat) : UInt16 := UInt16.ofNat (if n < 10 then 48 + n else 55 + n)

def hexValue (u : UInt16) : Option Nat :=
  if 48 ≤ u ∧ u ≤ 57 then some (u.toNat - 48)
  else if 65 ≤ u ∧ u ≤ 70 then some (u.toNat - 55)
  else if 97 ≤ u ∧ u ≤ 102 then some (u.toNat - 87)
  else none

/-- `%XX` -/
def escape (b : UInt8) : List UInt16 := [37,hexDigit (b.toNat / 16),hexDigit (b.toNat % 16)]

def octet (hi lo : UInt16) : Option UInt8 := do
  let h ← hexValue hi
  let l ← hexValue lo
  pure (UInt8.ofNat (16 * h + l))

def utf16 (c : Char) : List UInt16 :=
  if c.val.toNat < 0x10000 then [UInt16.ofNat c.val.toNat]
  else [UInt16.ofNat (0xd800 + (c.val.toNat - 0x10000) / 0x400),
    UInt16.ofNat (0xdc00 + (c.val.toNat - 0x10000) % 0x400)]

def leadingOnes (b : UInt8) : Nat :=
  if b < 0x80 then 0 else if b < 0xc0 then 1 else if b < 0xe0 then 2
  else if b < 0xf0 then 3 else if b < 0xf8 then 4 else 5

def character (octets : List UInt8) : Option Char :=
  (octets.toByteArray.utf8DecodeChar? 0).filter (fun c => String.utf8EncodeChar c = octets)

/-- `octets` have been read of a character that lacks `missing` more. -/
def decodeFrom : List UInt8 → Nat → List UInt16 → Option (List UInt16)
  | _, missing, [] => if missing = 0 then some [] else none
  | octets, missing, c :: rest =>
    if c = 37 then
      match rest with
      | hi :: lo :: rest => do
        let b ← octet hi lo
        match missing with
        | 0 =>
          match leadingOnes b with
          | 0 => (decodeFrom [] 0 rest).map (b.toUInt16 :: ·)
          | 2 => decodeFrom [b] 1 rest
          | 3 => decodeFrom [b] 2 rest
          | 4 => decodeFrom [b] 3 rest
          | _ => none
        | 1 =>
          match character (octets ++ [b]) with
          | none => none
          | some v => (decodeFrom [] 0 rest).map (utf16 v ++ ·)
        | missing + 2 => decodeFrom (octets ++ [b]) (missing + 1) rest
      | _ => none
    else if missing = 0 then (decodeFrom [] 0 rest).map (c :: ·) else none

def decode (s : List UInt16) : Option (List UInt16) := decodeFrom [] 0 s

def encodeChar (keep : Char → Bool) (c : Char) : List UInt16 :=
  if keep c then utf16 c else (String.utf8EncodeChar c).flatMap escape

def encode (keep : Char → Bool) (cs : List Char) : List UInt16 := cs.flatMap (encodeChar keep)

theorem hexValue_hexDigit {n : Nat} (h : n < 16) : hexValue (hexDigit n) = some n := by
  have hall : ∀ k : Fin 16, hexValue (hexDigit k) = some k.val := by decide
  exact hall ⟨n,h⟩

theorem octet_hexDigits (b : UInt8) :
    octet (hexDigit (b.toNat / 16)) (hexDigit (b.toNat % 16)) = some b := by
  have hb := b.toNat_lt
  have hhi : b.toNat / 16 < 16 := by omega
  have hlo : b.toNat % 16 < 16 := by omega
  have hval : 16 * (b.toNat / 16) + b.toNat % 16 = b.toNat := by omega
  rw [octet,hexValue_hexDigit hhi,hexValue_hexDigit hlo]
  simp only [Option.bind_eq_bind,Option.bind_some,hval]
  simp

theorem character_utf8EncodeChar (c : Char) : character (String.utf8EncodeChar c) = some c := by
  have h := ByteArray.utf8DecodeChar?_utf8EncodeChar_append (b := ByteArray.empty) (c := c)
  rw [ByteArray.append_empty] at h
  simp [character,h]

theorem leadingOnes_ofNat {n : Nat} (hn : n < 256) :
    leadingOnes (UInt8.ofNat n) =
      if n < 0x80 then 0 else if n < 0xc0 then 1 else if n < 0xe0 then 2
      else if n < 0xf0 then 3 else if n < 0xf8 then 4 else 5 := by
  simp [leadingOnes,UInt8.lt_iff_toNat_lt,Nat.mod_eq_of_lt hn]

theorem leadingOnes_utf8EncodeChar {c : Char} {b : UInt8} {bs : List UInt8}
    (h : String.utf8EncodeChar c = b :: bs) :
    leadingOnes b = if bs = [] then 0 else bs.length + 1 := by
  simp only [String.utf8EncodeChar] at h
  split at h
  · cases h
    rw [leadingOnes_ofNat (by omega),if_pos (by omega),if_pos rfl]
  · split at h
    · cases h
      rw [leadingOnes_ofNat (by omega),if_neg (by omega),if_neg (by omega),if_pos (by omega)]
      rfl
    · split at h
      · cases h
        rw [leadingOnes_ofNat (by omega),if_neg (by omega),if_neg (by omega),if_neg (by omega),
          if_pos (by omega)]
        rfl
      · cases h
        rw [leadingOnes_ofNat (by omega),if_neg (by omega),if_neg (by omega),if_neg (by omega),
          if_neg (by omega),if_pos (by omega)]
        rfl

theorem decodeFrom_escape (octets : List UInt8) (missing : Nat) (b : UInt8) (rest : List UInt16) :
    decodeFrom octets missing (escape b ++ rest) =
      match missing with
      | 0 =>
        match leadingOnes b with
        | 0 => (decodeFrom [] 0 rest).map (b.toUInt16 :: ·)
        | 2 => decodeFrom [b] 1 rest
        | 3 => decodeFrom [b] 2 rest
        | 4 => decodeFrom [b] 3 rest
        | _ => none
      | 1 =>
        match character (octets ++ [b]) with
        | none => none
        | some v => (decodeFrom [] 0 rest).map (utf16 v ++ ·)
      | missing + 2 => decodeFrom (octets ++ [b]) (missing + 1) rest := by
  simp only [escape,List.cons_append,List.nil_append]
  rw [decodeFrom]
  simp only [↓reduceIte,octet_hexDigits,Option.bind_eq_bind,Option.bind_some]

theorem decodeFrom_escapes {octets bs : List UInt8} {c : Char} (hbs : bs ≠ [])
    (hc : octets ++ bs = String.utf8EncodeChar c) (rest : List UInt16) :
    decodeFrom octets bs.length (bs.flatMap escape ++ rest) =
      (decodeFrom [] 0 rest).map (utf16 c ++ ·) := by
  induction bs generalizing octets with
  | nil => exact absurd rfl hbs
  | cons b bs ih =>
    rw [List.flatMap_cons,List.append_assoc,decodeFrom_escape]
    cases bs with
    | nil => simp [hc,character_utf8EncodeChar]
    | cons b' bs =>
      have hc' : (octets ++ [b]) ++ b' :: bs = String.utf8EncodeChar c := by simpa using hc
      have h := ih (by simp) hc'
      simpa using h

theorem decodeFrom_ne {u : UInt16} (hu : u ≠ 37) (rest : List UInt16) :
    decodeFrom [] 0 (u :: rest) = (decodeFrom [] 0 rest).map (u :: ·) := by
  rw [decodeFrom.eq_def]
  simp [hu]

theorem utf16_ascii {c : Char} (h : c.val.toNat < 0x80) : utf16 c = [UInt16.ofNat c.val.toNat] := by
  rw [utf16,if_pos (by omega)]

theorem utf16_of_single {c : Char} {b : UInt8} (h : String.utf8EncodeChar c = [b]) :
    utf16 c = [b.toUInt16] := by
  have hlt : c.val.toNat < 0x80 := by
    simp only [String.utf8EncodeChar] at h
    split at h
    · omega
    · split at h
      · cases h
      · split at h <;> cases h
  have hb : String.utf8EncodeChar c = [UInt8.ofNat c.val.toNat] := by
    rw [String.utf8EncodeChar]
    exact if_pos (by omega)
  rw [hb] at h
  cases h
  rw [utf16_ascii hlt]
  congr 1
  refine UInt16.toNat_inj.mp ?_
  rw [UInt8.toNat_toUInt16,UInt8.toNat_ofNat',UInt16.toNat_ofNat']
  omega

theorem utf8EncodeChar_ne_nil (c : Char) : String.utf8EncodeChar c ≠ [] := by
  have h := String.length_utf8EncodeChar c
  have hpos := c.utf8Size_pos
  intro hnil
  rw [hnil] at h
  simp at h
  omega

theorem decodeFrom_encodeChar {keep : Char → Bool}
    (hkeep : ∀ c, keep c → c.val.toNat < 0x80 ∧ c ≠ '%') (c : Char) (rest : List UInt16) :
    decodeFrom [] 0 (encodeChar keep c ++ rest) = (decodeFrom [] 0 rest).map (utf16 c ++ ·) := by
  by_cases hc : keep c
  · obtain ⟨hlt,hne⟩ := hkeep c hc
    have hu : UInt16.ofNat c.val.toNat ≠ 37 := by
      intro h
      have h := congrArg UInt16.toNat h
      rw [UInt16.toNat_ofNat',Nat.mod_eq_of_lt (by omega)] at h
      exact hne (Char.ext (UInt32.toNat_inj.mp h))
    rw [encodeChar,if_pos hc,utf16_ascii hlt]
    exact decodeFrom_ne hu rest
  · rw [encodeChar,if_neg hc]
    cases hbytes : String.utf8EncodeChar c with
    | nil => exact absurd hbytes (utf8EncodeChar_ne_nil c)
    | cons b bs =>
      have hones := leadingOnes_utf8EncodeChar hbytes
      rw [List.flatMap_cons,List.append_assoc,decodeFrom_escape]
      by_cases hbs : bs = []
      · subst hbs
        have hb : utf16 c = [b.toUInt16] := utf16_of_single hbytes
        rw [hones,if_pos rfl,hb]
        rfl
      · have hlen : bs.length = 1 ∨ bs.length = 2 ∨ bs.length = 3 := by
          have hsize := String.length_utf8EncodeChar c
          rw [hbytes,List.length_cons] at hsize
          have hle := c.utf8Size_le_four
          have hpos := List.length_pos_iff.mpr hbs
          omega
        have hc : [b] ++ bs = String.utf8EncodeChar c := hbytes.symm
        have hrest := decodeFrom_escapes hbs hc rest
        rw [if_neg hbs] at hones
        rcases hlen with h | h | h
        · rw [hones,h]
          rwa [h] at hrest
        · rw [hones,h]
          rwa [h] at hrest
        · rw [hones,h]
          rwa [h] at hrest

theorem decode_append {s : List UInt16} (hs : 37 ∉ s) (t : List UInt16) :
    decode (s ++ t) = (decode t).map (s ++ ·) := by
  induction s with
  | nil => simp
  | cons u s ih =>
    have hu : u ≠ 37 := fun h => hs (h ▸ List.mem_cons_self)
    have hrest := ih (fun h => hs (List.mem_cons_of_mem u h))
    rw [decode] at hrest
    rw [List.cons_append,decode,decodeFrom_ne hu,hrest]
    simp [decode,Function.comp_def]

/-- Every text of characters survives the encoding, whatever is kept unencoded of ASCII. -/
theorem decode_encode {keep : Char → Bool} (hkeep : ∀ c, keep c → c.val.toNat < 0x80 ∧ c ≠ '%')
    (cs : List Char) : decode (encode keep cs) = some (cs.flatMap utf16) := by
  induction cs with
  | nil => rfl
  | cons c cs ih =>
    rw [decode] at ih
    rw [decode,encode,List.flatMap_cons,decodeFrom_encodeChar hkeep,← encode,ih]
    rfl

end Percent
