import Mathlib.Data.List.Basic
set_option autoImplicit false

/-!
The UTF-8 decoder of the Encoding Standard, which puts U+FFFD for what is no UTF-8, with its
output as octets again. An octet that does not go on with a character is read once more as the
first of another.
-/

namespace Utf8

/-- The octets of a character read so far, how many it lacks, and the bounds of the next one. -/
structure State where
  pending : List UInt8
  missing : Nat
  low : UInt8
  high : UInt8
  deriving DecidableEq, Repr

def idle : State := ⟨[],0,0x80,0xbf⟩

/-- U+FFFD -/
def replacement : List UInt8 := [0xef,0xbf,0xbd]

def lead (b : UInt8) : Option State :=
  if 0xc2 ≤ b ∧ b ≤ 0xdf then some ⟨[b],1,0x80,0xbf⟩
  else if 0xe0 ≤ b ∧ b ≤ 0xef then
    some ⟨[b],2,if b = 0xe0 then 0xa0 else 0x80,if b = 0xed then 0x9f else 0xbf⟩
  else if 0xf0 ≤ b ∧ b ≤ 0xf4 then
    some ⟨[b],3,if b = 0xf0 then 0x90 else 0x80,if b = 0xf4 then 0x8f else 0xbf⟩
  else none

def begin (b : UInt8) : List UInt8 × State :=
  if b < 0x80 then ([b],idle)
  else match lead b with
    | some s => ([],s)
    | none => (replacement,idle)

def step (s : State) (b : UInt8) : List UInt8 × State :=
  if s.missing = 0 then begin b
  else if s.low ≤ b ∧ b ≤ s.high then
    if s.missing = 1 then (s.pending ++ [b],idle)
    else ([],⟨s.pending ++ [b],s.missing - 1,0x80,0xbf⟩)
  else (replacement ++ (begin b).1,(begin b).2)

def decodeFrom : State → List UInt8 → List UInt8
  | s, [] => if s.missing = 0 then [] else replacement
  | s, b :: octets => (step s b).1 ++ decodeFrom (step s b).2 octets

def decode (octets : List UInt8) : List UInt8 := decodeFrom idle octets

def Clean (octets : List UInt8) : Prop := ∀ rest, decode (octets ++ rest) = octets ++ decode rest

def Reached (s : State) : Prop := ∀ rest, decode (s.pending ++ rest) = decodeFrom s rest

section
variable {s : State} {a b : List UInt8}

theorem clean_nil : Clean [] := fun _ => rfl

theorem Clean.append (ha : Clean a) (hb : Clean b) : Clean (a ++ b) := by
  intro rest
  rw [List.append_assoc,ha,hb,List.append_assoc]

theorem Clean.decode (h : Clean a) : Utf8.decode a = a := by
  have hnil := h []
  rw [List.append_nil] at hnil
  exact hnil.trans (List.append_nil a)

theorem clean_replacement : Clean replacement := fun _ => rfl

theorem clean_ascii {x : UInt8} (h : x < 0x80) : Clean [x] := by
  intro rest
  have hbegin : begin x = ([x],idle) := if_pos h
  have hstep : step idle x = ([x],idle) := hbegin
  rw [Utf8.decode,List.singleton_append,decodeFrom,hstep]
  rfl

theorem reached_idle : Reached idle := fun _ => rfl

/-- Where a character begins: what comes out is clean, and the state is reached. -/
theorem begin_reached (x : UInt8) : Clean (begin x).1 ∧ Reached (begin x).2 := by
  by_cases hascii : x < 0x80
  · rw [begin,if_pos hascii]
    exact ⟨clean_ascii hascii,reached_idle⟩
  · cases hlead : lead x with
    | none =>
      rw [begin,if_neg hascii,hlead]
      exact ⟨clean_replacement,reached_idle⟩
    | some s =>
      have hbegin : begin x = ([],s) := by rw [begin,if_neg hascii,hlead]
      have hstep : step idle x = ([],s) := hbegin
      have hpending : s.pending = [x] := by
        unfold lead at hlead
        split at hlead
        · cases hlead; rfl
        · split at hlead
          · cases hlead; rfl
          · split at hlead <;> cases hlead
            rfl
      rw [hbegin]
      refine ⟨clean_nil,fun rest => ?_⟩
      rw [hpending,Utf8.decode,List.singleton_append,decodeFrom,hstep]
      rfl

theorem step_reached (h : Reached s) (x : UInt8) : Clean (step s x).1 ∧ Reached (step s x).2 := by
  rw [step]
  by_cases hidle : s.missing = 0
  · rw [if_pos hidle]
    exact begin_reached x
  · rw [if_neg hidle]
    have hmore : ∀ rest, Utf8.decode ((s.pending ++ [x]) ++ rest) =
        (step s x).1 ++ decodeFrom (step s x).2 rest := by
      intro rest
      rw [List.append_assoc,h]
      rfl
    rw [step,if_neg hidle] at hmore
    by_cases hrange : s.low ≤ x ∧ x ≤ s.high
    · rw [if_pos hrange] at hmore ⊢
      by_cases hlast : s.missing = 1
      · rw [if_pos hlast] at hmore ⊢
        exact ⟨hmore,reached_idle⟩
      · rw [if_neg hlast] at hmore ⊢
        exact ⟨clean_nil,hmore⟩
    · rw [if_neg hrange]
      obtain ⟨hclean,hreached⟩ := begin_reached x
      exact ⟨clean_replacement.append hclean,hreached⟩

theorem decodeFrom_clean (h : Reached s) (octets : List UInt8) : Clean (decodeFrom s octets) := by
  induction octets generalizing s with
  | nil =>
    rw [decodeFrom]
    split
    · exact clean_nil
    · exact clean_replacement
  | cons x octets ih =>
    obtain ⟨hclean,hreached⟩ := step_reached h x
    exact hclean.append (ih hreached)

end

/-- What has been decoded is decoded to itself. -/
theorem decode_decode (octets : List UInt8) : decode (decode octets) = decode octets :=
  (decodeFrom_clean reached_idle octets).decode

theorem decode_ascii {octets : List UInt8} (h : ∀ b ∈ octets, b < 0x80) : decode octets = octets := by
  refine Clean.decode ?_
  induction octets with
  | nil => exact clean_nil
  | cons b octets ih =>
    exact (clean_ascii (h b List.mem_cons_self)).append
      (ih (fun c hc => h c (List.mem_cons_of_mem b hc)))

example : decode [0x61,0xff,0xe2,0x82,0x62,0xed,0xa0,0xe2,0x82,0xac] =
    [0x61,0xef,0xbf,0xbd,0xef,0xbf,0xbd,0x62,0xef,0xbf,0xbd,0xef,0xbf,0xbd,0xe2,0x82,0xac] := by
  decide

end Utf8
