import Mathlib.Data.List.DropRight
set_option autoImplicit false

namespace MaiaMeet

/-- A JavaScript string is its UTF-16 code units; `length` counts them. -/
abbrev JsString := List UInt16

instance : LawfulBEq JsString := inferInstanceAs (LawfulBEq (List UInt16))

def js (s : String) : JsString := s.toList.map (fun ch => ch.val.toUInt16)

/-- WhiteSpace and LineTerminator of ECMAScript, which `trim` removes. -/
def isSpace (u : UInt16) : Bool :=
  (9 ≤ u && u ≤ 13) || u == 0x20 || u == 0xa0 || u == 0x1680 || (0x2000 ≤ u && u ≤ 0x200a) ||
    u == 0x2028 || u == 0x2029 || u == 0x202f || u == 0x205f || u == 0x3000 || u == 0xfeff

def trim (s : JsString) : JsString := (s.dropWhile isSpace).rdropWhile isSpace

def isDigit (u : UInt16) : Bool := 48 ≤ u && u ≤ 57

/-- `[a-zA-Z0-9]` -/
def isAlnum (u : UInt16) : Bool := (97 ≤ u && u ≤ 122) || (65 ≤ u && u ≤ 90) || isDigit u

theorem trim_length_le (s : JsString) : (trim s).length ≤ s.length := by
  have h₁ := (List.rdropWhile_prefix isSpace (s.dropWhile isSpace)).length_le
  have h₂ := (List.dropWhile_sublist (l := s) isSpace).length_le
  exact Nat.le_trans h₁ h₂

/-- What `JSON.parse` can return. A number is told apart only as far as the code
looks: an integer, or any other number with its text. -/
inductive Json where
  | null : Json
  | bool : Bool → Json
  | int : Int → Json
  | nonInteger : JsString → Json
  | str : JsString → Json
  | arr : List Json → Json
  | obj : List (JsString × Json) → Json
  deriving Repr

mutual

def Json.decEq : (v w : Json) → Decidable (v = w)
  | .null, w => match w with
    | .null => isTrue rfl
    | .bool _ | .int _ | .nonInteger _ | .str _ | .arr _ | .obj _ => isFalse (by simp)
  | .bool b, w => match w with
    | .bool b' => decidable_of_iff (b = b') (by simp)
    | .null | .int _ | .nonInteger _ | .str _ | .arr _ | .obj _ => isFalse (by simp)
  | .int z, w => match w with
    | .int z' => decidable_of_iff (z = z') (by simp)
    | .null | .bool _ | .nonInteger _ | .str _ | .arr _ | .obj _ => isFalse (by simp)
  | .nonInteger s, w => match w with
    | .nonInteger s' => decidable_of_iff (s = s') (by simp)
    | .null | .bool _ | .int _ | .str _ | .arr _ | .obj _ => isFalse (by simp)
  | .str s, w => match w with
    | .str s' => decidable_of_iff (s = s') (by simp)
    | .null | .bool _ | .int _ | .nonInteger _ | .arr _ | .obj _ => isFalse (by simp)
  | .arr l, w => match w with
    | .arr l' => have := Json.decEqItems l l'; decidable_of_iff (l = l') (by simp)
    | .null | .bool _ | .int _ | .nonInteger _ | .str _ | .obj _ => isFalse (by simp)
  | .obj l, w => match w with
    | .obj l' => have := Json.decEqFields l l'; decidable_of_iff (l = l') (by simp)
    | .null | .bool _ | .int _ | .nonInteger _ | .str _ | .arr _ => isFalse (by simp)

def Json.decEqItems : (l m : List Json) → Decidable (l = m)
  | [], [] => isTrue rfl
  | [], _ :: _ | _ :: _, [] => isFalse (by simp)
  | v :: l, w :: m =>
    have := Json.decEq v w
    have := Json.decEqItems l m
    decidable_of_iff (v = w ∧ l = m) (by simp)

def Json.decEqFields : (l m : List (JsString × Json)) → Decidable (l = m)
  | [], [] => isTrue rfl
  | [], _ :: _ | _ :: _, [] => isFalse (by simp)
  | (n,v) :: l, (k,w) :: m =>
    have := Json.decEq v w
    have := Json.decEqFields l m
    decidable_of_iff ((n = k ∧ v = w) ∧ l = m) (by simp)

end

instance : DecidableEq Json := Json.decEq

/-- Reading a property: `none` is `undefined`, as for every value but an object here. -/
def Json.get : Json → JsString → Option Json
  | .obj fields, name => (fields.find? (fun f => f.1 = name)).map Prod.snd
  | _, _ => none

mutual

/-- ToString throws on a parsed object with a property of the name toString, which is no function,
and on an array that has such an entry. -/
def Json.toStringThrows : Json → Bool
  | .obj fields => fields.any (fun f => f.1 = js "toString")
  | .arr items => Json.entryThrows items
  | .null | .bool _ | .int _ | .nonInteger _ | .str _ => false

def Json.entryThrows : List Json → Bool
  | [] => false
  | v :: items => v.toStringThrows || Json.entryThrows items

end

/-- `typeof v === 'string'` -/
def Json.string? : Option Json → Option JsString
  | some (.str s) => some s
  | _ => none

/-- A field that may be missing or null besides holding a value. -/
inductive Nullable (α : Type) where
  | undefined : Nullable α
  | null : Nullable α
  | value : α → Nullable α
  deriving DecidableEq, Repr

/-- The property `JSON.stringify` writes; it leaves out one that is undefined. -/
def Nullable.field {α : Type} (name : JsString) (render : α → Json) :
    Nullable α → List (JsString × Json)
  | .undefined => []
  | .null => [(name,.null)]
  | .value a => [(name,render a)]

def Nullable.read {α : Type} (render : α → Json) : Nullable α → Option Json
  | .undefined => none
  | .null => some .null
  | .value a => some (render a)

/-- What a WebSocket message event carries: binary, or text with the result of
`JSON.parse` on it (`none` when it throws). -/
inductive Data where
  | binary : Data
  | text : Option Json → Data
  deriving DecidableEq, Repr

end MaiaMeet
