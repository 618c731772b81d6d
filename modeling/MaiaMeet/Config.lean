import MaiaMeet.Json
set_option autoImplicit false

namespace MaiaMeet

def digitsValue (s : JsString) : Nat := s.foldl (fun n u => 10*n + (u.toNat-48)) 0

/-- `integer` of loadConfig. The fallback is written out and read back by the same
check there, which gives the fallback itself. -/
def integer (env : JsString → Option JsString) (name : JsString) (fallback max : Nat) :
    Except JsString {n : Nat // 1 ≤ n ∧ n ≤ max} :=
  let failure := name ++ js " must be an integer between 1 and " ++ js (toString max)
  let check (n : Nat) : Except JsString {n : Nat // 1 ≤ n ∧ n ≤ max} :=
    if h : 1 ≤ n ∧ n ≤ max then .ok ⟨n,h⟩ else .error failure
  match env name with
  | none => check fallback
  | some raw => if raw ≠ [] ∧ raw.all isDigit then check (digitsValue raw) else .error failure

/-- The part of the configuration the connection handler reads. The bounds are the
ones loadConfig enforces, so no other configuration can be built. -/
structure Config where
  maxParticipants : Nat
  rateLimitTokens : Nat
  rateLimitInterval : Nat
  rtcConfig : JsString
  maxParticipants_bounds : 1 ≤ maxParticipants ∧ maxParticipants ≤ 20
  rateLimitTokens_bounds : 1 ≤ rateLimitTokens ∧ rateLimitTokens ≤ 10000
  rateLimitInterval_pos : 0 < rateLimitInterval
  deriving DecidableEq, Repr

/-- The numeric half of loadConfig, in its order; `rtcConfig` is the text of the ICE
settings, which are checked before. -/
def loadConfig (env : JsString → Option JsString) (rtcConfig : JsString) :
    Except JsString Config := do
  let _ ← integer env (js "PORT") 3081 65535
  let _ ← integer env (js "MAX_MESSAGE_BYTES") 65536 1048576
  let maxParticipants ← integer env (js "MAX_PARTICIPANTS") 6 20
  let rateLimitTokens ← integer env (js "RATE_LIMIT_MESSAGES") 120 10000
  pure {
    maxParticipants := maxParticipants
    rateLimitTokens := rateLimitTokens
    rateLimitInterval := 1000
    rtcConfig := rtcConfig
    maxParticipants_bounds := maxParticipants.property
    rateLimitTokens_bounds := rateLimitTokens.property
    rateLimitInterval_pos := by decide }

def defaultConfig (rtcConfig : JsString) : Config where
  maxParticipants := 6
  rateLimitTokens := 120
  rateLimitInterval := 1000
  rtcConfig := rtcConfig
  maxParticipants_bounds := by decide
  rateLimitTokens_bounds := by decide
  rateLimitInterval_pos := by decide

/-- One message a second, as RATE_LIMIT_MESSAGES=1 has it. -/
def strictConfig : Config := { defaultConfig [] with
  rateLimitTokens := 1
  rateLimitTokens_bounds := by decide }

theorem loadConfig_empty (rtcConfig : JsString) :
    loadConfig (fun _ => none) rtcConfig = .ok (defaultConfig rtcConfig) := rfl

end MaiaMeet
