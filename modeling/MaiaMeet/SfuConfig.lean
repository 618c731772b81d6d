import MaiaMeet.Settings
set_option autoImplicit false

/-! The configuration of the SFU: what Config::fromEnv makes of the environment. -/

namespace MaiaMeet

abbrev Port := { n : Nat // 1 ≤ n ∧ n ≤ 65535 }

/-- The bounds and the order are the ones fromEnv enforces. -/
structure SfuConfig where
  udpBindAddress : String
  udpPortMin : Port
  udpPortMax : Port
  controlAddress : String
  controlPort : Port
  logLevel : String
  range_ok : udpPortMin.val ≤ udpPortMax.val
  deriving DecidableEq, Repr

inductive SfuError where
  | runtime_error (what : String)
  | out_of_range
  deriving DecidableEq, Repr

/-- `std::stoul` of a text of digits; an unsigned long has 64 bits. -/
def stoul (digits : List Char) : Except SfuError Nat :=
  let value := Nat.ofDigitChars 10 digits 0
  if value < 18446744073709551616 then .ok value else .error .out_of_range

def portError (name : String) : SfuError :=
  .runtime_error (name ++ " must be a port between 1 and 65535")

def portFromEnv (env : String → Option String) (name : String) (fallback : Port) :
    Except SfuError Port :=
  match env name with
  | none => .ok fallback
  | some value =>
    if value = "" ∨ value.toList.any (fun c => !c.isDigit) then .error (portError name)
    else do
      let port ← stoul value.toList
      if h : 1 ≤ port ∧ port ≤ 65535 then .ok ⟨port,h⟩ else .error (portError name)

def SfuConfig.fromEnv (env : String → Option String) : Except SfuError SfuConfig := do
  let udpPortMin ← portFromEnv env "MAIA_UDP_PORT_MIN" ⟨10000,by decide⟩
  let udpPortMax ← portFromEnv env "MAIA_UDP_PORT_MAX" ⟨10100,by decide⟩
  if h : udpPortMin.val ≤ udpPortMax.val then do
    let controlPort ← portFromEnv env "MAIA_CONTROL_PORT" ⟨3082,by decide⟩
    pure {
      udpBindAddress := (env "MAIA_UDP_BIND").getD "0.0.0.0"
      udpPortMin := udpPortMin
      udpPortMax := udpPortMax
      controlAddress := (env "MAIA_CONTROL_BIND").getD "127.0.0.1"
      controlPort := controlPort
      logLevel := (env "MAIA_LOG_LEVEL").getD "info"
      range_ok := h }
  else .error (.runtime_error "MAIA_UDP_PORT_MIN must be <= MAIA_UDP_PORT_MAX")

def portText (text : Option String) (fallback port : Port) : Prop :=
  match text with
  | none => port = fallback
  | some value => value ≠ "" ∧ value.toList.all Char.isDigit ∧
      Nat.ofDigitChars 10 value.toList 0 = port.val

theorem portFromEnv_ok {env : String → Option String} {name : String} {fallback port : Port} :
    portFromEnv env name fallback = .ok port ↔ portText (env name) fallback port := by
  unfold portFromEnv portText
  cases env name with
  | none => simp [eq_comm]
  | some value =>
    by_cases hdigits : value = "" ∨ value.toList.any (fun c => !c.isDigit)
    · simp only [if_pos hdigits]
      refine ⟨fun h => (by cases h),fun ⟨hne,hall,_⟩ => ?_⟩
      rcases hdigits with hempty | hany
      · exact absurd hempty hne
      · obtain ⟨c,hc,hbad⟩ := List.any_eq_true.mp hany
        simp [List.all_eq_true.mp hall c hc] at hbad
    · simp only [if_neg hdigits]
      rw [not_or] at hdigits
      have hall : value.toList.all Char.isDigit := by simpa using hdigits.2
      have hport := port.property
      unfold stoul
      generalize hvalue : Nat.ofDigitChars 10 value.toList 0 = n
      by_cases hrange : 1 ≤ n ∧ n ≤ 65535
      · have hlong : n < 18446744073709551616 := by omega
        simp only [if_pos hlong]
        change (if h : 1 ≤ n ∧ n ≤ 65535 then Except.ok (⟨n,h⟩ : Port) else .error _) = _ ↔ _
        rw [dif_pos hrange]
        constructor
        · intro h
          cases h
          exact ⟨hdigits.1,hall,rfl⟩
        · rintro ⟨_,_,hn⟩
          exact congrArg Except.ok (Subtype.ext hn)
      · refine ⟨fun h => ?_,fun ⟨_,_,hn⟩ => absurd (hn ▸ hport) hrange⟩
        by_cases hlong : n < 18446744073709551616
        · simp only [if_pos hlong] at h
          change (if h : 1 ≤ n ∧ n ≤ 65535 then Except.ok (⟨n,h⟩ : Port) else .error _) = _ at h
          rw [dif_neg hrange] at h
          cases h
        · simp only [if_neg hlong] at h
          cases h

structure SfuConfig.Describes (env : String → Option String) (cfg : SfuConfig) : Prop where
  udpBindAddress : cfg.udpBindAddress = (env "MAIA_UDP_BIND").getD "0.0.0.0"
  udpPortMin : portText (env "MAIA_UDP_PORT_MIN") ⟨10000,by decide⟩ cfg.udpPortMin
  udpPortMax : portText (env "MAIA_UDP_PORT_MAX") ⟨10100,by decide⟩ cfg.udpPortMax
  controlAddress : cfg.controlAddress = (env "MAIA_CONTROL_BIND").getD "127.0.0.1"
  controlPort : portText (env "MAIA_CONTROL_PORT") ⟨3082,by decide⟩ cfg.controlPort
  logLevel : cfg.logLevel = (env "MAIA_LOG_LEVEL").getD "info"

def SfuConfig.environment (cfg : SfuConfig) (name : String) : Option String :=
  if name = "MAIA_UDP_BIND" then some cfg.udpBindAddress
  else if name = "MAIA_UDP_PORT_MIN" then some (toString cfg.udpPortMin.val)
  else if name = "MAIA_UDP_PORT_MAX" then some (toString cfg.udpPortMax.val)
  else if name = "MAIA_CONTROL_BIND" then some cfg.controlAddress
  else if name = "MAIA_CONTROL_PORT" then some (toString cfg.controlPort.val)
  else if name = "MAIA_LOG_LEVEL" then some cfg.logLevel
  else none

theorem portText_toString (fallback port : Port) :
    portText (some (toString port.val)) fallback port := by
  have hlist : (toString port.val).toList = Nat.toDigits 10 port.val := Nat.toList_repr
  refine ⟨fun h => ?_,?_,?_⟩
  · rw [h] at hlist
    exact Nat.toDigits_ne_nil hlist.symm
  · rw [hlist,List.all_eq_true]
    exact fun d hd => Nat.isDigit_of_mem_toDigits (by omega) (by omega) hd
  · rw [hlist,Nat.ofDigitChars_ten_toDigits]

/-- fromEnv gives a configuration exactly if the environment describes it, no port wrapped or cut
short; and every configuration has an environment that does. -/
theorem sfu_config_exact (cfg : SfuConfig) :
    (∀ env, SfuConfig.fromEnv env = .ok cfg ↔ cfg.Describes env) ∧
      SfuConfig.fromEnv cfg.environment = .ok cfg := by
  have hexact : ∀ env, SfuConfig.fromEnv env = .ok cfg ↔ cfg.Describes env := by
    intro env
    unfold SfuConfig.fromEnv
    constructor
    · intro h
      obtain ⟨udpPortMin,hmin,h⟩ := except_bind h
      obtain ⟨udpPortMax,hmax,h⟩ := except_bind h
      split at h
      · obtain ⟨controlPort,hcontrol,h⟩ := except_bind h
        cases h
        exact ⟨rfl,portFromEnv_ok.mp hmin,portFromEnv_ok.mp hmax,rfl,portFromEnv_ok.mp hcontrol,rfl⟩
      · cases h
    · intro h
      rw [except_bind_ok (portFromEnv_ok.mpr h.udpPortMin),
        except_bind_ok (portFromEnv_ok.mpr h.udpPortMax),dif_pos cfg.range_ok,
        except_bind_ok (portFromEnv_ok.mpr h.controlPort)]
      simp only [← h.udpBindAddress,← h.controlAddress,← h.logLevel]
      rfl
  refine ⟨hexact,(hexact _).mpr ⟨rfl,?_,?_,rfl,?_,rfl⟩⟩
  · exact portText_toString _ _
  · exact portText_toString _ _
  · exact portText_toString _ _

end MaiaMeet
