import MaiaMeet.Handler
set_option autoImplicit false

/-! What the two sides write on the socket: the client's `send` and the objects the
server forwards, with the proof that the server reads back what a client wrote. -/

namespace MaiaMeet

def ClientType.name : ClientType → JsString
  | .ping => js "ping"
  | .roomCreate => js "room.create"
  | .roomJoin => js "room.join"
  | .signal .offer => js "webrtc.offer"
  | .signal .answer => js "webrtc.answer"
  | .signal .iceCandidate => js "webrtc.iceCandidate"
  | .chatSend => js "chat.send"
  | .unknown => []

theorem ofString_name (t : ClientType) : ClientType.ofString t.name = t := by
  match t with
  | .ping | .roomCreate | .roomJoin | .chatSend | .unknown => decide
  | .signal .offer | .signal .answer | .signal .iceCandidate => decide

/-- `send(type, payload, requestId)` of SignalingClient. -/
def clientMessage (type : ClientType) (fields : List (JsString × Json))
    (requestId : Option JsString) : Data :=
  .text (some (.obj ([(js "version",.int 1),(js "type",.str type.name),(js "payload",.obj fields)] ++
    (requestId.map (fun r => (js "requestId",Json.str r))).toList)))

theorem get_cons_self (name : JsString) (v : Json) (fields : List (JsString × Json)) :
    Json.get (.obj ((name,v) :: fields)) name = some v := by simp [Json.get]

theorem get_cons_ne {name other : JsString} (v : Json) (fields : List (JsString × Json))
    (h : other ≠ name) :
    Json.get (.obj ((other,v) :: fields)) name = Json.get (.obj fields) name := by
  simp [Json.get,h]

@[simp] theorem get_nil (name : JsString) : Json.get (.obj []) name = none := rfl

theorem envelope_clientMessage (type : ClientType) (fields : List (JsString × Json))
    (requestId : Option JsString) :
    envelope (clientMessage type fields requestId) = .ok ⟨type,.obj fields,requestId⟩ := by
  have hv : js "version" ≠ js "type" := by decide
  have hv' : js "version" ≠ js "payload" := by decide
  have hv'' : js "version" ≠ js "requestId" := by decide
  have ht : js "type" ≠ js "payload" := by decide
  have ht' : js "type" ≠ js "requestId" := by decide
  have hp : js "payload" ≠ js "requestId" := by decide
  cases requestId with
  | none =>
    simp [clientMessage,envelope,get_cons_self,get_cons_ne,hv,hv',hv'',ht,ht',hp,Json.string?,
      ofString_name]
  | some r =>
    simp [clientMessage,envelope,get_cons_self,get_cons_ne,hv,hv',hv'',ht,ht',hp,Json.string?,
      ofString_name]

def indexJson (n : Nat) : Json := .int n

/-- The object `forwarded` of the relay branch, as JSON.stringify writes it. -/
def Signal.forwarded : Signal → List (JsString × Json)
  | .offer sdp | .answer sdp => [(js "sdp",.str sdp)]
  | .iceCandidate c =>
    [(js "candidate",.str c.candidate)] ++ c.sdpMid.field (js "sdpMid") .str ++
      c.sdpMLineIndex.field (js "sdpMLineIndex") indexJson

/-- `{ ...forwarded, participantId }` -/
def Signal.payload (signal : Signal) (participantId : JsString) : Json :=
  .obj (signal.forwarded ++ [(js "participantId",.str participantId)])

def Signal.request (signal : Signal) (targetId : JsString) : List (JsString × Json) :=
  (js "targetId",.str targetId) :: signal.forwarded

def Signal.accepted : Signal → Bool
  | .offer sdp | .answer sdp => js "v=0" <+: sdp
  | .iceCandidate c => c.candidate.length ≤ 4096

theorem get_request_target (signal : Signal) (targetId : JsString) :
    Json.get (.obj (signal.request targetId)) (js "targetId") = some (.str targetId) := by
  simp [Signal.request,get_cons_self]

theorem get_nullable_self {α : Type} (name : JsString) (render : α → Json) (v : Nullable α) :
    Json.get (.obj (v.field name render)) name = v.read render := by
  cases v <;> simp [Nullable.field,Nullable.read,Json.get]

theorem get_append_nullable {α : Type} {name other : JsString} (render : α → Json)
    (v : Nullable α) (fields : List (JsString × Json)) (h : other ≠ name) :
    Json.get (.obj (v.field other render ++ fields)) name = Json.get (.obj fields) name := by
  cases v <;> simp [Nullable.field,Json.get,h]

theorem nullableString_read (v : Nullable JsString) : nullableString (v.read .str) = some v := by
  cases v <;> rfl

theorem nullableIndex_read (v : Nullable Nat) :
    nullableIndex (v.read indexJson) = some v := by
  cases v <;> simp [Nullable.read,nullableIndex,indexJson]

theorem get_field_append {α : Type} {name other : JsString} (render : α → Json)
    (fields : List (JsString × Json)) (v : Nullable α) (h : other ≠ name) :
    Json.get (.obj (fields ++ v.field other render)) name = Json.get (.obj fields) name := by
  cases v <;> simp [Nullable.field,Json.get,h,List.find?_append]

/-- A session's message passes the server's validation unchanged. -/
theorem validSignal_request {signal : Signal} (targetId : JsString) (h : signal.accepted) :
    validSignal (.obj (signal.request targetId)) signal.type = some signal := by
  have ht : ∀ name ∈ [js "sdp",js "candidate",js "sdpMid",js "sdpMLineIndex"],
      js "targetId" ≠ name := by decide
  match signal with
  | .offer sdp | .answer sdp =>
    have hv : js "v=0" <+: sdp := by simpa only [Signal.accepted,decide_eq_true_eq] using h
    simp [validSignal,validSdp,Signal.request,Signal.forwarded,Signal.type,get_cons_self,
      get_cons_ne _ _ (ht (js "sdp") (by simp)),Json.string?,hv]
  | .iceCandidate c =>
    have hc : js "candidate" ≠ js "sdpMid" := by decide
    have hi : js "candidate" ≠ js "sdpMLineIndex" := by decide
    have hm : js "sdpMid" ≠ js "sdpMLineIndex" := by decide
    have hm' : js "sdpMLineIndex" ≠ js "sdpMid" := by decide
    have hlen : ¬ 4096 < c.candidate.length := by
      simp only [Signal.accepted,decide_eq_true_eq] at h; omega
    have hmid : Json.get (.obj (c.sdpMid.field (js "sdpMid") Json.str ++
        c.sdpMLineIndex.field (js "sdpMLineIndex") indexJson)) (js "sdpMid") =
        c.sdpMid.read .str := by
      rw [← get_nullable_self (js "sdpMid")]
      exact get_field_append indexJson _ _ hm'
    simp [validSignal,validCandidate,Signal.request,Signal.forwarded,Signal.type,get_cons_self,
      get_cons_ne _ _ (ht (js "candidate") (by simp)),get_cons_ne _ _ (ht (js "sdpMid") (by simp)),
      get_cons_ne _ _ (ht (js "sdpMLineIndex") (by simp)),get_cons_ne _ _ hc,get_cons_ne _ _ hi,
      hmid,get_append_nullable _ _ _ hm,get_nullable_self,nullableString_read,
      nullableIndex_read,Json.string?,hlen]

theorem string?_eq_some {v : Option Json} {s : JsString} (h : Json.string? v = some s) :
    v = some (.str s) := by
  unfold Json.string? at h
  split at h
  · cases h; rfl
  · cases h

theorem nullableString_eq_some {v : Option Json} {n : Nullable JsString}
    (h : nullableString v = some n) : v = n.read .str := by
  unfold nullableString at h
  split at h <;> cases h <;> rfl

theorem nullableIndex_eq_some {v : Option Json} {n : Nullable Nat}
    (h : nullableIndex v = some n) : v = n.read indexJson := by
  unfold nullableIndex at h
  split at h
  · cases h; rfl
  · cases h; rfl
  · split at h
    · rename_i z hz
      cases h
      simp [Nullable.read,indexJson,Int.toNat_of_nonneg hz]
    · cases h
  · cases h

theorem mem_field {α : Type} {name : JsString} {render : α → Json} {v : Nullable α}
    {f : JsString × Json} (h : f ∈ v.field name render) :
    f.1 = name ∧ v.read render = some f.2 := by
  cases v <;> simp [Nullable.field] at h <;> simp [h,Nullable.read]

theorem validSdp_eq_some {payload : Json} {sdp : JsString} (h : validSdp payload = some sdp) :
    payload.get (js "sdp") = some (.str sdp) := by
  simp only [validSdp,Option.bind_eq_bind,Option.bind_eq_some_iff] at h
  obtain ⟨v,hv,h⟩ := h
  split at h
  · cases h; exact string?_eq_some hv
  · cases h

theorem validCandidate_eq_some {payload : Json} {c : Candidate}
    (h : validCandidate payload = some c) :
    payload.get (js "candidate") = some (.str c.candidate) ∧
      payload.get (js "sdpMid") = c.sdpMid.read .str ∧
      payload.get (js "sdpMLineIndex") = c.sdpMLineIndex.read indexJson := by
  simp only [validCandidate,Option.bind_eq_bind,Option.bind_eq_some_iff] at h
  obtain ⟨v,hv,h⟩ := h
  split at h
  · cases h
  · simp only [Option.bind_eq_some_iff,Option.pure_def,Option.some.injEq] at h
    obtain ⟨mid,hm,index,hi,rfl⟩ := h
    exact ⟨string?_eq_some hv,nullableString_eq_some hm,nullableIndex_eq_some hi⟩

/-- Conversely, the fields forwarded for a validated message are the sender's own. -/
theorem validSignal_forwarded {payload : Json} {k : SignalType} {signal : Signal}
    (h : validSignal payload k = some signal) :
    signal.type = k ∧ ∀ f ∈ signal.forwarded, payload.get f.1 = some f.2 := by
  cases k with
  | offer | answer =>
    obtain ⟨sdp,hs,rfl⟩ := Option.map_eq_some_iff.mp h
    refine ⟨rfl,fun f hf => ?_⟩
    rw [Signal.forwarded,List.mem_singleton] at hf
    rw [hf]
    exact validSdp_eq_some hs
  | iceCandidate =>
    obtain ⟨c,hc,rfl⟩ := Option.map_eq_some_iff.mp h
    obtain ⟨h₁,h₂,h₃⟩ := validCandidate_eq_some hc
    refine ⟨rfl,fun f hf => ?_⟩
    simp only [Signal.forwarded,List.mem_append,List.mem_singleton] at hf
    rcases hf with (rfl | hf) | hf
    · exact h₁
    · obtain ⟨hn,hr⟩ := mem_field hf
      rw [hn,h₂,hr]
    · obtain ⟨hn,hr⟩ := mem_field hf
      rw [hn,h₃,hr]

theorem targetOf_eq_some {room : Room} {payload : Json} {q : Participant}
    (h : targetOf room payload = some q) :
    ∃ i, payload.get (js "targetId") = some (.str i) ∧ room.get i = some q := by
  obtain ⟨i,hi,hq⟩ := Option.bind_eq_some_iff.mp h
  exact ⟨i,string?_eq_some hi,hq⟩

end MaiaMeet
