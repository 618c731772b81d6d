import MaiaMeet.Page
set_option autoImplicit false

/-!
signaling.js with every message it may get: requests and their timers, replies, the socket's
events. The client connects once; what an event makes the client do is its output.
-/

namespace MaiaMeet

inductive RequestError where
  /-- `new Error(payload.message)` -/
  | server (message : Option Json)
  | timedOut (type : JsString)
  | connectionIsClosed
  /-- What `JSON.stringify` throws. -/
  | notSerializable
  | connectionClosed
  deriving DecidableEq, Repr

/-- A call of resolve or reject (`connection`: on the promise of connect), of a listener's
emit, of the socket's send, and an error thrown to the caller of send. -/
inductive SignalingOutput where
  | connection (error : Option String)
  | resolve (requestId : JsString) (payload : Option Json)
  | reject (requestId : JsString) (error : RequestError)
  | emit (type payload : Option Json)
  | sent (type : JsString) (payload : Json) (requestId : Option JsString)
  | thrown (error : RequestError)
  deriving DecidableEq, Repr

/-- `called` tells whether `ws` is set. A timer that runs is in `timers`, with the type of its
request; `uuids` is all that randomUUID has returned. -/
structure SignalingState extends SignalingClient where
  called : Bool
  timers : List (JsString × JsString)
  uuids : List JsString
  deriving DecidableEq, Repr

inductive SignalingEvent where
  | connect
  | opened
  /-- The socket is open no more, and its close event will come. -/
  | closing
  | error
  | closed
  | connectTimeout
  | message (data : Data)
  /-- `payload` is `none` for a value that `JSON.stringify` does not take. -/
  | sendRequest (requestId type : JsString) (payload : Option Json)
  | send (type : JsString) (payload : Option Json)
  | timeout (requestId : JsString)
  | disconnect
  deriving DecidableEq, Repr

namespace SignalingState

def new : SignalingState where
  readyState := .closed
  isIntentionalClose := false
  connecting := false
  pendingRequests := []
  called := false
  timers := []
  uuids := []

def connect (s : SignalingState) : SignalingState :=
  { s with readyState := .connecting, isIntentionalClose := false, connecting := true, called := true }

def disconnect (s : SignalingState) : SignalingState :=
  { s with toSignalingClient := s.toSignalingClient.disconnect }

/-- `clearTimeout` and `pendingRequests.delete`. -/
def drop (s : SignalingState) (requestId : JsString) : SignalingState :=
  { s with
    timers := s.timers.filter (fun t => t.1 ≠ requestId)
    pendingRequests := s.pendingRequests.filter (· ≠ requestId) }

def send (s : SignalingState) (type : JsString) (payload : Option Json)
    (requestId : Option JsString) : Except RequestError SignalingOutput :=
  if s.readyState ≠ .opened then .error .connectionIsClosed
  else match payload with
    | none => .error .notSerializable
    | some payload => .ok (.sent type payload requestId)

def issue (s : SignalingState) (requestId type : JsString) : SignalingState :=
  { s with
    timers := s.timers ++ [(requestId,type)]
    pendingRequests := s.pendingRequests ++ [requestId]
    uuids := s.uuids ++ [requestId] }

def sendRequest (s : SignalingState) (requestId type : JsString) (payload : Option Json) :
    SignalingState × List SignalingOutput :=
  let s := s.issue requestId type
  match s.send type payload (some requestId) with
  | .ok sent => (s,[sent])
  | .error e => (s.drop requestId,[.reject requestId e])

def request (s : SignalingState) (data : Json) : Option JsString :=
  (Json.string? (data.get (js "requestId"))).filter (· ∈ s.pendingRequests)

/-- `new Error(payload.message)`, where neither the property nor its text makes it throw. -/
def newError : Option Json → Option RequestError
  | none | some .null => none
  | some payload =>
    let message := payload.get (js "message")
    if message.any Json.toStringThrows then none else some (.server message)

/-- Where there is no error to reject with, only the map entry and the timer go. -/
def handleMessage (s : SignalingState) (data : Json) : SignalingState × List SignalingOutput :=
  let type := data.get (js "type")
  let payload := data.get (js "payload")
  match s.request data with
  | none => (s,[.emit type payload])
  | some requestId =>
    let s := s.drop requestId
    if type = some (.str (js "error")) then
      match newError payload with
      | none => (s,[])
      | some error => (s,[.reject requestId error,.emit type payload])
    else (s,[.resolve requestId payload,.emit type payload])

def onclose (s : SignalingState) : SignalingState × List SignalingOutput :=
  ({ s with
      readyState := .closed
      connecting := false
      timers := s.timers.filter (fun t => t.1 ∉ s.pendingRequests)
      pendingRequests := [] },
    .connection (some "Connection closed") ::
      s.pendingRequests.map (fun requestId => .reject requestId .connectionClosed) ++
      if s.isIntentionalClose then []
      else [.emit (some (.str (js "disconnected"))) (some (.obj []))])

def react (s : SignalingState) : SignalingEvent → Option (SignalingState × List SignalingOutput)
  | .connect => if s.called then none else some (s.connect,[])
  | .opened =>
    if s.called ∧ s.readyState = .connecting then
      some ({ s with readyState := .opened, connecting := false },[.connection none])
    else none
  | .closing =>
    if s.called ∧ s.readyState ≠ .closed then some ({ s with readyState := .closing },[])
    else none
  | .error =>
    if s.called ∧ s.readyState ≠ .closed then
      some ({ s with connecting := false },
        [.connection (some "Could not connect to meeting server")])
    else none
  | .closed => if s.called ∧ s.readyState ≠ .closed then some s.onclose else none
  | .connectTimeout =>
    if s.connecting then
      some ({ s with connecting := false }.disconnect,[.connection (some "Connection timed out")])
    else none
  | .message data =>
    if s.called ∧ s.readyState ≠ .closed then
      match data with
      | .binary | .text none | .text (some .null) => some (s,[])
      | .text (some data) => some (s.handleMessage data)
    else none
  | .sendRequest requestId type payload =>
    if requestId ∈ s.uuids then none else some (s.sendRequest requestId type payload)
  | .send type payload =>
    match s.send type payload none with
    | .ok sent => some (s,[sent])
    | .error e => some (s,[.thrown e])
  | .timeout requestId =>
    (s.timers.find? (fun t => t.1 = requestId)).map (fun t =>
      (s.drop requestId,[.reject requestId (.timedOut t.2)]))
  | .disconnect => some (s.disconnect,[])

def step (s : SignalingState) (e : SignalingEvent) : Option SignalingState :=
  (s.react e).map Prod.fst

def outputs (s : SignalingState) (e : SignalingEvent) : List SignalingOutput :=
  (s.react e).elim [] Prod.snd

end SignalingState

def SignalingEvent.issues : SignalingEvent → Option JsString
  | .sendRequest requestId _ _ => some requestId
  | _ => none

/-- disconnect() itself, and the timer of connect, which calls it. -/
def SignalingEvent.disconnects : SignalingEvent → Bool
  | .disconnect | .connectTimeout => true
  | _ => false

def SignalingOutput.settles : SignalingOutput → Option JsString
  | .resolve requestId _ | .reject requestId _ => some requestId
  | _ => none

def SignalingEvent.Justifies (e : SignalingEvent) : SignalingOutput → Prop
  | .resolve requestId payload => ∃ data, e = .message (.text (some data)) ∧
      data.get (js "requestId") = some (.str requestId) ∧
      data.get (js "type") ≠ some (.str (js "error")) ∧ payload = data.get (js "payload")
  | .reject requestId (.server text) => ∃ data, e = .message (.text (some data)) ∧
      data.get (js "requestId") = some (.str requestId) ∧
      data.get (js "type") = some (.str (js "error")) ∧
      ∃ payload, data.get (js "payload") = some payload ∧ text = payload.get (js "message")
  | .reject requestId (.timedOut _) => e = .timeout requestId
  | .reject requestId .connectionIsClosed | .reject requestId .notSerializable =>
      ∃ type payload, e = .sendRequest requestId type payload
  | .reject _ .connectionClosed => e = .closed
  | _ => True

namespace SignalingState

def settled (es : List SignalingEvent) : List JsString :=
  (Runs.trace step outputs new es).filterMap SignalingOutput.settles

/-- The message is not of the type the client emits itself, and no error for a pending request
without payload or with a message that is no text. -/
def Replies (s : SignalingState) : SignalingEvent → Prop
  | .message (.text (some data)) =>
    data.get (js "type") ≠ some (.str (js "disconnected")) ∧
      (s.request data ≠ none → data.get (js "type") = some (.str (js "error")) →
        ∃ payload, data.get (js "payload") = some payload ∧ payload ≠ .null ∧
          ¬(payload.get (js "message")).any Json.toStringThrows)
  | _ => True

def Unrequested (es : List SignalingEvent) : Prop :=
  ∃ before after, es = before ++ .connect :: after ∧ ∀ e ∈ after, e.disconnects = false

/-- The state after a run and its requests: the map and the timers hold what is not settled,
nothing is settled twice or without cause, and a closed client holds and takes no request. -/
structure Integrity (es : List SignalingEvent) (s : SignalingState) : Prop where
  fresh : (es.filterMap SignalingEvent.issues).Nodup
  pending : ∀ id, id ∈ s.pendingRequests ↔
    id ∈ es.filterMap SignalingEvent.issues ∧ id ∉ settled es
  once : s.pendingRequests.Nodup
  timers : s.timers.map Prod.fst = s.pendingRequests
  settled_once : (settled es).Nodup
  justified : ∀ fs e gs, es = fs ++ e :: gs → ∀ t, Runs.exec step new fs = some t →
    ∀ o ∈ t.outputs e, e.Justifies o
  disconnected : ∀ fs e gs, es = fs ++ e :: gs → ∀ t, Runs.exec step new fs = some t →
    ((∃ payload, .emit (some (.str (js "disconnected"))) payload ∈ t.outputs e) ↔
      e = .closed ∧ Unrequested fs)
  closed : .closed ∈ es → s.pendingRequests = [] ∧ ∀ requestId type payload,
    requestId ∉ s.uuids → s.outputs (.sendRequest requestId type payload) =
      [.reject requestId .connectionIsClosed]

end SignalingState

namespace SignalingState

variable {s t : SignalingState} {ids : List JsString}

structure Ledger (s : SignalingState) (ids : List JsString) : Prop where
  fresh : s.uuids.Nodup
  pending : ∀ id, id ∈ s.pendingRequests ↔ id ∈ s.uuids ∧ id ∉ ids
  once : s.pendingRequests.Nodup
  timers : s.timers.map Prod.fst = s.pendingRequests
  settled : ids.Nodup ∧ ∀ id ∈ ids, id ∈ s.uuids

theorem ledger_new : Ledger new [] := by
  constructor <;> simp [new]

theorem Ledger.frame (h : s.Ledger ids) (hp : t.pendingRequests = s.pendingRequests)
    (ht : t.timers = s.timers) (hu : t.uuids = s.uuids) : t.Ledger ids := by
  constructor
  · rw [hu]; exact h.fresh
  · rw [hp,hu]; exact h.pending
  · rw [hp]; exact h.once
  · rw [ht,hp]; exact h.timers
  · rw [hu]; exact h.settled

theorem Ledger.issue (h : s.Ledger ids) {id : JsString} (hid : id ∉ s.uuids) (type : JsString) :
    (s.issue id type).Ledger ids := by
  have hpending : id ∉ s.pendingRequests := fun hp => hid ((h.pending id).mp hp).1
  constructor
  · exact List.nodup_append.mpr ⟨h.fresh,by simp,by rintro a ha b hb rfl; simp_all⟩
  · intro j
    simp only [SignalingState.issue,List.mem_append,List.mem_singleton,h.pending]
    have hsettled := h.settled.2
    grind
  · exact List.nodup_append.mpr ⟨h.once,by simp,by rintro a ha b hb rfl; simp_all⟩
  · simp [SignalingState.issue,h.timers]
  · exact ⟨h.settled.1,fun j hj => List.mem_append_left _ (h.settled.2 j hj)⟩

theorem Ledger.drop (h : s.Ledger ids) {id : JsString} (hid : id ∈ s.pendingRequests) :
    (s.drop id).Ledger (ids ++ [id]) := by
  obtain ⟨hissued,hopen⟩ := (h.pending id).mp hid
  constructor
  · exact h.fresh
  · intro j
    simp only [SignalingState.drop,List.mem_filter,h.pending,List.mem_append,List.mem_singleton]
    grind
  · exact h.once.filter _
  · simp only [SignalingState.drop,← h.timers,List.filter_map]
    rfl
  · refine ⟨List.nodup_append.mpr ⟨h.settled.1,by simp,?_⟩,?_⟩
    · rintro a ha b hb rfl
      simp_all
    · intro j hj
      rcases List.mem_append.mp hj with hj | hj
      · exact h.settled.2 j hj
      · rw [List.mem_singleton.mp hj]
        exact hissued

theorem Ledger.onclose (h : s.Ledger ids) :
    s.onclose.1.Ledger (ids ++ s.pendingRequests) := by
  constructor
  · exact h.fresh
  · intro j
    simp only [SignalingState.onclose,List.mem_append,h.pending,List.not_mem_nil,false_iff]
    grind
  · simp [SignalingState.onclose]
  · have hnone : s.timers.filter (fun t => t.1 ∉ s.pendingRequests) = [] := by
      rw [List.filter_eq_nil_iff]
      intro timer htimer
      have hmem : timer.1 ∈ s.pendingRequests := h.timers ▸ List.mem_map_of_mem htimer
      simp [hmem]
    simp only [SignalingState.onclose,hnone]
    rfl
  · refine ⟨List.nodup_append.mpr ⟨h.settled.1,h.once,?_⟩,?_⟩
    · rintro a ha b hb rfl
      exact ((h.pending a).mp hb).2 ha
    · intro j hj
      rcases List.mem_append.mp hj with hj | hj
      · exact h.settled.2 j hj
      · exact ((h.pending j).mp hj).1

theorem request_eq_some {data : Json} {id : JsString} : s.request data = some id ↔
    data.get (js "requestId") = some (.str id) ∧ id ∈ s.pendingRequests := by
  simp only [request,Option.filter_eq_some_iff,decide_eq_true_eq]
  refine and_congr_left (fun _ => ?_)
  unfold Json.string?
  split
  · rename_i heq; simp [heq]
  · rename_i heq; simp only [reduceCtorEq,false_iff]; exact heq id

theorem newError_eq_some {payload : Option Json} {error : RequestError} :
    newError payload = some error ↔ ∃ p, payload = some p ∧ p ≠ .null ∧
      ¬(p.get (js "message")).any Json.toStringThrows ∧ error = .server (p.get (js "message")) := by
  cases payload with
  | none => simp [newError]
  | some p =>
    by_cases hnull : p = .null
    · subst hnull
      simp [newError]
    · have hnew : newError (some p) = if (p.get (js "message")).any Json.toStringThrows then none
          else some (.server (p.get (js "message"))) := newError.eq_3 p hnull
      rw [hnew]
      constructor
      · intro h
        split at h <;> cases h
        exact ⟨p,rfl,hnull,by assumption,rfl⟩
      · rintro ⟨q,hq,_,htext,rfl⟩
        cases hq
        rw [if_neg htext]

/-- What a message does: a reply drops its request and settles it, unless there is no error to
reject it with, and every other message is passed to the listeners. -/
theorem handleMessage_cases (s : SignalingState) (data : Json) :
    (s.request data = none ∧ s.handleMessage data =
      (s,[.emit (data.get (js "type")) (data.get (js "payload"))])) ∨
    ∃ id, s.request data = some id ∧
      ((data.get (js "type") ≠ some (.str (js "error")) ∧ s.handleMessage data =
          (s.drop id,[.resolve id (data.get (js "payload")),
            .emit (data.get (js "type")) (data.get (js "payload"))])) ∨
        data.get (js "type") = some (.str (js "error")) ∧
          ((∃ error, newError (data.get (js "payload")) = some error ∧
            s.handleMessage data = (s.drop id,[.reject id error,
              .emit (data.get (js "type")) (data.get (js "payload"))])) ∨
          (newError (data.get (js "payload")) = none ∧ s.handleMessage data = (s.drop id,[])))) := by
  unfold handleMessage
  cases hr : s.request data with
  | none => exact .inl ⟨rfl,rfl⟩
  | some id =>
    refine .inr ⟨id,rfl,?_⟩
    dsimp only
    by_cases htype : data.get (js "type") = some (.str (js "error"))
    · refine .inr ⟨htype,?_⟩
      rw [if_pos htype]
      cases he : newError (data.get (js "payload")) with
      | none => exact .inr ⟨rfl,rfl⟩
      | some error => exact .inl ⟨error,rfl,rfl⟩
    · exact .inl ⟨htype,if_neg htype⟩

theorem sendRequest_cases (s : SignalingState) (id type : JsString) (payload : Option Json) :
    (s.readyState = .opened ∧
      ∃ p, s.sendRequest id type payload = (s.issue id type,[.sent type p (some id)])) ∨
      ∃ error, (error = .connectionIsClosed ∨ error = .notSerializable) ∧
        s.sendRequest id type payload = ((s.issue id type).drop id,[.reject id error]) := by
  unfold sendRequest send
  have hissue : (s.issue id type).readyState = s.readyState := rfl
  by_cases hopen : s.readyState = .opened
  · cases payload with
    | none => exact .inr ⟨.notSerializable,.inr rfl,by simp [hissue,hopen]⟩
    | some p => exact .inl ⟨hopen,p,by simp [hissue,hopen]⟩
  · exact .inr ⟨.connectionIsClosed,.inl rfl,by simp [hissue,hopen]⟩

theorem settles_closed (ids : List JsString) :
    (ids.map (fun id => SignalingOutput.reject id .connectionClosed)).filterMap
      SignalingOutput.settles = ids := by
  rw [List.filterMap_map]
  exact List.filterMap_some

theorem settles_onclose (s : SignalingState) :
    s.onclose.2.filterMap SignalingOutput.settles = s.pendingRequests := by
  have hemit : ∀ b : Bool, (if b then [] else
      [SignalingOutput.emit (some (.str (js "disconnected"))) (some (.obj []))]).filterMap
        SignalingOutput.settles = [] := by
    intro b
    cases b <;> rfl
  rw [onclose,List.cons_append,List.filterMap_cons_none rfl,List.filterMap_append,
    settles_closed,hemit,List.append_nil]

theorem send_ok {type : JsString} {payload : Option Json} {id : Option JsString}
    {out : SignalingOutput} (h : s.send type payload id = .ok out) : ∃ p, out = .sent type p id := by
  unfold send at h
  split at h
  · cases h
  · split at h <;> cases h
    exact ⟨_,rfl⟩

theorem Ledger.handleMessage (h : s.Ledger ids) {data : Json}
    (hm : s.Replies (.message (.text (some data)))) : (s.handleMessage data).1.Ledger
      (ids ++ (s.handleMessage data).2.filterMap SignalingOutput.settles) := by
  rcases s.handleMessage_cases data with ⟨_,hs⟩ | ⟨id,hid,hs⟩
  · rw [hs]
    exact (List.append_nil ids).symm ▸ h
  · have hdrop := h.drop (request_eq_some.mp hid).2
    rcases hs with ⟨_,hs⟩ | ⟨htype,⟨error,he,hs⟩ | ⟨hnone,_⟩⟩
    · rw [hs]; exact hdrop
    · rw [hs]
      obtain ⟨_,_,_,_,rfl⟩ := newError_eq_some.mp he
      exact hdrop
    · obtain ⟨p,hp,hnull,htext⟩ := hm.2 (by simp [hid]) htype
      rw [newError_eq_some.mpr ⟨p,hp,hnull,htext,rfl⟩] at hnone
      cases hnone

theorem ledger_step (h : s.Ledger ids) {e : SignalingEvent} {out : List SignalingOutput}
    (hm : s.Replies e) (hr : s.react e = some (t,out)) :
    t.Ledger (ids ++ out.filterMap SignalingOutput.settles) := by
  cases e with
  | connect | opened | closing | error | connectTimeout =>
    simp only [react] at hr
    split at hr <;> cases hr
    exact (List.append_nil ids).symm ▸ h.frame rfl rfl rfl
  | closed =>
    simp only [react] at hr
    split at hr <;> cases hr
    have hsettles := s.settles_onclose
    exact hsettles.symm ▸ h.onclose
  | message data =>
    simp only [react] at hr
    split at hr
    · split at hr
      · cases hr; exact (List.append_nil ids).symm ▸ h
      · cases hr; exact (List.append_nil ids).symm ▸ h
      · cases hr; exact (List.append_nil ids).symm ▸ h
      · rename_i data _
        obtain ⟨rfl,rfl⟩ := Prod.mk.inj (Option.some.inj hr)
        exact h.handleMessage hm
    · cases hr
  | sendRequest id type payload =>
    simp only [react] at hr
    split at hr
    · cases hr
    · rename_i hfresh
      have hissue := h.issue hfresh type
      rcases s.sendRequest_cases id type payload with ⟨_,p,hs⟩ | ⟨error,_,hs⟩
      · rw [hs] at hr
        cases hr
        exact (List.append_nil ids).symm ▸ hissue
      · rw [hs] at hr
        cases hr
        exact hissue.drop (List.mem_append_right _ List.mem_cons_self)
  | send type payload =>
    simp only [react] at hr
    split at hr <;> cases hr
    · rename_i sent hs
      obtain ⟨p,rfl⟩ := send_ok hs
      exact (List.append_nil ids).symm ▸ h
    · exact (List.append_nil ids).symm ▸ h
  | timeout id =>
    obtain ⟨timer,htimer,hr⟩ := Option.map_eq_some_iff.mp hr
    cases hr
    refine h.drop ?_
    have hid : timer.1 = id := by simpa using List.find?_some htimer
    rw [← h.timers,← hid]
    exact List.mem_map_of_mem (List.mem_of_find?_eq_some htimer)
  | disconnect =>
    cases hr
    exact (List.append_nil ids).symm ▸ h.frame rfl rfl rfl

theorem handleMessage_state (s : SignalingState) (data : Json) :
    (s.handleMessage data).1 = s ∨ ∃ id, (s.handleMessage data).1 = s.drop id := by
  rcases s.handleMessage_cases data with ⟨_,hs⟩ | ⟨id,_,⟨_,hs⟩ | ⟨_,⟨_,_,hs⟩ | ⟨_,hs⟩⟩⟩
  · exact .inl (by rw [hs])
  all_goals exact .inr ⟨id,by rw [hs]⟩

structure Flags (s t : SignalingState) (e : SignalingEvent) : Prop where
  called : t.called = (s.called || e = .connect)
  intentional : t.isIntentionalClose = ((s.isIntentionalClose && e ≠ .connect) || e.disconnects)
  uuids : t.uuids = s.uuids ++ e.issues.toList
  closed : t.readyState = .closed ↔ e = .closed ∨ (s.readyState = .closed ∧ e ≠ .connect)

theorem disconnect_closed (s : SignalingState) :
    s.disconnect.readyState = .closed ↔ s.readyState = .closed := by
  simp only [disconnect,SignalingClient.disconnect]
  split
  · rename_i h
    rcases h with h | h <;> simp [h]
  · rfl

theorem flags_kept {e : SignalingEvent} (hd : e.disconnects = false) (hi : e.issues = none)
    (hc : e ≠ .connect) (hx : e ≠ .closed) (ht : t = s ∨ ∃ id, t = s.drop id) : Flags s t e := by
  rcases ht with rfl | ⟨id,rfl⟩ <;> constructor <;> simp [hd,hi,hc,hx,drop]

theorem react_flags {e : SignalingEvent} {out : List SignalingOutput}
    (hr : s.react e = some (t,out)) : Flags s t e := by
  cases e with
  | connect =>
    simp only [react] at hr
    split at hr <;> cases hr
    constructor <;> simp [connect,SignalingEvent.disconnects,SignalingEvent.issues]
  | opened | closing | error =>
    simp only [react] at hr
    split at hr <;> cases hr
    rename_i hs
    constructor <;> simp [SignalingEvent.disconnects,SignalingEvent.issues,hs.2]
  | closed =>
    simp only [react] at hr
    split at hr <;> cases hr
    constructor <;> simp [SignalingEvent.disconnects,SignalingEvent.issues]
  | connectTimeout =>
    simp only [react] at hr
    split at hr <;> cases hr
    refine ⟨?_,?_,?_,?_⟩
    · simp [disconnect]
    · simp [disconnect,SignalingClient.disconnect,SignalingEvent.disconnects]
    · simp [disconnect,SignalingEvent.issues]
    · simp [disconnect_closed]
  | disconnect =>
    cases hr
    refine ⟨?_,?_,?_,?_⟩
    · simp [disconnect]
    · simp [disconnect,SignalingClient.disconnect,SignalingEvent.disconnects]
    · simp [disconnect,SignalingEvent.issues]
    · simp [disconnect_closed]
  | message data =>
    simp only [react] at hr
    split at hr
    · split at hr
      · cases hr; exact flags_kept rfl rfl nofun nofun (.inl rfl)
      · cases hr; exact flags_kept rfl rfl nofun nofun (.inl rfl)
      · cases hr; exact flags_kept rfl rfl nofun nofun (.inl rfl)
      · rename_i data _
        obtain ⟨rfl,rfl⟩ := Prod.mk.inj (Option.some.inj hr)
        exact flags_kept rfl rfl nofun nofun (s.handleMessage_state data)
    · cases hr
  | send type payload =>
    simp only [react] at hr
    split at hr <;> cases hr <;> exact flags_kept rfl rfl nofun nofun (.inl rfl)
  | timeout id =>
    obtain ⟨timer,_,hr⟩ := Option.map_eq_some_iff.mp hr
    cases hr
    exact flags_kept rfl rfl nofun nofun (.inr ⟨id,rfl⟩)
  | sendRequest id type payload =>
    simp only [react] at hr
    split at hr
    · cases hr
    · rcases s.sendRequest_cases id type payload with ⟨_,p,hs⟩ | ⟨error,_,hs⟩ <;>
        rw [hs] at hr <;> cases hr <;> constructor <;>
        simp [issue,drop,SignalingEvent.disconnects,SignalingEvent.issues]

theorem sendRequest_closed (hs : s.readyState = .closed) (id type : JsString)
    (payload : Option Json) : s.sendRequest id type payload =
      ((s.issue id type).drop id,[.reject id .connectionIsClosed]) := by
  have hissue : (s.issue id type).readyState = .closed := hs
  simp [sendRequest,send,hissue]

def Idle (s : SignalingState) : Prop := s.readyState = .closed → s.pendingRequests = []

theorem idle_step (h : s.Idle) {e : SignalingEvent} {out : List SignalingOutput}
    (hr : s.react e = some (t,out)) : t.Idle := by
  intro hclosed
  rcases (react_flags hr).closed.mp hclosed with rfl | ⟨hs,hne⟩
  · simp only [react] at hr
    split at hr <;> cases hr
    rfl
  · have hnone := h hs
    cases e with
    | connect => exact absurd rfl hne
    | opened | closing | error | closed | message =>
      simp only [react,hs] at hr
      split at hr
      · rename_i hopen; simp at hopen
      · cases hr
    | connectTimeout =>
      simp only [react] at hr
      split at hr <;> cases hr
      exact hnone
    | disconnect => cases hr; exact hnone
    | send type payload =>
      simp only [react] at hr
      split at hr <;> cases hr <;> exact hnone
    | timeout id =>
      obtain ⟨timer,_,hr⟩ := Option.map_eq_some_iff.mp hr
      cases hr
      simp [drop,hnone]
    | sendRequest id type payload =>
      simp only [react,sendRequest_closed hs] at hr
      split at hr <;> cases hr
      simp [drop,issue,hnone]

theorem handleMessage_justified (s : SignalingState) (data : Json) :
    ∀ o ∈ (s.handleMessage data).2, (SignalingEvent.message (.text (some data))).Justifies o := by
  intro o ho
  rcases s.handleMessage_cases data with ⟨_,hs⟩ | ⟨id,hid,hs⟩
  · rw [hs] at ho
    rw [List.mem_singleton.mp ho]
    trivial
  · obtain ⟨hget,_⟩ := request_eq_some.mp hid
    rcases hs with ⟨htype,hs⟩ | ⟨htype,⟨error,he,hs⟩ | ⟨_,hs⟩⟩
    · rw [hs] at ho
      rcases List.mem_cons.mp ho with rfl | ho
      · exact ⟨data,rfl,hget,htype,rfl⟩
      · rw [List.mem_singleton.mp ho]
        trivial
    · rw [hs] at ho
      obtain ⟨payload,hp,_,_,rfl⟩ := newError_eq_some.mp he
      rcases List.mem_cons.mp ho with rfl | ho
      · exact ⟨data,rfl,hget,htype,payload,hp,rfl⟩
      · rw [List.mem_singleton.mp ho]
        trivial
    · rw [hs] at ho
      cases ho

theorem onclose_outputs {o : SignalingOutput} (ho : o ∈ s.onclose.2) :
    o = .connection (some "Connection closed") ∨
      (∃ id ∈ s.pendingRequests, o = .reject id .connectionClosed) ∨
      (s.isIntentionalClose = false ∧
        o = .emit (some (.str (js "disconnected"))) (some (.obj []))) := by
  simp only [onclose,List.cons_append,List.mem_cons,List.mem_append,List.mem_map] at ho
  rcases ho with rfl | ⟨id,hid,rfl⟩ | ho
  · exact .inl rfl
  · exact .inr (.inl ⟨id,hid,rfl⟩)
  · cases hflag : s.isIntentionalClose with
    | true => simp [hflag] at ho
    | false => exact .inr (.inr ⟨rfl,by simpa [hflag] using ho⟩)

/-- Nothing but a reply, the request's timer, a refused send and the close settles a request. -/
theorem react_justified {e : SignalingEvent} {out : List SignalingOutput}
    (hr : s.react e = some (t,out)) : ∀ o ∈ out, e.Justifies o := by
  intro o ho
  cases e with
  | disconnect => cases hr; cases ho
  | connect | closing =>
    simp only [react] at hr
    split at hr <;> cases hr
    cases ho
  | opened | error | connectTimeout =>
    simp only [react] at hr
    split at hr <;> cases hr
    rw [List.mem_singleton.mp ho]
    trivial
  | closed =>
    simp only [react] at hr
    split at hr
    · rw [Option.some.injEq] at hr
      have hout : s.onclose.2 = out := congrArg Prod.snd hr
      rw [← hout] at ho
      rcases onclose_outputs ho with rfl | ⟨id,_,rfl⟩ | ⟨_,rfl⟩
      · trivial
      · rfl
      · trivial
    · cases hr
  | send type payload =>
    simp only [react] at hr
    split at hr <;> cases hr
    · rename_i sent hs
      obtain ⟨p,rfl⟩ := send_ok hs
      rw [List.mem_singleton.mp ho]
      trivial
    · rw [List.mem_singleton.mp ho]
      trivial
  | timeout id =>
    obtain ⟨timer,_,hr⟩ := Option.map_eq_some_iff.mp hr
    cases hr
    rw [List.mem_singleton.mp ho]
    rfl
  | sendRequest id type payload =>
    simp only [react] at hr
    split at hr
    · cases hr
    · rcases s.sendRequest_cases id type payload with ⟨_,p,hs⟩ | ⟨error,herror,hs⟩
      · rw [hs] at hr
        cases hr
        rw [List.mem_singleton.mp ho]
        trivial
      · rw [hs] at hr
        cases hr
        rw [List.mem_singleton.mp ho]
        rcases herror with rfl | rfl <;> exact ⟨type,payload,rfl⟩
  | message data =>
    simp only [react] at hr
    split at hr
    · split at hr
      · cases hr; cases ho
      · cases hr; cases ho
      · cases hr; cases ho
      · rename_i data _
        obtain ⟨rfl,rfl⟩ := Prod.mk.inj (Option.some.inj hr)
        exact s.handleMessage_justified data o ho
    · cases hr

theorem onclose_disconnected (s : SignalingState) :
    (∃ payload, .emit (some (.str (js "disconnected"))) payload ∈ s.onclose.2) ↔
      s.isIntentionalClose = false := by
  constructor
  · rintro ⟨payload,hp⟩
    rcases onclose_outputs hp with h | ⟨_,_,h⟩ | ⟨hflag,_⟩
    · cases h
    · cases h
    · exact hflag
  · intro hflag
    exact ⟨some (.obj []),by simp [onclose,hflag]⟩

theorem handleMessage_emits {data : Json} {type payload : Option Json}
    (h : .emit type payload ∈ (s.handleMessage data).2) : type = data.get (js "type") := by
  rcases s.handleMessage_cases data with ⟨_,hs⟩ | ⟨id,_,⟨_,hs⟩ | ⟨_,⟨_,_,hs⟩ | ⟨_,hs⟩⟩⟩
  all_goals
    rw [hs] at h
    simp only [List.mem_cons,SignalingOutput.emit.injEq,reduceCtorEq,List.not_mem_nil,or_false,
      false_or] at h
  all_goals exact h.1

/-- The client announces a close only, and only one it did not ask for. -/
theorem react_disconnected {e : SignalingEvent} {out : List SignalingOutput}
    (hm : s.Replies e) (hr : s.react e = some (t,out)) :
    (∃ payload, .emit (some (.str (js "disconnected"))) payload ∈ out) ↔
      e = .closed ∧ s.isIntentionalClose = false := by
  cases e with
  | closed =>
    simp only [react] at hr
    split at hr
    · rw [Option.some.injEq] at hr
      have hout : s.onclose.2 = out := congrArg Prod.snd hr
      rw [← hout,onclose_disconnected]
      simp
    · cases hr
  | message data =>
    simp only [react] at hr
    split at hr
    · split at hr
      · cases hr; simp
      · cases hr; simp
      · cases hr; simp
      · rename_i data _
        obtain ⟨rfl,rfl⟩ := Prod.mk.inj (Option.some.inj hr)
        simp only [reduceCtorEq,false_and,iff_false]
        rintro ⟨payload,hp⟩
        exact hm.1 (handleMessage_emits hp).symm
    · cases hr
  | disconnect => cases hr; simp
  | connect | opened | closing | error | connectTimeout =>
    simp only [react] at hr
    split at hr <;> cases hr
    simp
  | send type payload =>
    simp only [react] at hr
    split at hr <;> cases hr
    · rename_i sent hs
      obtain ⟨p,rfl⟩ := send_ok hs
      simp
    · simp
  | timeout id =>
    obtain ⟨timer,_,hr⟩ := Option.map_eq_some_iff.mp hr
    cases hr
    simp
  | sendRequest id type payload =>
    simp only [react] at hr
    split at hr
    · cases hr
    · rcases s.sendRequest_cases id type payload with ⟨_,p,hs⟩ | ⟨error,_,hs⟩ <;>
        rw [hs] at hr <;> cases hr <;> simp

theorem connect_called {r : SignalingState × List SignalingOutput}
    (hr : s.react .connect = some r) : s.called = false := by
  simp only [react] at hr
  split at hr
  · cases hr
  · rename_i h; simpa using h

theorem closed_called {r : SignalingState × List SignalingOutput}
    (hr : s.react .closed = some r) : s.called = true := by
  simp only [react] at hr
  split at hr
  · rename_i h; exact h.1
  · cases hr

theorem unrequested_snoc (es : List SignalingEvent) (e : SignalingEvent) :
    Unrequested (es ++ [e]) ↔ e = .connect ∨ (Unrequested es ∧ e.disconnects = false) := by
  constructor
  · rintro ⟨before,after,heq,hafter⟩
    induction after using List.reverseRecOn with
    | nil =>
      obtain ⟨-,h⟩ := List.append_inj' heq rfl
      exact .inl (List.singleton_inj.mp h)
    | append_singleton after d =>
      rw [← List.cons_append,← List.append_assoc] at heq
      obtain ⟨hes,hd⟩ := List.append_inj' heq rfl
      obtain rfl := List.singleton_inj.mp hd
      exact .inr ⟨⟨before,after,hes,fun a ha => hafter a (List.mem_append_left _ ha)⟩,
        hafter e (by simp)⟩
  · rintro (rfl | ⟨⟨before,after,rfl,hafter⟩,he⟩)
    · exact ⟨es,[],rfl,by simp⟩
    · refine ⟨before,after ++ [e],by simp,fun a ha => ?_⟩
      rcases List.mem_append.mp ha with ha | ha
      · exact hafter a ha
      · rw [List.mem_singleton.mp ha]
        exact he

structure History (es : List SignalingEvent) (s : SignalingState) : Prop where
  uuids : s.uuids = es.filterMap SignalingEvent.issues
  intentional : s.called = true → (Unrequested es ↔ s.isIntentionalClose = false)
  closed : .closed ∈ es → s.called = true ∧ s.readyState = .closed
  idle : s.Idle

theorem history_run {es : List SignalingEvent} (h : Runs.exec step new es = some s) :
    History es s := by
  refine Runs.exec_induction ?_ ?_ h
  · exact ⟨rfl,nofun,nofun,fun _ => rfl⟩
  · intro es t e u _ ht hstep
    obtain ⟨⟨u',out⟩,hr,rfl⟩ := Option.map_eq_some_iff.mp hstep
    have hflags := react_flags hr
    refine ⟨?_,?_,?_,idle_step ht.idle hr⟩
    · rw [hflags.uuids,ht.uuids,List.filterMap_append]
      cases he : e.issues <;> simp [he]
    · intro hcalled
      rw [unrequested_snoc,hflags.intentional]
      by_cases he : e = .connect
      · subst he
        simp [SignalingEvent.disconnects]
      · have hbefore : t.called = true := by simpa [hflags.called,he] using hcalled
        simp [he,ht.intentional hbefore]
    · intro hclosed
      rw [hflags.called,hflags.closed]
      rcases List.mem_append.mp hclosed with hclosed | hclosed
      · obtain ⟨hcalled,hstate⟩ := ht.closed hclosed
        have he : e ≠ .connect := by
          rintro rfl
          rw [connect_called hr] at hcalled
          cases hcalled
        exact ⟨by simp [hcalled],.inr ⟨hstate,he⟩⟩
      · obtain rfl := List.mem_singleton.mp hclosed
        exact ⟨by simp [closed_called hr],.inl rfl⟩

theorem outputs_eq {e : SignalingEvent} {out : List SignalingOutput}
    (hr : s.react e = some (t,out)) : s.outputs e = out := by rw [outputs,hr]; rfl

theorem settled_snoc {es : List SignalingEvent} {e : SignalingEvent} {out : List SignalingOutput}
    (h : Runs.exec step new es = some s) (hr : s.react e = some (t,out)) :
    settled (es ++ [e]) = settled es ++ out.filterMap SignalingOutput.settles := by
  have hstep : s.step e = some t := by rw [step,hr]; rfl
  rw [settled,Runs.trace_snoc h hstep,List.filterMap_append,outputs_eq hr]
  rfl

theorem ledger_run {es : List SignalingEvent} (h : Runs.exec step new es = some s)
    (hm : Runs.Along step Replies new es) : s.Ledger (settled es) := by
  refine Runs.exec_induction_along (I := fun es s => s.Ledger (settled es)) ledger_new ?_ hm h
  intro es t e u hes ht he hstep
  obtain ⟨⟨u',out⟩,hr,rfl⟩ := Option.map_eq_some_iff.mp hstep
  rw [settled_snoc hes hr]
  exact ledger_step ht he hr

theorem integrity_run {es : List SignalingEvent} (h : Runs.exec step new es = some s)
    (hm : Runs.Along step Replies new es) : Integrity es s := by
  have hledger := ledger_run h hm
  have hhistory := history_run h
  -- an event of the run could happen, and met the condition
  have hevent : ∀ fs e gs, es = fs ++ e :: gs → ∀ t, Runs.exec step new fs = some t →
      t.Replies e ∧ ∃ u, t.react e = some (u,t.outputs e) := by
    rintro fs e gs rfl t ht
    obtain ⟨t',ht',hgs⟩ := Runs.exec_append_some.mp h
    obtain rfl := Option.some.inj (ht.symm.trans ht')
    obtain ⟨u,hu,-⟩ := Runs.exec_cons_some.mp hgs
    obtain ⟨⟨u',out⟩,hr,-⟩ := Option.map_eq_some_iff.mp hu
    exact ⟨((Runs.along_append ht).mp hm).2.1,u',by rw [hr,outputs_eq hr]⟩
  constructor
  · exact hhistory.uuids ▸ hledger.fresh
  · exact hhistory.uuids ▸ hledger.pending
  · exact hledger.once
  · exact hledger.timers
  · exact hledger.settled.1
  · intro fs e gs hes t ht
    obtain ⟨-,u,hr⟩ := hevent fs e gs hes t ht
    exact react_justified hr
  · intro fs e gs hes t ht
    obtain ⟨hreplies,u,hr⟩ := hevent fs e gs hes t ht
    rw [react_disconnected hreplies hr]
    refine and_congr_right (fun he => ?_)
    subst he
    exact ((history_run ht).intentional (closed_called hr)).symm
  · intro hclosed
    obtain ⟨-,hstate⟩ := hhistory.closed hclosed
    refine ⟨hhistory.idle hstate,fun id type payload hid => ?_⟩
    rw [outputs,react,if_neg hid,sendRequest_closed hstate]
    rfl

theorem replies_of_integrity {e : SignalingEvent} {fs : List SignalingEvent}
    (h : Runs.exec step new fs = some s) (he : s.step e = some t) (hfs : Integrity fs s)
    (hsnoc : Integrity (fs ++ [e]) t) : s.Replies e := by
  obtain ⟨⟨t',out⟩,hr,rfl⟩ := Option.map_eq_some_iff.mp he
  have hdisconnected := hsnoc.disconnected fs e [] rfl s h
  rw [outputs_eq hr] at hdisconnected
  have hsettled := settled_snoc h hr
  cases e with
  | message data =>
    simp only [react] at hr
    split at hr
    · split at hr
      · trivial
      · trivial
      · simp [Replies,Json.get,request,Json.string?]
      · rename_i data _
        have hmessage : s.handleMessage data = (t',out) := Option.some.inj hr
        constructor
        · intro htype
          have hemit : ∃ payload,
              SignalingOutput.emit (some (.str (js "disconnected"))) payload ∈ out := by
            rcases s.handleMessage_cases data with ⟨_,hs⟩ | ⟨id,_,⟨_,hs⟩ | ⟨herror,_⟩⟩
            · cases hmessage.symm.trans hs
              exact ⟨_,by rw [htype]; exact List.mem_singleton.mpr rfl⟩
            · cases hmessage.symm.trans hs
              exact ⟨_,by rw [htype]; exact List.mem_cons_of_mem _ List.mem_cons_self⟩
            · rw [htype] at herror
              exact absurd herror (by decide)
          cases (hdisconnected.mp hemit).1
        · intro hrequest herror
          by_contra hpayload
          rcases s.handleMessage_cases data with ⟨hnone,_⟩ | ⟨id,hid,⟨htype,_⟩ | ⟨_,hs⟩⟩
          · exact hrequest hnone
          · exact htype herror
          · rcases hs with ⟨error,he,_⟩ | ⟨_,hs⟩
            · obtain ⟨payload,hp,hnull,htext,_⟩ := newError_eq_some.mp he
              exact hpayload ⟨payload,hp,hnull,htext⟩
            · -- the request is gone from the map and was never settled
              cases hmessage.symm.trans hs
              have hopen := (hfs.pending id).mp (request_eq_some.mp hid).2
              have hgone := hsnoc.pending id
              rw [hsettled] at hgone
              simp [drop,SignalingEvent.issues,hopen] at hgone
    · cases hr
  | _ => trivial

end SignalingState

open SignalingState

/-- The requests of a client keep their integrity in every state of a run exactly if no message
names itself 'disconnected' and no error for a pending request lacks its payload or has a message
that is no text. -/
theorem request_integrity {es : List SignalingEvent} {s : SignalingState}
    (h : Runs.exec step new es = some s) :
    (∀ fs gs t, es = fs ++ gs → Runs.exec step new fs = some t → Integrity fs t) ↔
      Runs.Along step Replies new es := by
  constructor
  · intro hall
    rw [Runs.along_iff_forall]
    rintro fs e gs rfl t ht
    obtain ⟨t',ht',hgs⟩ := Runs.exec_append_some.mp h
    obtain rfl := Option.some.inj (ht.symm.trans ht')
    obtain ⟨u,hu,-⟩ := Runs.exec_cons_some.mp hgs
    have hsnoc := Runs.exec_snoc_some.mpr ⟨t,ht,hu⟩
    exact replies_of_integrity ht hu (hall fs (e :: gs) t rfl ht)
      (hall (fs ++ [e]) gs u (by simp) hsnoc)
  · rintro hm fs gs t rfl ht
    exact integrity_run ht ((Runs.along_append ht).mp hm).1

def reply (type : String) (requestId : JsString) (payload : Option Json) : SignalingEvent :=
  .message (.text (some (.obj ([(js "type",.str (js type)),(js "requestId",.str requestId)] ++
    (payload.map (fun p => (js "payload",p))).toList))))

/-- Two requests, one answered and the other pending when the socket closes. -/
theorem request_integrity_closed : ∃ s, Runs.exec step new [.connect,.opened,
      .sendRequest (js "r") (js "room.join") (some (.obj [])),
      .sendRequest (js "q") (js "ping") (some (.obj [])),reply "room.joined" (js "r") none,
      .disconnect,.closed] = some s ∧
    Integrity [.connect,.opened,.sendRequest (js "r") (js "room.join") (some (.obj [])),
      .sendRequest (js "q") (js "ping") (some (.obj [])),reply "room.joined" (js "r") none,
      .disconnect,.closed] s := by
  have hrun : (Runs.exec step new [.connect,.opened,
      .sendRequest (js "r") (js "room.join") (some (.obj [])),
      .sendRequest (js "q") (js "ping") (some (.obj [])),reply "room.joined" (js "r") none,
      .disconnect,.closed]).isSome := by decide +kernel
  obtain ⟨s,hs⟩ := Option.isSome_iff_exists.mp hrun
  refine ⟨s,hs,(request_integrity hs).mpr ?_ _ [] s (List.append_nil _).symm hs⟩
  refine Runs.Along.mono (P := fun _ e => ∀ s, Replies s e) (fun s e he => he s)
    (Runs.along_of_forall ?_)
  intro e he
  simp only [List.mem_cons,List.not_mem_nil,or_false] at he
  rcases he with rfl | rfl | rfl | rfl | rfl | rfl | rfl
  case inr.inr.inr.inr.inl => exact fun _ => ⟨by decide,fun _ h => absurd h (by decide)⟩
  all_goals exact fun _ => trivial

/-- An error without payload, or with a message that has a property toString, ends a request that
is never settled; and the server announces a close that did not happen. -/
theorem request_integrity_lost :
    (∀ payload ∈ [none,some (.obj [(js "message",.arr [.obj [(js "toString",.int 1)]])])],
      ∃ s, Runs.exec step new [.connect,.opened,
        .sendRequest (js "r") (js "room.join") (some (.obj [])),reply "error" (js "r") payload] =
          some s ∧
      ¬ Integrity [.connect,.opened,.sendRequest (js "r") (js "room.join") (some (.obj [])),
        reply "error" (js "r") payload] s) ∧
    ∃ s, Runs.exec step new [.connect,.opened,reply "disconnected" (js "r") none] = some s ∧
      ¬ Integrity [.connect,.opened,reply "disconnected" (js "r") none] s := by
  constructor
  · have hrun : ∀ payload ∈ [none,some (.obj [(js "message",.arr [.obj [(js "toString",.int 1)]])])],
        ((Runs.exec step new [.connect,.opened,
          .sendRequest (js "r") (js "room.join") (some (.obj [])),
          reply "error" (js "r") payload]).filter (fun s => s.pendingRequests = [])).isSome ∧
        js "r" ∉ settled [.connect,.opened,
          .sendRequest (js "r") (js "room.join") (some (.obj [])),
          reply "error" (js "r") payload] := by decide +kernel
    intro payload hpayload
    obtain ⟨hsome,hopen⟩ := hrun payload hpayload
    obtain ⟨s,hs⟩ := Option.isSome_iff_exists.mp hsome
    obtain ⟨hs,hpending⟩ := Option.filter_eq_some_iff.mp hs
    refine ⟨s,hs,fun h => ?_⟩
    have hlost := (h.pending (js "r")).mpr ⟨List.mem_singleton.mpr rfl,hopen⟩
    rw [of_decide_eq_true hpending] at hlost
    cases hlost
  · have hrun : (Runs.exec step new [.connect,.opened,
        reply "disconnected" (js "r") none]).isSome := by decide +kernel
    obtain ⟨s,hs⟩ := Option.isSome_iff_exists.mp hrun
    refine ⟨s,hs,fun h => ?_⟩
    have hopen : ((Runs.exec step new [.connect,.opened]).filter (fun t =>
        .emit (some (.str (js "disconnected"))) none ∈
          t.outputs (reply "disconnected" (js "r") none))).isSome := by decide +kernel
    obtain ⟨t,ht⟩ := Option.isSome_iff_exists.mp hopen
    obtain ⟨ht,hemit⟩ := Option.filter_eq_some_iff.mp ht
    have hclosed := (h.disconnected [.connect,.opened] _ [] rfl t ht).mp
      ⟨none,of_decide_eq_true hemit⟩
    exact absurd hclosed.1 (by simp [reply])

end MaiaMeet
