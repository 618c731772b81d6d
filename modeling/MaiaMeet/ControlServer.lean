import MaiaMeet.Numerals
import MaiaMeet.OrderedMap
import MaiaMeet.Runs
set_option autoImplicit false

/-!
ControlServer of the SFU: the transports the signaling server makes, looks up and ends over
HTTP. `std::rand`, libjuice and the JSON library stand outside: a request carries what they
answer to it.
-/

namespace MaiaMeet

inductive AgentCall where
  | setRemoteDescription (sdp : String)
  | addRemoteCandidate (candidate : String)
  deriving DecidableEq, Repr

/-- A WebRtcTransport to the control server. `number` tells the objects apart: how many were
made before it. -/
structure ControlledTransport where
  id : String
  number : Nat
  ufrag : String
  pwd : String
  calls : List AgentCall
  deriving DecidableEq, Repr

structure TransportInfo where
  transportId : String
  iceUfrag : String
  icePwd : String
  dtlsFingerprint : String
  sdpAnswer : String
  deriving DecidableEq, Repr

structure ControlServer where
  transports : OrderedMap String ControlledTransport
  made : Nat
  fingerprint : String
  deriving DecidableEq

inductive ControlRequest where
  /-- `agent` is the user fragment and password of the agent that `juice_create` returns. -/
  | postTransports (rand : Nat) (agent : Option (String × String))
  | deleteTransport (id : String)
  /-- `sdp` is that of the body; `none` if the body has none that is a string. -/
  | postRemoteDescription (id : String) (sdp : Option String)
  | postIceCandidate (id : String) (candidate : Option String)
  | getHealth
  deriving DecidableEq, Repr

inductive ControlContent where
  | info (info : TransportInfo)
  | health
  deriving DecidableEq, Repr

structure ControlResponse where
  status : Nat
  content : Option ControlContent
  deriving DecidableEq, Repr

namespace ControlledTransport

variable (t : ControlledTransport)

def buildSdpAnswer (fingerprint : String) : String :=
  "v=0\r\n" ++
  "o=- 0 0 IN IP4 0.0.0.0\r\n" ++
  "s=MaiaSFU\r\n" ++
  "t=0 0\r\n" ++
  "m=audio 9 UDP/TLS/RTP/SAVPF 111\r\n" ++
  "c=IN IP4 0.0.0.0\r\n" ++
  "a=rtcp:9 IN IP4 0.0.0.0\r\n" ++
  "a=ice-ufrag:" ++ t.ufrag ++ "\r\n" ++
  "a=ice-pwd:" ++ t.pwd ++ "\r\n" ++
  "a=fingerprint:sha-256 " ++ fingerprint ++ "\r\n" ++
  "a=setup:passive\r\n" ++
  "a=sendrecv\r\n" ++
  "a=rtpmap:111 opus/48000/2\r\n" ++
  "m=video 9 UDP/TLS/RTP/SAVPF 96\r\n" ++
  "c=IN IP4 0.0.0.0\r\n" ++
  "a=rtcp:9 IN IP4 0.0.0.0\r\n" ++
  "a=ice-ufrag:" ++ t.ufrag ++ "\r\n" ++
  "a=ice-pwd:" ++ t.pwd ++ "\r\n" ++
  "a=fingerprint:sha-256 " ++ fingerprint ++ "\r\n" ++
  "a=setup:passive\r\n" ++
  "a=sendrecv\r\n" ++
  "a=rtpmap:96 VP8/90000\r\n"

def info (fingerprint : String) : TransportInfo where
  transportId := t.id
  iceUfrag := t.ufrag
  icePwd := t.pwd
  dtlsFingerprint := fingerprint
  sdpAnswer := t.buildSdpAnswer fingerprint

def tell (call : AgentCall) : ControlledTransport := { t with calls := t.calls ++ [call] }

end ControlledTransport

namespace ControlServer

def new (fingerprint : String) : ControlServer := ⟨.empty,0,fingerprint⟩

/-- `"tr_" + std::to_string(std::rand())` -/
def transportId (rand : Nat) : String := "tr_" ++ toString rand

variable (s : ControlServer)

/-- An exception in a handler is answered with 500. -/
def postTransports (rand : Nat) : Option (String × String) → ControlServer × ControlResponse
  | none => (s,⟨500,none⟩)
  | some agent =>
    let transport : ControlledTransport := ⟨transportId rand,s.made,agent.1,agent.2,[]⟩
    ({ s with
        transports := s.transports.set (transportId rand) transport
        made := s.made + 1 },
      ⟨200,some (.info (transport.info s.fingerprint))⟩)

def deleteTransport (id : String) : ControlServer × ControlResponse :=
  if s.transports.has id then ({ s with transports := s.transports.delete id },⟨200,none⟩)
  else (s,⟨404,none⟩)

/-- The body that the two requests to a transport share; a body without the text throws. -/
def tellTransport (id : String) (call : Option AgentCall) : ControlServer × ControlResponse :=
  match s.transports.get id with
  | none => (s,⟨404,none⟩)
  | some t => match call with
    | none => (s,⟨500,none⟩)
    | some call => ({ s with transports := s.transports.set id (t.tell call) },⟨200,none⟩)

def postRemoteDescription (id : String) (sdp : Option String) : ControlServer × ControlResponse :=
  s.tellTransport id (sdp.map .setRemoteDescription)

def postIceCandidate (id : String) (candidate : Option String) : ControlServer × ControlResponse :=
  s.tellTransport id (candidate.map .addRemoteCandidate)

def handle : ControlRequest → ControlServer × ControlResponse
  | .postTransports rand agent => s.postTransports rand agent
  | .deleteTransport id => s.deleteTransport id
  | .postRemoteDescription id sdp => s.postRemoteDescription id sdp
  | .postIceCandidate id candidate => s.postIceCandidate id candidate
  | .getHealth => (s,⟨200,some .health⟩)

def Registered (id : String) (n : Nat) : Prop :=
  ∃ t, s.transports.get id = some t ∧ t.number = n

end ControlServer

/-- What whoever sends the requests knows: how many transports were created, and which of them
under which id, less those deleted since. -/
structure TransportLedger where
  created : Nat
  entries : List (String × Nat)
  deriving DecidableEq, Repr

def TransportLedger.note (l : TransportLedger) : ControlRequest → ControlResponse → TransportLedger
  | .postTransports _ _, ⟨_,some (.info info)⟩ =>
    ⟨l.created + 1,l.entries ++ [(info.transportId,l.created)]⟩
  | .deleteTransport id, ⟨200,_⟩ => { l with entries := l.entries.filter (fun e => e.1 ≠ id) }
  | _, _ => l

structure Controlled where
  server : ControlServer
  ledger : TransportLedger
  deriving DecidableEq

namespace Controlled

def start (fingerprint : String) : Controlled := ⟨.new fingerprint,⟨0,[]⟩⟩

def step (w : Controlled) (r : ControlRequest) : Option Controlled :=
  let (server,response) := w.server.handle r
  some ⟨server,w.ledger.note r response⟩

end Controlled

def ControlRequest.tells (id : String) : ControlRequest → Option AgentCall
  | .postRemoteDescription id' sdp => if id' = id then sdp.map .setRemoteDescription else none
  | .postIceCandidate id' candidate => if id' = id then candidate.map .addRemoteCandidate else none
  | _ => none

/-- What `std::rand` returned for a request. -/
def ControlRequest.rand : ControlRequest → Option Nat
  | .postTransports rand _ => some rand
  | _ => none

namespace Controlled

/-- The registry does with a request what its sender counts on: a new id belongs to no
registered transport, and what is registered is what the ledger holds, object by object. -/
structure Sound (w : Controlled) (r : ControlRequest) : Prop where
  created : ∀ rand agent, r = .postTransports rand (some agent) →
    ∃ info, (w.server.handle r).2 = ⟨200,some (.info info)⟩ ∧
      (∀ n, ¬w.server.Registered info.transportId n) ∧
      (w.server.handle r).1.Registered info.transportId w.ledger.created
  kept : (∀ id, r ≠ .deleteTransport id) → ∀ id n, w.server.Registered id n →
    (w.server.handle r).1.Registered id n
  deleted : ∀ id, r = .deleteTransport id →
    if w.server.transports.has id then
      (w.server.handle r).2.status = 200 ∧ ∀ j, (w.server.handle r).1.transports.get j =
        if j = id then none else w.server.transports.get j
    else (w.server.handle r).2.status = 404 ∧ (w.server.handle r).1 = w.server
  outstanding : ∀ id n, (w.server.handle r).1.Registered id n ↔
    (id,n) ∈ (w.ledger.note r (w.server.handle r).2).entries
  reached : ∀ id call, r.tells id = some call → ∀ n, (id,n) ∈ w.ledger.entries →
    ∃ t, w.server.transports.get id = some t ∧ t.number = n ∧
      (w.server.handle r).2.status = 200 ∧ ∀ j, (w.server.handle r).1.transports.get j =
        if j = id then some (t.tell call) else w.server.transports.get j

/-- `std::rand` does not return the number of a registered transport's id. -/
def Fresh (w : Controlled) : ControlRequest → Prop
  | .postTransports rand (some _) => w.server.transports.get (ControlServer.transportId rand) = none
  | _ => True

structure Matches (w : Controlled) : Prop where
  made : w.ledger.created = w.server.made
  registered : ∀ id n, w.server.Registered id n ↔ (id,n) ∈ w.ledger.entries

end Controlled

section
variable {s : ControlServer} {w : Controlled} {r : ControlRequest} {id j : String} {n rand : Nat}
  {agent : String × String}
open ControlServer Controlled

theorem registered_of_get {t : ControlledTransport} (h : s.transports.get id = some t) :
    s.Registered id t.number := ⟨t,h,rfl⟩

theorem not_registered_iff : (∀ n, ¬s.Registered id n) ↔ s.transports.get id = none := by
  cases hget : s.transports.get id with
  | none => simp [Registered,hget]
  | some t => simpa using ⟨t.number,registered_of_get hget⟩

theorem registered_post : (s.postTransports rand (some agent)).1.Registered j n ↔
    if j = transportId rand then s.made = n else s.Registered j n := by
  simp only [Registered,postTransports,OrderedMap.get_set]
  split <;> simp

theorem get_deleteTransport : (s.deleteTransport id).1.transports.get j =
    if j = id then none else s.transports.get j := by
  unfold deleteTransport
  split
  · exact s.transports.get_delete id j
  · rename_i habsent
    split
    · rename_i hj
      rw [hj]
      simpa [OrderedMap.has] using habsent
    · rfl

theorem registered_delete : (s.deleteTransport id).1.Registered j n ↔
    j ≠ id ∧ s.Registered j n := by
  simp only [Registered,get_deleteTransport]
  by_cases hj : j = id <;> simp [hj]

theorem registered_tell {call : Option AgentCall} :
    (s.tellTransport id call).1.Registered j n ↔ s.Registered j n := by
  unfold tellTransport
  cases hget : s.transports.get id with
  | none => rfl
  | some t =>
    cases call with
    | none => rfl
    | some call =>
      -- the transport is put back under its id, told one thing more
      simp only [Registered,OrderedMap.get_set]
      by_cases hj : j = id
      · subst hj
        simp [hget,ControlledTransport.tell]
      · simp [hj]

theorem get_tellTransport {t : ControlledTransport} (call : AgentCall)
    (h : s.transports.get id = some t) : (s.tellTransport id (some call)).2.status = 200 ∧
      ∀ j, (s.tellTransport id (some call)).1.transports.get j =
        if j = id then some (t.tell call) else s.transports.get j := by
  simp [tellTransport,h,OrderedMap.get_set]

namespace Controlled

theorem Matches.post (hm : w.Matches) (hfree : w.server.transports.get (transportId rand) = none) :
    Matches ⟨(w.server.postTransports rand (some agent)).1,
      w.ledger.note (.postTransports rand (some agent))
        (w.server.postTransports rand (some agent)).2⟩ := by
  refine ⟨congrArg (· + 1) hm.made,?_⟩
  intro j n
  have hnew := not_registered_iff.mpr hfree
  rw [registered_post]
  simp only [TransportLedger.note,postTransports,ControlledTransport.info,List.mem_append,
    List.mem_singleton,Prod.mk.injEq,← hm.registered,hm.made]
  by_cases hj : j = transportId rand
  · subst hj
    simp [hnew,eq_comm]
  · simp [hj]

theorem Matches.delete (hm : w.Matches) (id : String) :
    Matches ⟨(w.server.deleteTransport id).1,
      w.ledger.note (.deleteTransport id) (w.server.deleteTransport id).2⟩ := by
  by_cases hhas : w.server.transports.has id = true
  · have hres : w.server.deleteTransport id =
        ({ w.server with transports := w.server.transports.delete id },⟨200,none⟩) := if_pos hhas
    refine ⟨by rw [hres]; exact hm.made,?_⟩
    intro j n
    rw [registered_delete,hres]
    simp [TransportLedger.note,← hm.registered,and_comm]
  · have hres : w.server.deleteTransport id = (w.server,⟨404,none⟩) := if_neg hhas
    rw [hres]
    exact hm

theorem Matches.tell (hm : w.Matches) {call : Option AgentCall} :
    Matches ⟨(w.server.tellTransport id call).1,w.ledger⟩ := by
  refine ⟨?_,fun j n => registered_tell.trans (hm.registered j n)⟩
  unfold tellTransport
  cases w.server.transports.get id with
  | none => exact hm.made
  | some t =>
    cases call with
    | none => exact hm.made
    | some call => exact hm.made

/-- A request to which the random number is no registered one keeps ledger and registry in step. -/
theorem Matches.step (hm : w.Matches) (hfresh : w.Fresh r) :
    Matches ⟨(w.server.handle r).1,w.ledger.note r (w.server.handle r).2⟩ := by
  cases r with
  | postTransports rand agent =>
    cases agent with
    | none => exact hm
    | some agent => exact hm.post hfresh
  | deleteTransport id => exact hm.delete id
  | postRemoteDescription id sdp => exact hm.tell
  | postIceCandidate id candidate => exact hm.tell
  | getHealth => exact hm

theorem kept_handle (hfresh : w.Fresh r) (hr : ∀ id, r ≠ .deleteTransport id)
    (h : w.server.Registered id n) : (w.server.handle r).1.Registered id n := by
  cases r with
  | postTransports rand agent =>
    cases agent with
    | none => exact h
    | some agent =>
      refine registered_post.mpr ?_
      rw [if_neg]
      · exact h
      · rintro rfl
        exact not_registered_iff.mpr hfresh n h
  | deleteTransport id => exact absurd rfl (hr id)
  | postRemoteDescription id sdp => exact registered_tell.mpr h
  | postIceCandidate id candidate => exact registered_tell.mpr h
  | getHealth => exact h

theorem reached_handle (hm : w.Matches) {call : AgentCall} (htells : r.tells id = some call)
    (hopen : (id,n) ∈ w.ledger.entries) :
    ∃ t, w.server.transports.get id = some t ∧ t.number = n ∧
      (w.server.handle r).2.status = 200 ∧ ∀ j, (w.server.handle r).1.transports.get j =
        if j = id then some (t.tell call) else w.server.transports.get j := by
  obtain ⟨t,hget,hnumber⟩ := (hm.registered id n).mpr hopen
  have htell := get_tellTransport call hget
  refine ⟨t,hget,hnumber,?_⟩
  cases r with
  | postRemoteDescription id' sdp =>
    by_cases hid : id' = id
    · subst hid
      have hcall : sdp.map .setRemoteDescription = some call := by
        simpa [ControlRequest.tells] using htells
      simpa only [handle,postRemoteDescription,hcall] using htell
    · simp [ControlRequest.tells,hid] at htells
  | postIceCandidate id' candidate =>
    by_cases hid : id' = id
    · subst hid
      have hcall : candidate.map .addRemoteCandidate = some call := by
        simpa [ControlRequest.tells] using htells
      simpa only [handle,postIceCandidate,hcall] using htell
    · simp [ControlRequest.tells,hid] at htells
  | _ => simp [ControlRequest.tells] at htells

theorem sound_of_fresh (hm : w.Matches) (hfresh : w.Fresh r) : w.Sound r where
  created rand agent hr := by
    subst hr
    refine ⟨_,rfl,not_registered_iff.mpr hfresh,registered_post.mpr ?_⟩
    simp [ControlledTransport.info,hm.made]
  kept hr id n h := kept_handle hfresh hr h
  deleted id hr := by
    subst hr
    by_cases hhas : w.server.transports.has id = true
    · rw [if_pos hhas]
      refine ⟨?_,fun j => get_deleteTransport⟩
      rw [handle,deleteTransport,if_pos hhas]
    · rw [if_neg hhas,handle,deleteTransport,if_neg hhas]
      exact ⟨rfl,rfl⟩
  outstanding id n := (hm.step hfresh).registered id n
  reached id call htells n hopen := reached_handle hm htells hopen

theorem Sound.fresh (h : w.Sound r) : w.Fresh r := by
  cases r with
  | postTransports rand agent =>
    cases agent with
    | none => trivial
    | some agent =>
      obtain ⟨info,hres,hfree,_⟩ := h.created rand agent rfl
      have hid : info.transportId = transportId rand := by
        cases hres
        rfl
      rw [hid] at hfree
      exact not_registered_iff.mp hfree
  | _ => trivial

theorem matches_start (fingerprint : String) : (start fingerprint).Matches :=
  ⟨rfl,fun id n => by simp [start,ControlServer.new,Registered]⟩

theorem transportId_injective : Function.Injective transportId := by
  intro m n h
  exact Numerals.toString_injective ((String.append_right_inj "tr_").mp h)

theorem registered_handle (h : (w.server.handle r).1.Registered id n) :
    (∃ x, r.rand = some x ∧ id = transportId x) ∨ w.server.Registered id n := by
  cases r with
  | postTransports rand agent =>
    cases agent with
    | none => exact Or.inr h
    | some agent =>
      by_cases hid : id = transportId rand
      · exact Or.inl ⟨rand,rfl,hid⟩
      · exact Or.inr (by simpa [hid] using registered_post.mp h)
  | deleteTransport id => exact Or.inr (registered_delete.mp h).2
  | postRemoteDescription id sdp => exact Or.inr (registered_tell.mp h)
  | postIceCandidate id candidate => exact Or.inr (registered_tell.mp h)
  | getHealth => exact Or.inr h

end Controlled

end

open Runs Controlled

/-- The registry is sound along exactly the runs in which no new id is a registered one's. -/
theorem registry_sound_iff (fingerprint : String) (rs : List ControlRequest) :
    Along Controlled.step Sound (start fingerprint) rs ↔
      Along Controlled.step Fresh (start fingerprint) rs := by
  constructor
  · exact Along.mono (fun w r h => h.fresh)
  · intro h
    apply Along.of_invariant (I := Matches) _ _ (matches_start fingerprint) h
    · intro w r u hm hfresh hstep
      cases hstep
      exact hm.step hfresh
    · intro w r hm hfresh
      exact sound_of_fresh hm hfresh

/-- As long as `std::rand` does not repeat itself, no id collides: the text of a number is
its own. -/
theorem fresh_of_distinct {w : Controlled} {rs : List ControlRequest}
    (hnew : ∀ x ∈ rs.filterMap ControlRequest.rand, ∀ n,
      ¬w.server.Registered (ControlServer.transportId x) n)
    (hdistinct : (rs.filterMap ControlRequest.rand).Nodup) :
    Along Controlled.step Fresh w rs := by
  induction rs generalizing w with
  | nil => trivial
  | cons r rs ih =>
    constructor
    · cases r with
      | postTransports rand agent =>
        cases agent with
        | none => trivial
        | some agent => exact not_registered_iff.mp (hnew rand (by simp [ControlRequest.rand]))
      | _ => trivial
    · intro u hu
      cases hu
      apply ih
      · intro x hx n hreg
        rcases registered_handle hreg with ⟨y,hy,hxy⟩ | hold
        · -- the number drawn now is not drawn again
          rw [List.filterMap_cons_some hy] at hdistinct
          rw [transportId_injective hxy] at hx
          exact (List.nodup_cons.mp hdistinct).1 hx
        · refine hnew x ?_ n hold
          obtain ⟨e,he,hex⟩ := List.mem_filterMap.mp hx
          exact List.mem_filterMap.mpr ⟨e,List.mem_cons_of_mem r he,hex⟩
      · have hsub : (rs.filterMap ControlRequest.rand).Sublist
            ((r :: rs).filterMap ControlRequest.rand) :=
          (List.sublist_cons_self r rs).filterMap _
        exact hdistinct.sublist hsub

def repeatedRand : List ControlRequest :=
  [.postTransports 1804289383 (some ("a","x")),.postTransports 1804289383 (some ("b","y"))]

theorem repeated_rand_evicts : ¬Along Controlled.step Sound (start "") repeatedRand ∧
    ∃ w, exec Controlled.step (start "") repeatedRand = some w ∧
      w.ledger.entries =
        [(ControlServer.transportId 1804289383,0),(ControlServer.transportId 1804289383,1)] ∧
      w.server.Registered (ControlServer.transportId 1804289383) 1 ∧
      ¬w.server.Registered (ControlServer.transportId 1804289383) 0 := by
  constructor
  · intro h
    have hfree := (h.2 _ rfl).1.fresh
    simp [Fresh,start] at hfree
  · refine ⟨_,rfl,rfl,?_,?_⟩
    · exact registered_post.mpr (by simp [start,ControlServer.new])
    · intro h
      have hmade := registered_post.mp h
      simp at hmade

end MaiaMeet
