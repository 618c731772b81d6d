import MaiaMeet.Media
import MaiaMeet.Runs
set_option autoImplicit false

/-! startRecording and stopRecording of devices.js with all the MediaRecorders they have made.
The recorders share one array of chunks, and each delivers its events in its own time. -/

namespace MaiaMeet

abbrev Chunk := List UInt8

inductive RecordingState where
  | inactive | recording
  deriving DecidableEq, Repr

/-- `stream` tells which MediaStream is recorded, `tracks` what it held at the start. `queued`:
the task that fires the stop event is queued; `stopped`: no event is to come. -/
structure MediaRecorder where
  stream : Nat
  tracks : Stream
  state : RecordingState
  queued : Bool
  stopped : Bool
  deriving DecidableEq, Repr

/-- What the browser makes of `new MediaRecorder` and `start`: the constructor throws, `start`
throws, or the recorder runs. -/
inductive Start where
  | unsupported | refused | started
  deriving DecidableEq, Repr

structure Recording where
  recordedChunks : List Chunk
  mediaRecorder : Option Nat
  recorders : List MediaRecorder
  isRecording : Bool
  deriving DecidableEq, Repr

namespace Recording

def new : Recording := ⟨[],none,[],false⟩

def startRecording (r : Recording) (stream : Nat) (tracks : Stream) : Start → Recording
  | .unsupported => { r with recordedChunks := [] }
  | .refused => { r with
      recordedChunks := []
      mediaRecorder := some r.recorders.length
      recorders := r.recorders ++ [⟨stream,tracks,.inactive,false,true⟩] }
  | .started => { r with
      recordedChunks := []
      mediaRecorder := some r.recorders.length
      recorders := r.recorders ++ [⟨stream,tracks,.recording,false,false⟩] }

/-- `MediaRecorder.stop()` where the recorder is not inactive. -/
def halt (m : MediaRecorder) : MediaRecorder :=
  if m.state = .inactive then m else { m with state := .inactive, queued := true }

def stopRecording (r : Recording) : Recording :=
  match r.mediaRecorder with
  | none => r
  | some i => { r with recorders := r.recorders.modify i halt }

/-- `tracks` are those of `devices.localStream`. An error of startRecording leaves the flag. -/
def toggleRecording (r : Recording) (stream : Nat) (tracks : Stream) (start : Start) :
    Recording :=
  if r.isRecording then { r.stopRecording with isRecording := false }
  else if tracks = [] then r
  else { r.startRecording stream tracks start with isRecording := start = .started }

def leaveRoom (r : Recording) : Recording := { r.stopRecording with isRecording := false }

def ondataavailable (r : Recording) (data : Chunk) : Recording :=
  if data.length > 0 then { r with recordedChunks := r.recordedChunks ++ [data] } else r

def finish (m : MediaRecorder) : MediaRecorder :=
  { m with state := .inactive, queued := false, stopped := true }

end Recording

inductive RecorderEvent where
  | toggleRecording (stream : Nat) (tracks : Stream) (start : Start)
  | leaveRoom
  | dataavailable (i : Nat) (data : Chunk)
  | stop (i : Nat)
  deriving DecidableEq, Repr

namespace Recording

def fires (r : Recording) (i : Nat) : Bool := r.recorders[i]?.any (fun m => !m.stopped)

def step (r : Recording) : RecorderEvent → Option Recording
  | .toggleRecording stream tracks start => some (r.toggleRecording stream tracks start)
  | .leaveRoom => some r.leaveRoom
  | .dataavailable i data => if r.fires i then some (r.ondataavailable data) else none
  | .stop i => if r.fires i then some { r with recorders := r.recorders.modify i finish } else none

/-- The Blob that onstop downloads, as the chunks it is made of. -/
def download (r : Recording) : RecorderEvent → Option (List Chunk)
  | .stop i => if r.fires i then some r.recordedChunks else none
  | _ => none

/-- What recorder `i` has emitted in a run, but for empty chunks. -/
def emitted (i : Nat) (es : List RecorderEvent) : List Chunk :=
  es.filterMap (fun e => match e with
    | .dataavailable j data => if j = i ∧ data ≠ [] then some data else none
    | _ => none)

/-- startRecording is not called while the stop event of an earlier recorder is to come. -/
def Exclusive (r : Recording) : RecorderEvent → Prop
  | .toggleRecording _ tracks _ =>
    r.isRecording = false → tracks ≠ [] → ∀ m ∈ r.recorders, m.stopped = true
  | _ => True

instance (r : Recording) : (e : RecorderEvent) → Decidable (r.Exclusive e)
  | .toggleRecording _ tracks _ => inferInstanceAs (Decidable
      (r.isRecording = false → tracks ≠ [] → ∀ m ∈ r.recorders, m.stopped = true))
  | .leaveRoom | .dataavailable _ _ | .stop _ => instDecidableTrue

structure Alone (es : List RecorderEvent) (r : Recording) : Prop where
  alone : ∀ i j, r.fires i = true → r.fires j = true → i = j
  chunks : ∀ i, r.fires i = true → r.recordedChunks = emitted i es
  fresh : ∀ i, r.recorders.length ≤ i → emitted i es = []

variable {r t : Recording} {es : List RecorderEvent} {i : Nat}

theorem fires_lt (h : r.fires i = true) : i < r.recorders.length := by
  rw [fires,Option.any_eq_true] at h
  obtain ⟨m,hm,_⟩ := h
  exact (List.getElem?_eq_some_iff.mp hm).1

theorem fires_modify {f : MediaRecorder → MediaRecorder} {k : Nat}
    (hf : ∀ m, (f m).stopped = m.stopped) :
    fires { r with recorders := r.recorders.modify k f } i = r.fires i := by
  simp only [fires,List.getElem?_modify]
  split
  · cases r.recorders[i]? with
    | none => rfl
    | some m => simp [hf]
  · simp

theorem halt_stopped (m : MediaRecorder) : (halt m).stopped = m.stopped := by
  unfold halt
  split <;> rfl

theorem fires_stopRecording : r.stopRecording.fires i = r.fires i := by
  unfold stopRecording
  split
  · rfl
  · exact fires_modify halt_stopped

theorem stopRecording_frame (r : Recording) :
    r.stopRecording.recordedChunks = r.recordedChunks ∧
      r.stopRecording.recorders.length = r.recorders.length := by
  unfold stopRecording
  split
  · exact ⟨rfl,rfl⟩
  · exact ⟨rfl,List.length_modify _ _ _⟩

theorem fires_finish {j : Nat} :
    fires { r with recorders := r.recorders.modify i finish } j =
      (r.fires j && decide (j ≠ i)) := by
  simp only [fires,List.getElem?_modify]
  by_cases hji : i = j
  · subst hji
    cases r.recorders[i]? <;> simp [finish]
  · simp [hji,Ne.symm hji]

theorem emitted_snoc (i : Nat) (es : List RecorderEvent) (e : RecorderEvent) :
    emitted i (es ++ [e]) = emitted i es ++ emitted i [e] := List.filterMap_append

theorem emitted_other {e : RecorderEvent} (h : ∀ data, e ≠ .dataavailable i data) :
    emitted i (es ++ [e]) = emitted i es := by
  rw [emitted_snoc]
  cases e with
  | dataavailable j data =>
    have hj : j ≠ i := fun hj => h data (by rw [hj])
    simp [emitted,hj]
  | toggleRecording | leaveRoom | stop => exact List.append_nil _

theorem fires_congr (h : t.recorders = r.recorders) (i : Nat) : t.fires i = r.fires i := by
  rw [fires,h,fires]

theorem fires_new {m : MediaRecorder} (h : t.recorders = r.recorders ++ [m]) :
    t.fires i = (r.fires i || (decide (i = r.recorders.length) && !m.stopped)) := by
  rcases Nat.lt_trichotomy i r.recorders.length with hi | rfl | hi
  · simp [fires,h,List.getElem?_append_left hi,Nat.ne_of_lt hi]
  · simp [fires,h]
  · have hnone : r.recorders[i]? = none := List.getElem?_eq_none (by omega)
    have hpos : i - r.recorders.length ≠ 0 := by omega
    simp [fires,h,List.getElem?_append_right (Nat.le_of_lt hi),hnone,Nat.ne_of_gt hi,hpos]

/-- A new recorder where no earlier one is to stop has the empty array to itself. -/
theorem Alone.add (h : Alone es r) (hnone : ∀ i, r.fires i = false) {m : MediaRecorder}
    (hchunks : t.recordedChunks = []) (hrecorders : t.recorders = r.recorders ++ [m]) :
    Alone es t := by
  have hlast : ∀ i, t.fires i = true → i = r.recorders.length := by
    intro i hi
    rw [fires_new hrecorders,hnone i] at hi
    simp only [Bool.false_or,Bool.and_eq_true,decide_eq_true_eq] at hi
    exact hi.1
  constructor
  · intro i j hi hj
    rw [hlast i hi,hlast j hj]
  · intro i hi
    rw [hchunks,h.fresh i (Nat.le_of_eq (hlast i hi).symm)]
  · intro i hi
    rw [hrecorders,List.length_append] at hi
    exact h.fresh i (Nat.le_of_add_right_le hi)

theorem none_fires (h : ∀ m ∈ r.recorders, m.stopped = true) (i : Nat) : r.fires i = false := by
  unfold fires
  cases hm : r.recorders[i]? with
  | none => rfl
  | some m => simp [h m (List.mem_of_getElem? hm)]

theorem Alone.snoc (h : Alone es r) {e : RecorderEvent} (he : ∀ i data, e ≠ .dataavailable i data) :
    Alone (es ++ [e]) r where
  alone := h.alone
  chunks := by
    intro i hi
    rw [emitted_other (he i)]
    exact h.chunks i hi
  fresh := by
    intro i hi
    rw [emitted_other (he i)]
    exact h.fresh i hi

theorem Alone.frame (h : Alone es r)
    (hfires : ∀ i, t.fires i = true → r.fires i = true ∧ t.recordedChunks = r.recordedChunks)
    (hlen : t.recorders.length = r.recorders.length) : Alone es t where
  alone := fun i j hi hj => h.alone i j (hfires i hi).1 (hfires j hj).1
  chunks := by
    intro i hi
    obtain ⟨hfires,hchunks⟩ := hfires i hi
    rw [hchunks,h.chunks i hfires]
  fresh := by
    intro i hi
    exact h.fresh i (hlen ▸ hi)

theorem Alone.stopRecording (h : Alone es r) :
    Alone es { r.stopRecording with isRecording := false } := by
  obtain ⟨hchunks,hlen⟩ := r.stopRecording_frame
  refine h.frame (fun i hi => ⟨?_,hchunks⟩) hlen
  rw [← fires_stopRecording]
  exact hi

theorem Alone.start (h : Alone es r) (hstopped : ∀ m ∈ r.recorders, m.stopped = true)
    (stream : Nat) (tracks : Stream) (start : Start) (flag : Bool) :
    Alone es { r.startRecording stream tracks start with isRecording := flag } := by
  have hnone := none_fires hstopped
  cases start with
  | unsupported =>
    refine h.frame (fun i hi => ?_) rfl
    have hi : r.fires i = true := hi
    rw [hnone] at hi
    cases hi
  | refused => exact h.add hnone rfl rfl
  | started => exact h.add hnone rfl rfl

theorem emitted_data (i j : Nat) (data : Chunk) :
    emitted j [.dataavailable i data] = if i = j ∧ data ≠ [] then [data] else [] := by
  by_cases h : i = j ∧ data ≠ []
  · simp [emitted,h]
  · simp [emitted,h]

theorem ondataavailable_chunks (r : Recording) (i : Nat) (data : Chunk) :
    (r.ondataavailable data).recordedChunks =
      r.recordedChunks ++ emitted i [.dataavailable i data] := by
  rw [emitted_data,ondataavailable]
  cases data <;> simp

theorem ondataavailable_recorders (r : Recording) (data : Chunk) :
    (r.ondataavailable data).recorders = r.recorders := by
  unfold ondataavailable
  split <;> rfl

theorem Alone.data (h : Alone es r) (hfires : r.fires i = true) (data : Chunk) :
    Alone (es ++ [.dataavailable i data]) (r.ondataavailable data) := by
  have hrecorders := r.ondataavailable_recorders data
  constructor
  · intro j k hj hk
    rw [fires_congr hrecorders] at hj hk
    exact h.alone j k hj hk
  · intro j hj
    rw [fires_congr hrecorders] at hj
    have hij := h.alone i j hfires hj
    subst hij
    rw [ondataavailable_chunks r i,emitted_snoc,h.chunks i hfires]
  · intro j hj
    rw [hrecorders] at hj
    have hij : i ≠ j := by
      have hi := fires_lt hfires
      omega
    rw [emitted_snoc,h.fresh j hj,emitted_data]
    simp [hij]

theorem alone_step (h : Alone es r) {e : RecorderEvent} (hc : r.Exclusive e)
    (hstep : r.step e = some t) : Alone (es ++ [e]) t := by
  cases e with
  | toggleRecording stream tracks start =>
    cases hstep
    refine Alone.snoc ?_ (by simp)
    unfold toggleRecording
    split
    · exact h.stopRecording
    · rename_i hflag
      split
      · exact h
      · rename_i htracks
        exact h.start (hc (by simpa using hflag) htracks) stream tracks start _
  | leaveRoom =>
    cases hstep
    exact h.stopRecording.snoc (by simp)
  | stop i =>
    simp only [step] at hstep
    split at hstep
    · cases hstep
      have hstopped : Alone es { r with recorders := r.recorders.modify i finish } := by
        refine h.frame (fun j hj => ⟨?_,rfl⟩) (List.length_modify _ _ _)
        rw [fires_finish] at hj
        simp only [Bool.and_eq_true] at hj
        exact hj.1
      exact hstopped.snoc (by simp)
    · cases hstep
  | dataavailable i data =>
    simp only [step] at hstep
    split at hstep
    · rename_i hfires
      cases hstep
      exact h.data hfires data
    · cases hstep

theorem alone_new : Alone [] new where
  alone := by simp [fires,new]
  chunks := by simp [fires,new]
  fresh := by simp [emitted]

theorem recording_integrity (es : List RecorderEvent) (hc : Runs.Along step Exclusive new es)
    (fs gs : List RecorderEvent) (i : Nat) (hes : es = fs ++ .stop i :: gs) (s : Recording)
    (hs : Runs.exec step new fs = some s) (hfires : s.fires i = true) :
    s.download (.stop i) = some (emitted i fs) := by
  subst hes
  have halone : Alone fs s := Runs.exec_induction_along alone_new
    (fun _ _ _ _ _ h he hstep => alone_step h he hstep) ((Runs.along_append hs).mp hc).1 hs
  have hchunks := halone.chunks i hfires
  simp [download,hfires,hchunks]

/-- Two recordings one after the other: an empty chunk is left out, and the last chunk of the
first comes when the second is not yet begun. -/
def consecutive : List RecorderEvent :=
  [.toggleRecording 0 [⟨0,.audio⟩] .started,.dataavailable 0 [1],.dataavailable 0 [],
    .toggleRecording 0 [⟨0,.audio⟩] .started,.dataavailable 0 [2],.stop 0,
    .toggleRecording 0 [⟨0,.audio⟩] .started,.dataavailable 1 [3],.leaveRoom]

theorem recording_integrity_consecutive :
    ∃ s, Runs.exec step new consecutive = some s ∧
      s.download (.stop 1) = some (emitted 1 consecutive) ∧
      emitted 1 consecutive = [[3]] := by
  refine ⟨_,rfl,?_,rfl⟩
  exact recording_integrity (consecutive ++ [.stop 1]) (by decide) _ [] 1 rfl _ rfl rfl

def overlapping : List RecorderEvent :=
  [.toggleRecording 0 [⟨0,.audio⟩] .started,.toggleRecording 0 [⟨0,.audio⟩] .started,
    .toggleRecording 0 [⟨0,.audio⟩] .started,.dataavailable 0 [1],.stop 0,
    .toggleRecording 0 [⟨0,.audio⟩] .started,.dataavailable 1 [2]]

theorem recording_mixed :
    ∃ s, Runs.exec step new overlapping = some s ∧ s.fires 1 = true ∧
      s.download (.stop 1) = some [[1],[2]] ∧ emitted 1 overlapping = [[2]] :=
  ⟨_,rfl,rfl,rfl,rfl⟩

end Recording

end MaiaMeet
