import Mathlib.Data.List.Chain
import Mathlib.Data.List.Nodup
import MaiaMeet.Rtp
set_option autoImplicit false

/-! Runs of an RtpRewriter: the packets of one source after the other, a reset between. -/

namespace MaiaMeet

open RtpPacket

inductive RewriterCall where
  | rewrite (data : List UInt8)
  | reset
  deriving DecidableEq, Repr

def RewriterCall.Next : RewriterCall → RewriterCall → Prop
  | .rewrite p, .rewrite q => sequenceNumber q = sequenceNumber p + 1
  | _, _ => True

namespace RtpRewriter

def call (r : RtpRewriter) : RewriterCall → RtpRewriter
  | .rewrite data => (r.rewrite data).1
  | .reset => r.reset

def output (r : RtpRewriter) : RewriterCall → List (List UInt8)
  | .rewrite data => [(r.rewrite data).2]
  | .reset => []

def run (r : RtpRewriter) (calls : List RewriterCall) : RtpRewriter := calls.foldl call r

def outputs : RtpRewriter → List RewriterCall → List (List UInt8)
  | _, [] => []
  | r, c :: cs => r.output c ++ outputs (r.call c) cs

@[simp] theorem run_nil (r : RtpRewriter) : r.run [] = r := rfl
@[simp] theorem run_cons (r : RtpRewriter) (c : RewriterCall) (cs : List RewriterCall) :
    r.run (c :: cs) = (r.call c).run cs := rfl

theorem run_append (r : RtpRewriter) (cs ds : List RewriterCall) :
    r.run (cs ++ ds) = (r.run cs).run ds := by simp [run]

theorem outputs_append (r : RtpRewriter) (cs ds : List RewriterCall) :
    r.outputs (cs ++ ds) = r.outputs cs ++ (r.run cs).outputs ds := by
  induction cs generalizing r with
  | nil => rfl
  | cons c cs ih => simp [outputs,ih]

theorem outputs_map_rewrite (r : RtpRewriter) (ps : List (List UInt8)) :
    r.outputs (ps.map .rewrite) = r.stream ps := by
  induction ps generalizing r with
  | nil => rfl
  | cons p ps ih => simp [outputs,stream,output,call,ih]

end RtpRewriter

section
variable {data p q : List UInt8} {r : RtpRewriter}

theorem Shifted.seq_sub {k : UInt16} {l : UInt32} {p' q' : List UInt8} (hp : Shifted k l p p')
    (hq : Shifted k l q q') :
    sequenceNumber q' - sequenceNumber p' = sequenceNumber q - sequenceNumber p := by
  rw [hp.seq,hq.seq]
  grind

theorem Shifted.ts_sub {k : UInt16} {l : UInt32} {p' q' : List UInt8} (hp : Shifted k l p p')
    (hq : Shifted k l q q') : timestamp q' - timestamp p' = timestamp q - timestamp p := by
  rw [hp.ts,hq.ts]
  grind

namespace RtpRewriter

theorem rewrite_last (h : 12 ≤ data.length) (r : RtpRewriter) :
    (r.rewrite data).1.lastOutSeq = sequenceNumber (r.rewrite data).2 ∧
      (r.rewrite data).1.lastOutTs = timestamp (r.rewrite data).2 := by
  have hout := rewrite_shifted h r
  constructor
  · rw [hout.seq,← UInt16.sub_eq_add_neg]
    rfl
  · rw [hout.ts,← UInt32.sub_eq_add_neg]
    rfl

theorem rewrite_first (h : 12 ≤ data.length) (hr : r.initialized = false) :
    sequenceNumber (r.rewrite data).2 = r.lastOutSeq + 1 ∧
      timestamp (r.rewrite data).2 = r.lastOutTs + 90000 := by
  have hsize : ∀ q ∈ [data], 12 ≤ q.length := by simpa using h
  obtain ⟨hout,-⟩ := List.forall₂_cons.mp (stream_first hsize hr)
  rw [hout.seq,hout.ts]
  constructor <;> grind

theorem run_initialized (hr : r.initialized = true) (ps : List (List UInt8)) :
    (r.run (ps.map .rewrite)).initialized = true ∧
      (r.run (ps.map .rewrite)).seqOffset = r.seqOffset ∧
      (r.run (ps.map .rewrite)).tsOffset = r.tsOffset := by
  induction ps generalizing r with
  | nil => exact ⟨hr,rfl,rfl⟩
  | cons p ps ih =>
    obtain ⟨hinit,hseq,hts⟩ := r.rewrite_initialized p
    have hfix : r.fixOffsets p = r := if_pos hr
    rw [hfix] at hseq hts
    obtain ⟨hinit',hseq',hts'⟩ := ih hinit
    exact ⟨hinit',hseq'.trans hseq,hts'.trans hts⟩

/-- Any two packets of one source are moved by the same constants. -/
theorem rewrite_same_shift (hp : 12 ≤ p.length) (hq : 12 ≤ q.length) (r : RtpRewriter)
    (between : List (List UInt8)) :
    ∃ k l, Shifted k l p (r.rewrite p).2 ∧
      Shifted k l q (((r.rewrite p).1.run (between.map .rewrite)).rewrite q).2 := by
  obtain ⟨hinit,hseq,hts⟩ := r.rewrite_initialized p
  obtain ⟨hinit',hseq',hts'⟩ := run_initialized hinit between
  have hout := rewrite_shifted hq ((r.rewrite p).1.run (between.map .rewrite))
  have hfix : ((r.rewrite p).1.run (between.map .rewrite)).fixOffsets q =
      (r.rewrite p).1.run (between.map .rewrite) := if_pos hinit'
  rw [hfix,hseq',hts',hseq,hts] at hout
  exact ⟨_,_,rewrite_shifted hp r,hout⟩

theorem map_seq_shifted {k : UInt16} {l : UInt32} {ps qs : List (List UInt8)}
    (h : List.Forall₂ (Shifted k l) ps qs) :
    qs.map sequenceNumber = ps.map (fun p => sequenceNumber p + k) := by
  induction h with
  | nil => rfl
  | cons hhead _ ih => rw [List.map_cons,List.map_cons,hhead.seq,ih]

theorem run_last {calls : List RewriterCall} (h : ∀ p, .rewrite p ∈ calls → 12 ≤ p.length)
    (r : RtpRewriter) :
    (r.run calls).lastOutSeq =
        ((r.outputs calls).getLast?.map sequenceNumber).getD r.lastOutSeq ∧
      (r.run calls).lastOutTs =
        ((r.outputs calls).getLast?.map timestamp).getD r.lastOutTs := by
  induction calls using List.reverseRecOn with
  | nil => exact ⟨rfl,rfl⟩
  | append_singleton calls c ih =>
    have hcalls := ih (fun p hp => h p (List.mem_append_left _ hp))
    rw [run_append,outputs_append]
    cases c with
    | rewrite p =>
      have hp := h p (by simp)
      obtain ⟨hseq,hts⟩ := (r.run calls).rewrite_last hp
      simp [outputs,output,call,hseq,hts]
    | reset => simpa [outputs,output,call,reset] using hcalls

def Following (r : RtpRewriter) : Prop :=
  r.initialized = true → r.lastOutSeq = r.lastInSeq - r.seqOffset

theorem following_call (r : RtpRewriter) (c : RewriterCall) : (r.call c).Following := by
  cases c with
  | rewrite p => exact fun _ => rfl
  | reset => exact fun h => nomatch h

theorem rewrite_next (hr : r.Following) (hp : 12 ≤ p.length)
    (hnext : r.initialized = true → sequenceNumber p = r.lastInSeq + 1) :
    sequenceNumber (r.rewrite p).2 = r.lastOutSeq + 1 := by
  cases h : r.initialized with
  | false => exact (rewrite_first hp h).1
  | true =>
    have hout := (rewrite_shifted hp r).seq
    have hfix : r.fixOffsets p = r := if_pos h
    rw [hout,hfix,hnext h,hr h]
    grind

def Continued (r : RtpRewriter) (calls : List RewriterCall) : Prop :=
  ∀ p, calls.head? = some (.rewrite p) → r.initialized = true →
    sequenceNumber p = r.lastInSeq + 1

theorem outputs_consecutive {calls : List RewriterCall}
    (h : ∀ p, .rewrite p ∈ calls → 12 ≤ p.length) (hchain : calls.IsChain RewriterCall.Next)
    {r : RtpRewriter} (hr : r.Following) (hcont : r.Continued calls) :
    List.IsChain (fun a b => b = a + 1) (r.lastOutSeq :: (r.outputs calls).map sequenceNumber) := by
  induction calls generalizing r with
  | nil => exact .singleton _
  | cons c calls ih =>
    have hrest := ih (fun p hp => h p (List.mem_cons_of_mem _ hp)) hchain.tail
      (r.following_call c)
    cases c with
    | reset => exact hrest (fun p _ hinit => nomatch hinit)
    | rewrite p =>
      have hp := h p List.mem_cons_self
      have hrest := hrest (fun q hq _ => by
        cases calls with
        | nil => cases hq
        | cons d calls =>
          cases hq
          exact hchain.rel)
      have hlast : (r.call (.rewrite p)).lastOutSeq = sequenceNumber (r.rewrite p).2 :=
        (r.rewrite_last hp).1
      rw [hlast] at hrest
      exact .cons_cons (rewrite_next hr hp (hcont p rfl)) hrest

end RtpRewriter

end

open RtpRewriter

/-- Within a source every packet moves by the same constants, from one source to the next
the numbers go on from the packet that left last, and only bytes 2 to 7 change. -/
theorem rewriting_continuous {calls : List RewriterCall}
    (h : ∀ p, .rewrite p ∈ calls → 12 ≤ p.length) :
    (∀ before p (between : List (List UInt8)) q after,
      calls = before ++ .rewrite p :: between.map .rewrite ++ .rewrite q :: after →
      let p' := ((new.run before).rewrite p).2
      let q' := ((new.run (before ++ .rewrite p :: between.map .rewrite)).rewrite q).2
      sequenceNumber q' - sequenceNumber p' = sequenceNumber q - sequenceNumber p ∧
        timestamp q' - timestamp p' = timestamp q - timestamp p) ∧
      (∀ before p after, calls = before ++ .reset :: .rewrite p :: after →
        let p' := ((new.run (before ++ [.reset])).rewrite p).2
        let last := (new.outputs before).getLast?
        sequenceNumber p' = (last.map sequenceNumber).getD 0 + 1 ∧
          timestamp p' = (last.map timestamp).getD 0 + 90000) ∧
      (∀ before p after, calls = before ++ .rewrite p :: after →
        let p' := ((new.run before).rewrite p).2
        p'.length = p.length ∧ ∀ j, j < 2 ∨ 8 ≤ j → p'[j]? = p[j]?) ∧
      (calls.IsChain RewriterCall.Next →
        ((new.outputs calls).map sequenceNumber).IsChain (fun a b => b = a + 1)) := by
  refine ⟨?_,?_,?_,?_⟩
  · intro before p between q after hcalls
    have hp : 12 ≤ p.length := h p (by simp [hcalls])
    have hq : 12 ≤ q.length := h q (by simp [hcalls])
    obtain ⟨k,l,hp',hq'⟩ := rewrite_same_shift hp hq (new.run before) between
    rw [run_append]
    exact ⟨hp'.seq_sub hq',hp'.ts_sub hq'⟩
  · intro before p after hcalls
    have hp : 12 ≤ p.length := h p (by simp [hcalls])
    have hbefore : ∀ q, .rewrite q ∈ before → 12 ≤ q.length :=
      fun q hq => h q (by simp [hcalls,hq])
    obtain ⟨hseq,hts⟩ := run_last hbefore new
    obtain ⟨hseq',hts'⟩ := rewrite_first (r := (new.run before).reset) hp rfl
    rw [run_append]
    exact ⟨hseq'.trans (congrArg (· + 1) hseq),hts'.trans (congrArg (· + 90000) hts)⟩
  · intro before p after hcalls
    have hout := rewrite_shifted (h p (by simp [hcalls])) (new.run before)
    exact ⟨hout.length,hout.outside⟩
  · intro hchain
    exact (outputs_consecutive h hchain (r := new) (fun hinit => nomatch hinit)
      (fun p _ hinit => nomatch hinit)).tail

def numberedPacket (seq : UInt16) : List UInt8 :=
  0x80 :: 0x60 :: Bytes.ofNat 2 seq.toNat ++ List.replicate 8 0

/-- Two packets over the wrap, then another source. -/
theorem rewriting_continuous_wrap :
    ((new.outputs [.rewrite (numberedPacket 65535),.rewrite (numberedPacket 0),.reset,
      .rewrite (numberedPacket 40000)]).map sequenceNumber).IsChain (fun a b => b = a + 1) := by
  refine (rewriting_continuous ?_).2.2.2 ?_
  · intro p hp
    simp only [List.mem_cons,RewriterCall.rewrite.injEq,reduceCtorEq,List.not_mem_nil,or_false,
      false_or] at hp
    rcases hp with rfl | rfl | rfl <;> decide
  · have hwrap : sequenceNumber (numberedPacket 0) = sequenceNumber (numberedPacket 65535) + 1 := by
      decide
    simp [RewriterCall.Next,hwrap]

/-- The calls for the packets of several sources, a reset between any two. -/
def switching : List (List (List UInt8)) → List RewriterCall
  | [] => []
  | [s] => s.map .rewrite
  | s :: rest => s.map .rewrite ++ .reset :: switching rest

def firstSeq (s : List (List UInt8)) : UInt16 := (s.head?.map sequenceNumber).getD 0

def lastSeq (s : List (List UInt8)) : UInt16 := (s.getLast?.map sequenceNumber).getD 0

def advance (s : List (List UInt8)) : UInt16 := if s = [] then 0 else lastSeq s - firstSeq s + 1

def advances : List (List (List UInt8)) → UInt16
  | [] => 0
  | s :: rest => advance s + advances rest

/-- No packet was ahead of the last of its source by as much as another packet came after it:
all the numbers between, one more, and its distance from the first of its own source. -/
def Clear (segments : List (List (List UInt8))) : Prop :=
  ∀ before s between t after, segments = before ++ s :: between ++ t :: after →
    ∀ p ∈ s, ∀ q ∈ t, sequenceNumber p - lastSeq s ≠
      advances between + 1 + (sequenceNumber q - firstSeq t)

/-- Packets of one source: no number twice, and all within less than half of the circle. -/
def OneSource (s : List (List UInt8)) : Prop :=
  (s.map sequenceNumber).Nodup ∧
    ∃ start : UInt16, ∀ p ∈ s, (sequenceNumber p - start).toNat + 1 < 2^15

section
variable {s : List (List UInt8)} {segments : List (List (List UInt8))}

def numbers (last : UInt16) : List (List (List UInt8)) → List UInt16
  | [] => []
  | s :: rest =>
    s.map (fun p => sequenceNumber p - firstSeq s + (last + 1)) ++ numbers (last + advance s) rest

theorem mem_numbers {last x : UInt16} : x ∈ numbers last segments ↔
    ∃ between t after, segments = between ++ t :: after ∧ ∃ q ∈ t,
      x = last + (advances between + 1 + (sequenceNumber q - firstSeq t)) := by
  induction segments generalizing last with
  | nil => simp [numbers]
  | cons s rest ih =>
    simp only [numbers,List.mem_append,List.mem_map]
    constructor
    · rintro (⟨q,hq,rfl⟩ | h)
      · exact ⟨[],s,rest,rfl,q,hq,by rw [advances]; grind⟩
      · obtain ⟨between,t,after,rfl,q,hq,rfl⟩ := ih.mp h
        exact ⟨s :: between,t,after,rfl,q,hq,by rw [advances]; grind⟩
    · rintro ⟨between,t,after,hsegments,q,hq,rfl⟩
      cases between with
      | nil =>
        cases hsegments
        exact .inl ⟨q,hq,by rw [advances]; grind⟩
      | cons u between =>
        cases hsegments
        exact .inr (ih.mpr ⟨between,t,after,rfl,q,hq,by rw [advances]; grind⟩)

theorem clear_cons : Clear (s :: segments) ↔
    (∀ between t after, segments = between ++ t :: after → ∀ p ∈ s, ∀ q ∈ t,
      sequenceNumber p - lastSeq s ≠
        advances between + 1 + (sequenceNumber q - firstSeq t)) ∧ Clear segments := by
  constructor
  · intro h
    refine ⟨fun between t after hrest => h [] s between t after (by simp [hrest]),?_⟩
    intro before u between t after hrest
    exact h (s :: before) u between t after (by simp [hrest])
  · rintro ⟨hhead,htail⟩ before u between t after hsegments
    cases before with
    | nil =>
      cases hsegments
      exact hhead between t after rfl
    | cons v before =>
      cases hsegments
      exact htail before u between t after (by simp)

theorem nodup_shifted (h : (s.map sequenceNumber).Nodup) (k l : UInt16) :
    (s.map (fun p => sequenceNumber p - k + l)).Nodup := by
  have hmap : s.map (fun p => sequenceNumber p - k + l) =
      (s.map sequenceNumber).map (fun x => x - k + l) := by simp
  rw [hmap]
  refine h.map (fun x y hxy => ?_)
  grind

theorem advance_of_mem {p : List UInt8} (hp : p ∈ s) :
    advance s = lastSeq s - firstSeq s + 1 := if_neg (List.ne_nil_of_mem hp)

theorem nodup_numbers (h : ∀ s ∈ segments, (s.map sequenceNumber).Nodup) (last : UInt16) :
    (numbers last segments).Nodup ↔ Clear segments := by
  induction segments generalizing last with
  | nil => simp [numbers,Clear]
  | cons s rest ih =>
    obtain ⟨hs,hrest⟩ := List.forall_mem_cons.mp h
    rw [numbers,List.nodup_append',clear_cons,ih hrest]
    simp only [nodup_shifted hs,true_and]
    rw [and_comm,and_congr_left_iff]
    intro _
    constructor
    · intro hdisjoint between t after hsegments p hp q hq heq
      refine hdisjoint (List.mem_map.mpr ⟨p,hp,rfl⟩) (mem_numbers.mpr ⟨_,_,_,hsegments,q,hq,?_⟩)
      rw [← heq,advance_of_mem hp]
      grind
    · intro hahead x hx hx'
      obtain ⟨p,hp,rfl⟩ := List.mem_map.mp hx
      obtain ⟨between,t,after,hsegments,q,hq,heq⟩ := mem_numbers.mp hx'
      refine hahead between t after hsegments p hp q hq ?_
      rw [advance_of_mem hp] at heq
      grind

/-- One source of a rewriter that was reset: all its packets move as the first does. -/
theorem outputs_source {r : RtpRewriter} (hr : r.initialized = false)
    (hs : ∀ p ∈ s, 12 ≤ p.length) :
    (r.outputs (s.map .rewrite)).map sequenceNumber =
        s.map (fun p => sequenceNumber p - firstSeq s + (r.lastOutSeq + 1)) ∧
      (r.run (s.map .rewrite)).lastOutSeq = r.lastOutSeq + advance s := by
  cases s with
  | nil => exact ⟨rfl,(UInt16.add_zero _).symm⟩
  | cons p ps =>
    have hmap : (r.outputs ((p :: ps).map .rewrite)).map sequenceNumber =
        (p :: ps).map (fun q => sequenceNumber q - firstSeq (p :: ps) + (r.lastOutSeq + 1)) := by
      rw [outputs_map_rewrite,map_seq_shifted (stream_first hs hr)]
      refine List.map_congr_left (fun q _ => ?_)
      have hfirst : firstSeq (p :: ps) = sequenceNumber p := rfl
      rw [hfirst]
      grind
    refine ⟨hmap,?_⟩
    have hsize : ∀ q, RewriterCall.rewrite q ∈ (p :: ps).map .rewrite → 12 ≤ q.length := by
      intro q hq
      obtain ⟨q',hq',heq⟩ := List.mem_map.mp hq
      cases heq
      exact hs q hq'
    have hlast : (p :: ps).getLast? = some ((p :: ps).getLast (List.cons_ne_nil p ps)) :=
      List.getLast?_eq_some_getLast _
    rw [(run_last hsize r).1,← List.getLast?_map,hmap,List.getLast?_map,
      advance_of_mem List.mem_cons_self,lastSeq,hlast]
    simp only [Option.map_some,Option.getD_some]
    grind

theorem switching_cons (s t : List (List UInt8)) (rest : List (List (List UInt8))) :
    switching (s :: t :: rest) = s.map .rewrite ++ .reset :: switching (t :: rest) := rfl

theorem outputs_switching {r : RtpRewriter} (hr : r.initialized = false)
    (h : ∀ s ∈ segments, ∀ p ∈ s, 12 ≤ p.length) :
    (r.outputs (switching segments)).map sequenceNumber = numbers r.lastOutSeq segments := by
  induction segments generalizing r with
  | nil => rfl
  | cons s rest ih =>
    obtain ⟨hs,hrest⟩ := List.forall_mem_cons.mp h
    obtain ⟨hseq,hlast⟩ := outputs_source hr hs
    cases rest with
    | nil => simpa [switching,numbers] using hseq
    | cons t rest =>
      have htail := ih (r := (r.run (s.map .rewrite)).reset) rfl hrest
      have hreset : (r.run (s.map .rewrite)).reset.lastOutSeq =
          (r.run (s.map .rewrite)).lastOutSeq := rfl
      rw [hreset,hlast] at htail
      rw [switching_cons,outputs_append,List.map_append,hseq,numbers,← htail]
      rfl

end

/-- A number is used once in a run, unless a packet that was ahead of the last of its source
meets one that came later. -/
theorem rewriting_unique {segments : List (List (List UInt8))}
    (hsize : ∀ s ∈ segments, ∀ p ∈ s, 12 ≤ p.length)
    (hsource : ∀ s ∈ segments, (s.map sequenceNumber).Nodup) :
    ((new.outputs (switching segments)).map sequenceNumber).Nodup ↔ Clear segments := by
  rw [outputs_switching rfl hsize]
  exact nodup_numbers hsource _

theorem rewriting_unique_in_order :
    ((new.outputs (switching [[numberedPacket 65535,numberedPacket 0],[numberedPacket 40000]])).map
      sequenceNumber).Nodup ↔
      Clear [[numberedPacket 65535,numberedPacket 0],[numberedPacket 40000]] :=
  rewriting_unique (by decide) (by decide)

/-- The last packet before the switch came late: numbers 1, 3, 2, and then 3 again. -/
theorem rewriting_reuse : ∃ segments : List (List (List UInt8)),
    (∀ s ∈ segments, ∀ p ∈ s, 12 ≤ p.length) ∧ (∀ s ∈ segments, OneSource s) ∧
      segments.flatten.length < 2^15 ∧
      ¬ ((new.outputs (switching segments)).map sequenceNumber).Nodup := by
  refine ⟨[[numberedPacket 10,numberedPacket 12,numberedPacket 11],[numberedPacket 40000]],
    by decide,?_,by decide,by decide +kernel⟩
  intro s hs
  simp only [List.mem_cons,List.not_mem_nil,or_false] at hs
  rcases hs with rfl | rfl
  · exact ⟨by decide,10,by decide⟩
  · exact ⟨by decide,40000,by decide⟩

end MaiaMeet
