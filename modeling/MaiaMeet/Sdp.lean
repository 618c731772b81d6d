import Mathlib.Data.List.TakeWhile
import MaiaMeet.ControlServer
import MaiaMeet.Search
set_option autoImplicit false

/-!
The answers of the control server: how the SFU reads a field of a session description, and that
every answer it gives is read so as what it was made of.
-/

namespace MaiaMeet

def upperDigit (n : Nat) : Char := Char.ofNat (if n < 10 then 48 + n else 55 + n)

/-- `"%02X"` -/
def hex2 (b : UInt8) : List Char := [upperDigit (b.toNat / 16),upperDigit (b.toNat % 16)]

def printed (md : List UInt8) : List Char := md.flatMap (fun b => hex2 b ++ [':'])

/-- What globalInit prints of the certificate's digest: the colon behind the last byte becomes the
end of the string. -/
def fingerprintOf (md : List UInt8) : String := String.ofList (printed md).dropLast

def parseSdpField (sdp attr : String) : String :=
  match Search.after ("a=" ++ attr ++ ":").toList sdp.toList with
  | none => ""
  | some rest => String.ofList (rest.takeWhile (fun c => c ≠ '\r' && c ≠ '\n'))

/-- What `juice_get_local_description` writes. -/
structure LocalDescription where
  sdp : String

def LocalDescription.getLocalUfrag (d : LocalDescription) : String :=
  parseSdpField d.sdp "ice-ufrag"

def LocalDescription.getLocalPwd (d : LocalDescription) : String := parseSdpField d.sdp "ice-pwd"

def sessionLines : List String :=
  ["v=0","o=- 0 0 IN IP4 0.0.0.0","s=MaiaSFU","t=0 0","m=audio 9 UDP/TLS/RTP/SAVPF 111",
    "c=IN IP4 0.0.0.0","a=rtcp:9 IN IP4 0.0.0.0"]

namespace ControlledTransport

variable (t : ControlledTransport) (fingerprint : String)

def credentialLines : List String :=
  ["a=ice-ufrag:" ++ t.ufrag,"a=ice-pwd:" ++ t.pwd,"a=fingerprint:sha-256 " ++ fingerprint,
    "a=setup:passive","a=sendrecv"]

def answerLines : List String :=
  sessionLines ++ t.credentialLines fingerprint ++
    ["a=rtpmap:111 opus/48000/2","m=video 9 UDP/TLS/RTP/SAVPF 96","c=IN IP4 0.0.0.0",
      "a=rtcp:9 IN IP4 0.0.0.0"] ++ t.credentialLines fingerprint ++ ["a=rtpmap:96 VP8/90000"]

end ControlledTransport

def crlf : List Char := ['\r','\n']

def joinLines (lines : List String) : List Char := lines.flatMap (fun l => l.toList ++ crlf)

theorem answer_lines (t : ControlledTransport) (fingerprint : String) :
    (t.buildSdpAnswer fingerprint).toList = joinLines (t.answerLines fingerprint) := by
  have hline : ∀ l : String, l.toList ++ crlf = (l ++ "\r\n").toList := by simp [crlf]
  simp only [joinLines,ControlledTransport.answerLines,ControlledTransport.credentialLines,
    sessionLines,List.cons_append,List.nil_append,List.flatMap_cons,List.flatMap_nil,List.append_nil,hline]
  simp only [String.reduceAppend]
  unfold ControlledTransport.buildSdpAnswer
  simp only [String.append_assoc,← String.toList_append]

/-- A field is not found in front of the line it is on, if no line there has it. -/
theorem absent_lines {p : List Char} (hp : p ≠ []) (hn : '\n' ∉ p) {lines : List String}
    (h : ∀ l ∈ lines, ¬p <:+: l.toList ++ ['\r']) : ¬p <:+: joinLines lines ++ p.dropLast := by
  induction lines with
  | nil =>
    intro hin
    have hlength := hin.length_le
    have hpos := List.length_pos_iff.mpr hp
    simp only [joinLines,List.flatMap_nil,List.nil_append,List.length_dropLast] at hlength
    omega
  | cons l lines ih =>
    obtain ⟨hl,hlines⟩ := List.forall_mem_cons.mp h
    intro hin
    have hsplit : joinLines (l :: lines) ++ p.dropLast =
        (l.toList ++ ['\r']) ++ '\n' :: (joinLines lines ++ p.dropLast) := by
      simp [joinLines,crlf]
    rw [hsplit] at hin
    exact (Search.infix_append_cons hn hin).elim hl (ih hlines)

theorem takeWhile_line {value rest : List Char} (hr : '\r' ∉ value) (hn : '\n' ∉ value) :
    (value ++ '\r' :: rest).takeWhile (fun c => c ≠ '\r' && c ≠ '\n') = value := by
  rw [List.takeWhile_append_of_pos]
  · simp
  · intro c hc
    have hcr : c ≠ '\r' := fun he => hr (he ▸ hc)
    have hcn : c ≠ '\n' := fun he => hn (he ▸ hc)
    simp [hcr,hcn]

/-- A field is read off the first line that has it. -/
theorem parse_lines {sdp attr value : String} {before after : List String}
    (hsdp : sdp.toList = joinLines (before ++ ("a=" ++ attr ++ ":" ++ value) :: after))
    (hattr : '\n' ∉ attr.toList) (hr : '\r' ∉ value.toList) (hn : '\n' ∉ value.toList)
    (hbefore : ∀ l ∈ before, ¬("a=" ++ attr ++ ":").toList <:+: l.toList ++ ['\r']) :
    parseSdpField sdp attr = value := by
  have hp : ("a=" ++ attr ++ ":").toList ≠ [] := by simp
  have hpn : '\n' ∉ ("a=" ++ attr ++ ":").toList := by simp [hattr]
  have hafter := Search.after_append hp (absent_lines hp hpn hbefore)
    (value.toList ++ '\r' :: '\n' :: joinLines after)
  have hwhole : sdp.toList = joinLines before ++ (("a=" ++ attr ++ ":").toList ++
      (value.toList ++ '\r' :: '\n' :: joinLines after)) := by
    rw [hsdp]
    simp [joinLines,crlf]
  rw [parseSdpField,hwhole,hafter]
  simp only [takeWhile_line hr hn,String.ofList_toList]

theorem parse_no_eol (sdp attr : String) :
    '\r' ∉ (parseSdpField sdp attr).toList ∧ '\n' ∉ (parseSdpField sdp attr).toList := by
  unfold parseSdpField
  cases Search.after ("a=" ++ attr ++ ":").toList sdp.toList with
  | none => simp
  | some rest =>
    simp only [String.toList_ofList]
    constructor
    · intro h
      simpa using List.mem_takeWhile_imp h
    · intro h
      simpa using List.mem_takeWhile_imp h

theorem attribute_absent {attr attr' value : List Char} (hne : attr ≠ attr')
    (hattr : ':' ∉ attr) (hattr' : ':' ∉ attr') (heq : '=' ∉ attr' ++ ':' :: value) :
    ¬ 'a' :: '=' :: (attr ++ [':']) <:+: 'a' :: '=' :: (attr' ++ ':' :: value) := by
  intro hin
  have hnone : '=' ∉ ['a'] := by decide
  obtain ⟨_,t,ht⟩ := Search.infix_around (p := ['a']) (l := ['a']) hnone heq hin
  rw [List.append_assoc] at ht
  exact hne (Search.eq_of_append_cons hattr hattr' ht)

theorem field_absent {attr attr' value : String} (hne : attr.toList ≠ attr'.toList)
    (hattr : ':' ∉ attr.toList) (hattr' : ':' ∉ attr'.toList) (heq' : '=' ∉ attr'.toList)
    (heq : '=' ∉ value.toList) :
    ¬("a=" ++ attr ++ ":").toList <:+: ("a=" ++ attr' ++ ":" ++ value).toList ++ ['\r'] := by
  have hp : ("a=" ++ attr ++ ":").toList = 'a' :: '=' :: (attr.toList ++ [':']) := by simp
  have hl : ("a=" ++ attr' ++ ":" ++ value).toList ++ ['\r'] =
      'a' :: '=' :: (attr'.toList ++ ':' :: (value.toList ++ ['\r'])) := by simp
  rw [hp,hl]
  refine attribute_absent hne hattr hattr' ?_
  simp [heq,heq']

theorem mem_hex2 {b : UInt8} {c : Char} (h : c ∈ hex2 b) : c ≠ '\r' ∧ c ≠ '\n' := by
  have hall : ∀ n : Fin 16, upperDigit n ≠ '\r' ∧ upperDigit n ≠ '\n' := by decide
  have hb := b.toNat_lt
  simp only [hex2,List.mem_cons,List.not_mem_nil,or_false] at h
  rcases h with rfl | rfl
  · exact hall ⟨b.toNat / 16,by omega⟩
  · exact hall ⟨b.toNat % 16,by omega⟩

theorem hex2_injective {b b' : UInt8} (h : hex2 b = hex2 b') : b = b' := by
  have hall : ∀ m n : Fin 16, upperDigit m = upperDigit n → m = n := by decide
  have hb := b.toNat_lt
  have hb' := b'.toNat_lt
  simp only [hex2,List.cons.injEq,and_true] at h
  have hhigh := hall ⟨b.toNat / 16,by omega⟩ ⟨b'.toNat / 16,by omega⟩ h.1
  have hlow := hall ⟨b.toNat % 16,by omega⟩ ⟨b'.toNat % 16,by omega⟩ h.2
  rw [Fin.mk.injEq] at hhigh hlow
  exact UInt8.toNat_inj.mp (by omega)

theorem printed_cons (b : UInt8) (md : List UInt8) :
    printed (b :: md) = hex2 b ++ ':' :: printed md := by simp [printed]

theorem printed_injective {md md' : List UInt8} (h : printed md = printed md') : md = md' := by
  induction md generalizing md' with
  | nil =>
    cases md' with
    | nil => rfl
    | cons b md' =>
      rw [printed_cons] at h
      simp [printed,hex2] at h
  | cons b md ih =>
    cases md' with
    | nil =>
      rw [printed_cons] at h
      simp [printed,hex2] at h
    | cons b' md' =>
      rw [printed_cons,printed_cons] at h
      obtain ⟨hb,hrest⟩ := List.append_inj h rfl
      rw [hex2_injective hb,ih (List.cons.inj hrest).2]

theorem printed_snoc (md : List UInt8) (b : UInt8) :
    printed (md ++ [b]) = (printed md ++ hex2 b) ++ [':'] := by simp [printed]

/-- Certificates with different digests have different fingerprints. -/
theorem fingerprint_injective {md md' : List UInt8} (h : fingerprintOf md = fingerprintOf md') :
    md = md' := by
  have hdrop : (printed md).dropLast = (printed md').dropLast := by
    have := congrArg String.toList h
    simpa only [fingerprintOf,String.toList_ofList] using this
  rcases List.eq_nil_or_concat md with rfl | ⟨l,b,rfl⟩
  · rcases List.eq_nil_or_concat md' with rfl | ⟨l',b',rfl⟩
    · rfl
    · rw [List.concat_eq_append,printed_snoc,List.dropLast_concat] at hdrop
      simp [printed,hex2] at hdrop
  · rcases List.eq_nil_or_concat md' with rfl | ⟨l',b',rfl⟩
    · rw [List.concat_eq_append,printed_snoc,List.dropLast_concat] at hdrop
      simp [printed,hex2] at hdrop
    · rw [List.concat_eq_append,List.concat_eq_append] at hdrop ⊢
      refine printed_injective ?_
      rw [printed_snoc,printed_snoc,List.dropLast_concat,List.dropLast_concat] at hdrop
      rw [printed_snoc,printed_snoc,hdrop]

theorem fingerprint_no_eol {md : List UInt8} {c : Char} (h : c ∈ (fingerprintOf md).toList) :
    c ≠ '\r' ∧ c ≠ '\n' := by
  rw [fingerprintOf,String.toList_ofList] at h
  obtain ⟨b,_,hc⟩ := List.mem_flatMap.mp (List.mem_of_mem_dropLast h)
  rcases List.mem_append.mp hc with hc | hc
  · exact mem_hex2 hc
  · rw [List.mem_singleton] at hc
    subst hc
    decide

def OneLine (s : String) : Prop := '\r' ∉ s.toList ∧ '\n' ∉ s.toList

instance (s : String) : Decidable (OneLine s) := inferInstanceAs (Decidable (_ ∧ _))

/-- The credentials an agent gives: on one line, and with no equals sign in them. -/
def Plain (value : String) : Prop :=
  '\r' ∉ value.toList ∧ '\n' ∉ value.toList ∧ '=' ∉ value.toList

section
variable {t : ControlledTransport} {md : List UInt8}

structure ReadsBack (t : ControlledTransport) (md : List UInt8) (answer : String) : Prop where
  ufrag : parseSdpField answer "ice-ufrag" = t.ufrag
  pwd : parseSdpField answer "ice-pwd" = t.pwd
  fingerprint : parseSdpField answer "fingerprint" = "sha-256 " ++ fingerprintOf md

theorem answer_reads_back (hu : Plain t.ufrag) (hp : Plain t.pwd) :
    ReadsBack t md (t.buildSdpAnswer (fingerprintOf md)) := by
  have hlines := answer_lines t (fingerprintOf md)
  have hufrag : ∀ l ∈ sessionLines, ¬("a=" ++ "ice-ufrag" ++ ":").toList <:+: l.toList ++ ['\r'] := by
    decide +kernel
  have hpwd : ∀ l ∈ sessionLines, ¬("a=" ++ "ice-pwd" ++ ":").toList <:+: l.toList ++ ['\r'] := by
    decide +kernel
  have hfp : ∀ l ∈ sessionLines, ¬("a=" ++ "fingerprint" ++ ":").toList <:+: l.toList ++ ['\r'] := by
    decide +kernel
  constructor
  · exact @parse_lines _ _ _ sessionLines _ hlines (by decide) hu.1 hu.2.1 hufrag
  · refine @parse_lines _ _ _ (sessionLines ++ ["a=ice-ufrag:" ++ t.ufrag]) _ hlines (by decide)
      hp.1 hp.2.1 ?_
    intro l hl
    rcases List.mem_append.mp hl with hl | hl
    · exact hpwd l hl
    · rw [List.mem_singleton.mp hl]
      exact @field_absent _ "ice-ufrag" _ (by decide) (by decide) (by decide) (by decide) hu.2.2
  · have hvalue : ∀ c ∈ ("sha-256 " ++ fingerprintOf md).toList, c ≠ '\r' ∧ c ≠ '\n' := by
      intro c hc
      rw [String.toList_append,List.mem_append] at hc
      rcases hc with hc | hc
      · have hr : '\r' ∉ "sha-256 ".toList := by decide
        have hn : '\n' ∉ "sha-256 ".toList := by decide
        exact ⟨fun h => hr (h ▸ hc),fun h => hn (h ▸ hc)⟩
      · exact fingerprint_no_eol hc
    have hline : "a=fingerprint:sha-256 " ++ fingerprintOf md =
        "a=" ++ "fingerprint" ++ ":" ++ ("sha-256 " ++ fingerprintOf md) := by
      rw [← String.append_assoc]
      rfl
    obtain ⟨after,hafter⟩ : ∃ after, t.answerLines (fingerprintOf md) =
        (sessionLines ++ ["a=ice-ufrag:" ++ t.ufrag,"a=ice-pwd:" ++ t.pwd]) ++
          ("a=fingerprint:sha-256 " ++ fingerprintOf md) :: after := ⟨_,rfl⟩
    rw [hafter,hline] at hlines
    refine parse_lines hlines (by decide) (fun h => (hvalue _ h).1 rfl)
      (fun h => (hvalue _ h).2 rfl) (fun l hl => ?_)
    rcases List.mem_append.mp hl with hl | hl
    · exact hfp l hl
    · rcases List.mem_cons.mp hl with rfl | hl
      · exact @field_absent _ "ice-ufrag" _ (by decide) (by decide) (by decide) (by decide) hu.2.2
      · rw [List.mem_singleton.mp hl]
        exact @field_absent _ "ice-pwd" _ (by decide) (by decide) (by decide) (by decide) hp.2.2

theorem parse_plain {sdp attr : String} (h : '=' ∉ (parseSdpField sdp attr).toList) :
    Plain (parseSdpField sdp attr) :=
  ⟨(parse_no_eol sdp attr).1,(parse_no_eol sdp attr).2,h⟩

theorem OneLine.append {a b : String} (ha : OneLine a) (hb : OneLine b) : OneLine (a ++ b) := by
  constructor
  · rw [String.toList_append,List.mem_append,not_or]
    exact ⟨ha.1,hb.1⟩
  · rw [String.toList_append,List.mem_append,not_or]
    exact ⟨ha.2,hb.2⟩

theorem answer_one_line (hu : Plain t.ufrag) (hp : Plain t.pwd) :
    ∀ l ∈ t.answerLines (fingerprintOf md), OneLine l := by
  have hclosed : ∀ l ∈ sessionLines ++ ["a=ice-ufrag:","a=ice-pwd:","a=fingerprint:sha-256 ",
      "a=setup:passive","a=sendrecv","a=rtpmap:111 opus/48000/2","m=video 9 UDP/TLS/RTP/SAVPF 96",
      "a=rtpmap:96 VP8/90000"], OneLine l := by decide +kernel
  have hfp : OneLine (fingerprintOf md) :=
    ⟨fun h => (fingerprint_no_eol h).1 rfl,fun h => (fingerprint_no_eol h).2 rfl⟩
  have hcredentials : ∀ l ∈ t.credentialLines (fingerprintOf md), OneLine l := by
    intro l hl
    simp only [ControlledTransport.credentialLines,List.mem_cons,List.not_mem_nil,or_false] at hl
    rcases hl with rfl | rfl | rfl | rfl | rfl
    · exact (hclosed _ (by decide)).append ⟨hu.1,hu.2.1⟩
    · exact (hclosed _ (by decide)).append ⟨hp.1,hp.2.1⟩
    · exact (hclosed _ (by decide)).append hfp
    · exact hclosed _ (by decide)
    · exact hclosed _ (by decide)
  intro l hl
  simp only [ControlledTransport.answerLines,List.mem_append] at hl
  rcases hl with (((hl | hl) | hl) | hl) | hl
  · exact hclosed l (List.mem_append_left _ hl)
  · exact hcredentials l hl
  · revert l
    decide +kernel
  · exact hcredentials l hl
  · revert l
    decide +kernel

end

theorem fingerprint_kept {fingerprint : String} {rs : List ControlRequest} {w : Controlled}
    (h : Runs.exec Controlled.step (Controlled.start fingerprint) rs = some w) :
    w.server.fingerprint = fingerprint := by
  refine Runs.exec_invariant (I := fun w : Controlled => w.server.fingerprint = fingerprint) ?_ rfl h
  intro w r v hw hv
  cases hv
  cases r with
  | postTransports rand agent => cases agent <;> exact hw
  | deleteTransport id =>
    simp only [ControlServer.deleteTransport]
    split <;> exact hw
  | postRemoteDescription id text | postIceCandidate id text =>
    simp only [ControlServer.postRemoteDescription,ControlServer.postIceCandidate,
      ControlServer.tellTransport]
    split
    · exact hw
    · cases text <;> exact hw
  | getHealth => exact hw

/-- Whatever has been asked of the control server before: the answer it gives with a new transport
is 22 lines, and the SFU's own reader finds in it the agent's user fragment and password, the
same as beside it, and a fingerprint that no other digest has. -/
theorem answers_read_back (md : List UInt8) {rs : List ControlRequest} {w : Controlled}
    (h : Runs.exec Controlled.step (Controlled.start (fingerprintOf md)) rs = some w)
    (rand : Nat) (d : LocalDescription) (hu : '=' ∉ d.getLocalUfrag.toList)
    (hp : '=' ∉ d.getLocalPwd.toList) :
    ∃ info, (w.server.handle (.postTransports rand (some (d.getLocalUfrag,d.getLocalPwd)))).2 =
        ⟨200,some (.info info)⟩ ∧
      parseSdpField info.sdpAnswer "ice-ufrag" = d.getLocalUfrag ∧ info.iceUfrag = d.getLocalUfrag ∧
      parseSdpField info.sdpAnswer "ice-pwd" = d.getLocalPwd ∧ info.icePwd = d.getLocalPwd ∧
      (∀ md', parseSdpField info.sdpAnswer "fingerprint" = "sha-256 " ++ fingerprintOf md' ↔
        md' = md) ∧
      ∃ lines, lines.length = 22 ∧ info.sdpAnswer.toList = joinLines lines ∧
        ∀ l ∈ lines, OneLine l := by
  let t : ControlledTransport :=
    ⟨ControlServer.transportId rand,w.server.made,d.getLocalUfrag,d.getLocalPwd,[]⟩
  have hread : ReadsBack t md (t.buildSdpAnswer (fingerprintOf md)) :=
    answer_reads_back (parse_plain hu) (parse_plain hp)
  refine ⟨t.info (fingerprintOf md),?_,hread.ufrag,rfl,hread.pwd,rfl,fun md' => ?_,
    t.answerLines (fingerprintOf md),rfl,answer_lines t _,
    answer_one_line (parse_plain hu) (parse_plain hp)⟩
  · simp only [ControlServer.handle,ControlServer.postTransports,fingerprint_kept h]
    rfl
  · rw [ControlledTransport.info,hread.fingerprint]
    constructor
    · intro heq
      refine fingerprint_injective (String.toList_inj.mp ?_)
      have hlist := congrArg String.toList heq
      rw [String.toList_append,String.toList_append] at hlist
      exact (List.append_cancel_left hlist).symm
    · rintro rfl
      rfl

def agentDescription : LocalDescription where
  sdp := "a=ice-ufrag:8hhY\r\na=ice-pwd:asd88fgp\r\n"

/-- The second transport, once the first one has ended. -/
theorem answers_read_back_second :
    ∃ w, Runs.exec Controlled.step (Controlled.start (fingerprintOf [0xab,1]))
        [.postTransports 7 (some ("u","p")),.deleteTransport (ControlServer.transportId 7)] = some w ∧
      ∃ info, (w.server.handle (.postTransports 8 (some (agentDescription.getLocalUfrag,
          agentDescription.getLocalPwd)))).2 = ⟨200,some (.info info)⟩ ∧
        parseSdpField info.sdpAnswer "ice-pwd" = agentDescription.getLocalPwd := by
  obtain ⟨w,hw⟩ : ∃ w, Runs.exec Controlled.step (Controlled.start (fingerprintOf [0xab,1]))
      [.postTransports 7 (some ("u","p")),.deleteTransport (ControlServer.transportId 7)] = some w :=
    ⟨_,rfl⟩
  obtain ⟨info,hinfo,_,_,hpwd,_⟩ := answers_read_back [0xab,1] hw 8 agentDescription
    (by decide +kernel) (by decide +kernel)
  exact ⟨w,hw,info,hinfo,hpwd⟩

end MaiaMeet
