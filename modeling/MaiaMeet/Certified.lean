import MaiaMeet.Publishing
set_option autoImplicit false

/-! When nginx is given the HTTPS site: only after the certificate has passed both checks. -/

namespace MaiaMeet

open Faults Script Publisher Publication

def Passed (c : PublishCommand) (log : List Asked) : Prop :=
  ∃ a ∈ log, a.command = c ∧ a.status = 0

def Asked.read (a : Asked) (text : List UInt8) : Prop :=
  a.site.map File.content = some text

def Verified (text : List UInt8) (log : List Asked) : Prop :=
  ∀ l a m, log = l ++ a :: m → a.command = .reloadNginx → a.read text →
    Passed .checkHost l ∧ Passed .checkEnd l

structure Unread (text : List UInt8) (v : Vps) : Prop where
  verified : Verified text v.log
  site : (v.files sitePath).map File.content ≠ some text

structure UnreadBeside (text : List UInt8) (file : Option File) (path : Path) (v : Vps) : Prop where
  unread : Unread text v
  same : v.files path = file

structure Cleared (text : List UInt8) (v : Vps) : Prop where
  verified : Verified text v.log
  host : Passed .checkHost v.log
  dates : Passed .checkEnd v.log

section
variable {text : List UInt8} {v : Vps} {path : Path}

theorem passed_append {c : PublishCommand} {log : List Asked} (h : Passed c log) (a : Asked) :
    Passed c (log ++ [a]) := by
  obtain ⟨b,hb,hc⟩ := h
  exact ⟨b,List.mem_append_left _ hb,hc⟩

theorem verified_append {log : List Asked} (h : Verified text log) {a : Asked}
    (ha : a.command = .reloadNginx → a.read text → Passed .checkHost log ∧ Passed .checkEnd log) :
    Verified text (log ++ [a]) := by
  intro l b m heq hcommand hread
  rcases List.eq_nil_or_concat m with rfl | ⟨m,c,rfl⟩
  · obtain ⟨rfl,hb⟩ := List.append_inj' heq rfl
    cases hb
    exact ha hcommand hread
  · rw [List.concat_eq_append,← List.cons_append,← List.append_assoc] at heq
    obtain ⟨rfl,_⟩ := List.append_inj' heq rfl
    exact h l b m rfl hcommand hread

theorem Unread.ask (h : Unread text v) (c : PublishCommand) (k : Nat) : Unread text (v.ask c k) :=
  ⟨verified_append h.verified (fun _ hread => absurd hread h.site),h.site⟩

theorem Cleared.ask (h : Cleared text v) (c : PublishCommand) (k : Nat) :
    Cleared text (v.ask c k) :=
  ⟨verified_append h.verified (fun _ _ => ⟨h.host,h.dates⟩),passed_append h.host _,
    passed_append h.dates _⟩

theorem Unread.put (h : Unread text v) {file : Option File}
    (hfile : path = sitePath → file.map File.content ≠ some text) :
    Unread text (v.put path file) := by
  refine ⟨h.verified,?_⟩
  rw [Vps.put_files]
  split
  · rename_i hpath
    exact hfile hpath.symm
  · exact h.site

theorem Unread.write (h : Unread text v) {content : List UInt8}
    (hcontent : path = sitePath → content ≠ text) : Unread text (v.write path content) :=
  h.put (fun hpath hc => hcontent hpath (Option.some.inj hc))

theorem Unread.writeTorn (h : Unread text v) {content : List UInt8}
    (hcontent : path = sitePath → ∀ k, content.take k ≠ text) (k : Nat) :
    Unread text (v.writeTorn path content k) := by
  cases k with
  | zero => exact h
  | succ k => exact h.write (fun hpath => hcontent hpath k)

theorem keeps_unread_command (c : PublishCommand) :
    Keeps (fun w => Unread text w.now) (command c) := keeps_run (fun k _ h => h.ask c k)

theorem keeps_cleared_command (c : PublishCommand) :
    Keeps (fun w => Cleared text w.now) (command c) := keeps_run (fun k _ h => h.ask c k)

theorem keeps_unread_elsewhere : Keeps (fun w => Unread text w.now) elsewhere :=
  keeps_perform (fun _ _ h => h) (fun _ h => h)

theorem keeps_unread_write {content : List UInt8} (hcontent : path = sitePath → content ≠ text)
    (htake : path = sitePath → ∀ k, content.take k ≠ text) :
    Keeps (fun w => Unread text w.now) (writeText path content) :=
  keeps_perform (fun k _ h => h.writeTorn htake k) (fun _ h => h.write hcontent)

theorem keeps_unread_symlink : Keeps (fun w => Unread text w.now) symlink := by
  refine keeps_look.bind (fun v => ?_)
  split
  · exact keeps_throw
  · exact keeps_perform (fun _ _ h => h) (fun _ h => ⟨h.verified,h.site⟩)

theorem keeps_unread_copy {src : Path} (hpath : path ≠ sitePath) :
    Keeps (fun w => Unread text w.now) (copy2 src path) := by
  refine keeps_look.bind (fun v => ?_)
  split
  · exact keeps_throw
  · exact keeps_perform (fun k _ h => h.writeTorn (fun he => absurd he hpath) k)
      (fun _ h => h.put (fun he => absurd he hpath))

/-- Once the checks have gone well, nothing an operation does to files or link matters. -/
theorem keeps_cleared {torn : Nat → Vps → Vps} {done : Vps → Vps}
    (htorn : ∀ k v, (torn k v).log = v.log) (hdone : ∀ v, (done v).log = v.log) :
    Keeps (fun w => Cleared text w.now) (perform torn done : Publisher Unit) := by
  have hlog : ∀ {v v' : Vps}, v'.log = v.log → Cleared text v → Cleared text v' :=
    fun heq h => ⟨heq ▸ h.verified,heq ▸ h.host,heq ▸ h.dates⟩
  exact keeps_perform (fun k v => hlog (htorn k v)) (fun v => hlog (hdone v))

theorem writeTorn_log (v : Vps) (path : Path) (content : List UInt8) (k : Nat) :
    (v.writeTorn path content k).log = v.log := by cases k <;> rfl

theorem keeps_cleared_write (content : List UInt8) :
    Keeps (fun w => Cleared text w.now) (writeText path content) :=
  keeps_cleared (fun k v => writeTorn_log v path content k) (fun _ => rfl)

theorem keeps_cleared_copy (src : Path) :
    Keeps (fun w => Cleared text w.now) (copy2 src path) := by
  refine keeps_look.bind (fun v => ?_)
  split
  · exact keeps_throw
  · exact keeps_cleared (fun k v => writeTorn_log v path _ k) (fun _ => rfl)

theorem keeps_cleared_reload : Keeps (fun w => Cleared text w.now) reloadNginx :=
  (keeps_cleared_command .nginxTest).bind (fun _ => keeps_cleared_command .reloadNginx)

theorem keeps_unread_reload : Keeps (fun w => Unread text w.now) reloadNginx :=
  (keeps_unread_command .nginxTest).bind (fun _ => keeps_unread_command .reloadNginx)

theorem wp_passed {w : World PublishError Vps} {c : PublishCommand} (h : Unread text w.now) :
    wp (command c) (fun _ t => Unread text t.now ∧ Passed c t.now.log ∧
        ∀ d, Passed d w.now.log → Passed d t.now.log)
      (fun _ t => Unread text t.now) w := by
  refine wp_mono (wp_and wp_run (keeps_unread_command c w h)) ?_ ?_
  · rintro _ t ⟨⟨ht,_⟩,hunread⟩
    refine ⟨hunread,?_,fun d hd => ?_⟩
    · rw [ht]
      exact ⟨_,List.mem_append_right _ (List.mem_singleton_self _),rfl,rfl⟩
    · rw [ht]
      exact passed_append hd _
  · rintro e t ⟨_,hunread⟩
    exact hunread

end

theorem http_ne (plan : Publication) (k : Nat) :
    plan.http ≠ plan.http ++ plan.https ∧ plan.http.take k ≠ plan.http ++ plan.https := by
  have hpos := List.length_pos_iff.mpr plan.https_ne_nil
  constructor
  · intro h
    have hlength := congrArg List.length h
    rw [List.length_append] at hlength
    omega
  · intro h
    have hlength := congrArg List.length h
    rw [List.length_append,List.length_take] at hlength
    omega

section
variable {text : List UInt8} {α : Type} {x : Publisher α} {w : World PublishError Vps}

theorem wp_unread (hx : Keeps (fun w => Unread text w.now) x) (h : Unread text w.now) :
    wp x (fun _ t => Unread text t.now) (fun _ t => Unread text t.now ∨ Cleared text t.now) w :=
  wp_mono (hx w h) (fun _ _ ht => ht) (fun _ _ ht => .inl ht)

theorem wp_cleared (hx : Keeps (fun w => Cleared text w.now) x) (h : Cleared text w.now) :
    wp x (fun _ t => Cleared text t.now) (fun _ t => Unread text t.now ∨ Cleared text t.now) w :=
  wp_mono (hx w h) (fun _ _ ht => ht) (fun _ _ ht => .inr ht)

end

theorem keeps_unread_certonly (plan : Publication) {text : List UInt8} :
    Keeps (fun w => Unread text w.now) plan.certonly := by
  refine keeps_run (fun status v h => ?_)
  have hask := h.ask .certonly status
  have hsite : plan.certbot status v.files sitePath = v.files sitePath :=
    plan.spared_own (.inl rfl) status v.files
  refine ⟨hask.verified,?_⟩
  change (plan.certbot status v.files sitePath).map File.content ≠ some text
  rw [hsite]
  exact h.site

/-- The activation gives nginx the HTTPS site behind both checks. -/
theorem wp_activate_verified (plan : Publication) {w : World PublishError Vps} {hadLink needed : Bool}
    (h : Unread (plan.http ++ plan.https) w.now) :
    wp (plan.activate hadLink needed) (fun _ t => Cleared (plan.http ++ plan.https) t.now)
      (fun _ t => Unread (plan.http ++ plan.https) t.now ∨
        Cleared (plan.http ++ plan.https) t.now) w := by
  refine wp_seq (wp_unread keeps_unread_elsewhere h) (fun _ t₁ ht₁ => ?_)
  refine wp_seq (wp_unread keeps_unread_elsewhere ht₁) (fun _ t₂ ht₂ => ?_)
  refine wp_seq (wp_unread keeps_unread_elsewhere ht₂) (fun _ t₃ ht₃ => ?_)
  refine wp_seq (wp_unread (keeps_unread_symlink.doIf _) ht₃) (fun _ t₄ ht₄ => ?_)
  have hwrite : Keeps (fun w => Unread (plan.http ++ plan.https) w.now)
      (writeText sitePath plan.http) :=
    keeps_unread_write (fun _ => (http_ne plan 0).1) (fun _ k => (http_ne plan k).2)
  have hobtain : Keeps (fun w => Unread (plan.http ++ plan.https) w.now) plan.obtainCertificate :=
    hwrite.bind (fun _ => keeps_unread_reload.bind (fun _ => keeps_unread_certonly plan))
  refine wp_seq (wp_unread (hobtain.doIf needed) ht₄) (fun _ t₅ ht₅ => ?_)
  refine wp_seq (wp_mono (wp_passed ht₅) (fun _ _ ht => ht) (fun _ _ ht => .inl ht)) ?_
  rintro _ t₆ ⟨ht₆,hhost,_⟩
  refine wp_seq (wp_mono (wp_passed ht₆) (fun _ _ ht => ht) (fun _ _ ht => .inl ht)) ?_
  rintro _ t₇ ⟨ht₇,hdates,hkept⟩
  have hcleared : Cleared (plan.http ++ plan.https) t₇.now :=
    ⟨ht₇.verified,hkept .checkHost hhost,hdates⟩
  refine wp_seq (wp_cleared (keeps_cleared_write _) hcleared) (fun _ t₈ ht₈ => ?_)
  refine wp_seq (wp_cleared keeps_cleared_reload ht₈) (fun _ t₉ ht₉ => ?_)
  have helsewhere : Keeps (fun w => Cleared (plan.http ++ plan.https) w.now) elsewhere :=
    keeps_cleared (fun _ _ => rfl) (fun _ => rfl)
  refine wp_seq (wp_cleared helsewhere ht₉) (fun _ t₁₀ ht₁₀ => ?_)
  refine wp_seq (wp_cleared (keeps_cleared_write _) ht₁₀) (fun _ t₁₁ ht₁₁ => ?_)
  exact wp_cleared (keeps_cleared (fun _ _ => rfl) (fun _ => rfl)) ht₁₁

/-- A restored site that is not the text is still not read as the text. A restoration that stops
in the middle is behind all reloads. -/
theorem wp_restore_unread (plan : Publication) {text : List UInt8} {w : World PublishError Vps}
    {existed : Bool} (h : Unread text w.now)
    (hsaved : existed → (w.now.files (plan.saved sitePath)).map File.content ≠ some text) :
    wp (plan.restore sitePath existed) (fun _ t => Unread text t.now)
      (fun _ t => Verified text t.now.log) w := by
  unfold restore
  rw [wp_bind,wp_look]
  cases existed with
  | true =>
    rw [if_pos rfl]
    unfold copy2
    rw [wp_bind,wp_look]
    cases hfile : w.now.files (plan.saved sitePath) with
    | none => exact h.verified
    | some file =>
      refine wp_mono wp_perform ?_ ?_
      · rintro _ t ⟨ht,_⟩
        rw [ht]
        exact h.put (fun _ => hfile ▸ hsaved rfl)
      · rintro _ t ⟨_,k,ht⟩
        rw [ht,writeTorn_log]
        exact h.verified
  | false =>
    rw [if_neg (by simp)]
    have hunlink : Keeps (fun w => Unread text w.now) (Publisher.unlink sitePath) :=
      keeps_perform (fun _ _ h => h) (fun _ h => h.put (fun _ => by simp))
    exact wp_mono (hunlink.doIf _ w h) (fun _ _ ht => ht) (fun _ _ ht => ht.verified)

theorem keeps_cleared_restore (plan : Publication) {text : List UInt8} (path : Path) (existed : Bool) :
    Keeps (fun w => Cleared text w.now) (plan.restore path existed) := by
  refine keeps_look.bind (fun v => ?_)
  split
  · exact keeps_cleared_copy _
  · have hunlink : Keeps (fun w => Cleared text w.now) (Publisher.unlink path) :=
      keeps_cleared (fun _ _ => rfl) (fun _ => rfl)
    exact hunlink.doIf _

theorem keeps_unread_hook (plan : Publication) {text : List UInt8} (existed : Bool) :
    Keeps (fun w => Unread text w.now) (plan.restore hookPath existed) := by
  have hne : hookPath ≠ sitePath := by decide
  refine keeps_look.bind (fun v => ?_)
  split
  · exact keeps_unread_copy hne
  · refine Keeps.doIf ?_ _
    exact keeps_perform (fun _ _ h => h) (fun _ h => h.put (fun he => absurd he hne))

/-- The handler gives nginx nothing but what was there. -/
theorem wp_handler_verified (plan : Publication) {text : List UInt8} {w : World PublishError Vps}
    {previous : Previous} (h : Unread text w.now ∨ Cleared text w.now)
    (hsaved : previous.site → (w.now.files (plan.saved sitePath)).map File.content ≠ some text) :
    wp (plan.handler previous) (fun _ t => Verified text t.now.log)
      (fun _ t => Verified text t.now.log) w := by
  unfold handler
  rw [wp_bind,wp_look]
  rcases h with h | h
  · have hunlink : Keeps (fun t => UnreadBeside text (w.now.files (plan.saved sitePath))
        (plan.saved sitePath) t.now) unlinkSite :=
      keeps_perform (fun _ _ h => h) (fun _ h => ⟨⟨h.unread.verified,h.unread.site⟩,h.same⟩)
    refine wp_seq (wp_mono (hunlink.doIf _ w ⟨h,rfl⟩) (fun _ _ ht => ht)
      (fun _ _ ht => ht.unread.verified)) (fun _ t₁ ht₁ => ?_)
    refine wp_seq (wp_restore_unread plan ht₁.unread (ht₁.same ▸ hsaved)) (fun _ t₂ ht₂ => ?_)
    refine wp_seq (wp_mono (keeps_unread_hook plan previous.hook t₂ ht₂) (fun _ _ ht => ht)
      (fun _ _ ht => ht.verified)) (fun _ t₃ ht₃ => ?_)
    exact wp_mono (keeps_unread_reload t₃ ht₃) (fun _ _ ht => ht.verified)
      (fun _ _ ht => ht.verified)
  · have hunlink : Keeps (fun w => Cleared text w.now) unlinkSite :=
      keeps_cleared (fun _ _ => rfl) (fun _ => rfl)
    have hall := (hunlink.doIf (!previous.hadLink && w.now.link.isSome)).bind (fun _ =>
      (keeps_cleared_restore plan sitePath previous.site).bind (fun _ =>
        (keeps_cleared_restore plan hookPath previous.hook).bind (fun _ => keeps_cleared_reload)))
    exact wp_mono (hall w h) (fun _ _ ht => ht.verified) (fun _ _ ht => ht.verified)

theorem keeps_unread_save (plan : Publication) {text : List UInt8} (path : Path) :
    Keeps (fun w => Unread text w.now) (plan.save path) := by
  refine keeps_look.bind (fun v => ?_)
  refine ((keeps_unread_copy ?_).doIf _).bind (fun _ => keeps_pure)
  simp [saved,backupDir,sitePath]

theorem keeps_unread_backup (plan : Publication) {text : List UInt8} :
    Keeps (fun w => Unread text w.now) plan.backup := by
  refine keeps_unread_elsewhere.bind (fun _ => ?_)
  refine (keeps_unread_save plan sitePath).bind (fun _ => ?_)
  refine (keeps_unread_save plan hookPath).bind (fun _ => ?_)
  exact keeps_look.bind (fun _ => keeps_pure)

theorem keeps_unread_check (plan : Publication) {text : List UInt8} :
    Keeps (fun w => Unread text w.now) plan.check := by
  refine (keeps_unread_command _).bind (fun _ => keeps_look.bind (fun v => ?_))
  split
  · exact keeps_throw
  · split
    · exact keeps_throw
    · split
      · exact keeps_throw
      · split
        · exact keeps_throw
        · split
          · split
            · exact keeps_throw
            · exact keeps_pure
          · exact keeps_pure

/-- Whichever operations fail, and whether the script ends well or the handler runs: a reload that
read the whole site came behind a successful check of the host and of the dates. -/
theorem verified_publication (plan : Publication) {w : World PublishError Vps} (hlog : w.now.log = [])
    (hsite : (w.now.files sitePath).map File.content ≠ some (plan.http ++ plan.https)) :
    wp plan.publish (fun _ t => Verified (plan.http ++ plan.https) t.now.log)
      (fun _ t => Verified (plan.http ++ plan.https) t.now.log) w := by
  have hstart : Unread (plan.http ++ plan.https) w.now := by
    refine ⟨?_,hsite⟩
    rw [hlog]
    intro l a m heq
    simp at heq
  refine wp_seq (wp_mono (wp_and plan.wp_check (keeps_unread_check plan w hstart))
    (fun _ _ h => h) (fun _ _ h => h.2.verified)) ?_
  rintro _ w₀ ⟨⟨_,hfiles₀,_⟩,hunread₀⟩
  rw [wp_bind,wp_look]
  refine wp_seq (wp_mono (wp_and plan.wp_backup (keeps_unread_backup plan w₀ hunread₀))
    (fun _ _ h => h) (fun _ _ h => h.2.verified)) ?_
  rintro previous w₁ ⟨hsaved,hunread₁⟩
  -- the copy in the backup is of a site that was not the text, and the activation leaves it alone
  have hcopy : previous.site → ∀ t : World PublishError Vps,
      plan.Within previous.hadLink (plan.needsCertificate w₀.now) w₁.now t.now →
        (t.now.files (plan.saved sitePath)).map File.content ≠ some (plan.http ++ plan.https) := by
    intro hthere t hwithin
    rw [hsaved.site] at hthere
    obtain ⟨file,hfile⟩ := Option.isSome_iff_exists.mp hthere
    rw [hwithin.others _ (by simp [saved,backupDir,sitePath])
      (by simp [saved,backupDir,hookPath]) (fun _ => plan.spared_saved _),hsaved.savedSite file hfile,← hfile,hfiles₀]
    exact hsite
  rw [wp_tryCatch]
  refine wp_mono (wp_and (wp_activate_verified plan hunread₁)
    (plan.keeps_activate w₁.now _ _ w₁ ⟨fun _ _ _ _ => rfl,.inl rfl⟩)) ?_ ?_
  · rintro _ t ⟨hcleared,_⟩
    exact hcleared.verified
  · rintro e t ⟨hleft,hwithin⟩
    exact wp_seq (wp_handler_verified plan hleft (fun h => hcopy h t hwithin)) (fun _ _ h => h)

theorem verified_publication_first : ∃ t,
    samplePublication.publish (firstPublication []) = .ok () t ∧
      Verified (samplePublication.http ++ [2]) t.now.log ∧
      ∃ a ∈ t.now.log, a.command = .reloadNginx ∧ a.read (samplePublication.http ++ [2]) := by
  have hrun : wp samplePublication.publish (fun _ t => ∃ a ∈ t.now.log,
      a.command = .reloadNginx ∧ a.site.map File.content = some (samplePublication.http ++ [2]))
      (fun _ _ => False) (firstPublication []) := by decide +kernel
  obtain ⟨_,t,hpublish,hread⟩ := ok_of_wp hrun
  have h := verified_publication samplePublication (w := firstPublication []) rfl
    (by decide +kernel)
  exact ⟨t,hpublish,(wp_ok hpublish).mp h,hread⟩

end MaiaMeet
