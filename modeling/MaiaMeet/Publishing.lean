import MaiaMeet.Publisher
set_option autoImplicit false

/-! What a publication leaves behind, whichever of its operations raises. -/

namespace MaiaMeet

open Faults Script Publisher

def Publication.Spared (plan : Publication) (p : Path) : Prop :=
  ∀ status files, plan.certbot status files p = files p

structure Publication.Within (plan : Publication) (hadLink needed : Bool) (v₁ v : Vps) : Prop where
  others : ∀ p, p ≠ sitePath → p ≠ hookPath → (needed → plan.Spared p) → v.files p = v₁.files p
  link : v.link = v₁.link ∨ hadLink = false ∧ v.link = some siteLink

section
variable {plan : Publication} {hadLink needed : Bool} {v₁ v : Vps} {path : Path}

open Publication (Within)

theorem Publication.Within.put (h : plan.Within hadLink needed v₁ v)
    (hpath : path = sitePath ∨ path = hookPath) (file : Option File) :
    plan.Within hadLink needed v₁ (v.put path file) where
  others p hsite hhook hspared := by
    have hne : p ≠ path := by
      rintro rfl
      exact hpath.elim hsite hhook
    exact (Function.update_of_ne hne _ _).trans (h.others p hsite hhook hspared)
  link := h.link

theorem keeps_publish_write (hpath : path = sitePath ∨ path = hookPath) (text : List UInt8) :
    Keeps (fun w => plan.Within hadLink needed v₁ w.now) (writeText path text) := by
  refine keeps_perform (fun k v h => ?_) (fun v h => h.put hpath _)
  cases k with
  | zero => exact h
  | succ k => exact h.put hpath _

theorem keeps_publish_command (c : PublishCommand) :
    Keeps (fun w => plan.Within hadLink needed v₁ w.now) (command c) :=
  keeps_run (fun _ _ h => ⟨h.others,h.link⟩)

theorem keeps_publish_certonly :
    Keeps (fun w => plan.Within hadLink true v₁ w.now) plan.certonly :=
  keeps_run (fun status v h => ⟨fun p hsite hhook hspared =>
    (hspared rfl status v.files).trans (h.others p hsite hhook hspared),h.link⟩)

theorem keeps_publish_reload : Keeps (fun w => plan.Within hadLink needed v₁ w.now) reloadNginx :=
  (keeps_publish_command .nginxTest).bind (fun _ => keeps_publish_command .reloadNginx)

theorem keeps_publish_elsewhere :
    Keeps (fun w => plan.Within hadLink needed v₁ w.now) Publisher.elsewhere :=
  keeps_perform (fun _ _ h => h) (fun _ h => h)

theorem keeps_publish_symlink :
    Keeps (fun w => plan.Within hadLink needed v₁ w.now) (doIf (!hadLink) symlink) := by
  cases hadLink with
  | true => exact keeps_pure
  | false =>
    refine keeps_look.bind (fun v => ?_)
    split
    · exact keeps_throw
    · exact keeps_perform (fun _ _ h => h) (fun _ h => ⟨h.others,.inr ⟨rfl,rfl⟩⟩)

end

namespace Publication

variable (plan : Publication)

theorem spared_own {path : Path} (h : path = sitePath ∨ path = hookPath) : plan.Spared path :=
  fun status files => plan.certbot_apart status files path (h.imp_right .inl)

theorem spared_saved (path : Path) : plan.Spared (plan.saved path) := by
  refine fun status files => plan.certbot_apart status files _ (.inr (.inr ?_))
  exact ⟨[plan.stamp,path.getLastD ""],rfl⟩

theorem keeps_activate (v₁ : Vps) (hadLink needed : Bool) :
    Keeps (fun w => plan.Within hadLink needed v₁ w.now) (plan.activate hadLink needed) := by
  have hsite : sitePath = sitePath ∨ sitePath = hookPath := .inl rfl
  have hobtain : Keeps (fun w => plan.Within hadLink needed v₁ w.now)
      (doIf needed plan.obtainCertificate) := by
    cases needed with
    | false => exact keeps_pure
    | true =>
      refine (keeps_publish_write hsite _).bind (fun _ => ?_)
      exact keeps_publish_reload.bind (fun _ => keeps_publish_certonly)
  refine keeps_publish_elsewhere.bind (fun _ => keeps_publish_elsewhere.bind (fun _ => ?_))
  refine keeps_publish_elsewhere.bind (fun _ => keeps_publish_symlink.bind (fun _ => ?_))
  refine hobtain.bind (fun _ => (keeps_publish_command .checkHost).bind (fun _ => ?_))
  refine (keeps_publish_command .checkEnd).bind (fun _ => ?_)
  refine (keeps_publish_write hsite _).bind (fun _ => keeps_publish_reload.bind (fun _ => ?_))
  refine keeps_publish_elsewhere.bind (fun _ => ?_)
  refine (keeps_publish_write (.inr rfl) _).bind (fun _ => ?_)
  exact keeps_perform (fun _ _ h => h) (fun _ h => h.put (.inr rfl) _)

theorem saved_ne {path p : Path} (hp : ¬plan.backupDir <+: p) : p ≠ plan.saved path := by
  rintro rfl
  exact hp (List.prefix_append _ _)

structure Saved (v : Vps) (path : Path) (existed : Bool) (v' : Vps) : Prop where
  existed : existed = (v.files path).isSome
  others : ∀ p, p ≠ plan.saved path → v'.files p = v.files p
  saved : ∀ file, v.files path = some file → v'.files (plan.saved path) = some file
  grows : ∀ p, (v.files p).isSome → (v'.files p).isSome
  link : v'.link = v.link
  log : v'.log = v.log

theorem wp_copy {w : World PublishError Vps} {src dst : Path} {file : File}
    (hfile : w.now.files src = some file) :
    wp (copy2 src dst) (fun _ t => t.now = w.now.put dst (some file)) (fun _ _ => True) w := by
  unfold copy2
  rw [wp_bind,wp_look,hfile]
  exact Faults.wp_performed (fun _ ht => ht)

theorem wp_save {w : World PublishError Vps} (path : Path) :
    wp (plan.save path) (fun existed t => plan.Saved w.now path existed t.now)
      (fun _ _ => True) w := by
  unfold save
  rw [wp_bind,wp_look]
  cases hfile : w.now.files path with
  | none =>
    refine ⟨by rw [hfile],fun _ _ => rfl,fun file h => ?_,fun _ hp => hp,rfl,rfl⟩
    rw [hfile] at h
    cases h
  | some file =>
    refine wp_seq (wp_copy hfile) (fun _ t ht => ?_)
    rw [wp_pure,ht]
    refine ⟨by rw [hfile],fun p hp => Function.update_of_ne hp _ _,fun file' h => ?_,
      fun p hp => ?_,rfl,rfl⟩
    · rw [← hfile.symm.trans h]
      exact Function.update_self ..
    · rw [Vps.put_files]
      split
      · rfl
      · exact hp

structure BackedUp (v : Vps) (previous : Previous) (v' : Vps) : Prop where
  outside : ∀ p, ¬plan.backupDir <+: p → v'.files p = v.files p
  site : previous.site = (v.files sitePath).isSome
  hook : previous.hook = (v.files hookPath).isSome
  hadLink : previous.hadLink = v.link.isSome
  savedSite : ∀ file, v.files sitePath = some file → v'.files (plan.saved sitePath) = some file
  savedHook : ∀ file, v.files hookPath = some file → v'.files (plan.saved hookPath) = some file
  grows : ∀ p, (v.files p).isSome → (v'.files p).isSome
  link : v'.link = v.link
  log : v'.log = v.log

theorem outside_backup {path : Path} (h : path = sitePath ∨ path = hookPath) :
    ¬plan.backupDir <+: path := by
  rcases h with rfl | rfl <;> simp [backupDir,sitePath,hookPath]

theorem wp_backup {w : World PublishError Vps} :
    wp plan.backup (fun previous t => plan.BackedUp w.now previous t.now) (fun _ _ => True) w := by
  refine wp_seq (Q := fun _ t => t.now = w.now) (Faults.wp_performed (fun _ ht => ht)) ?_
  intro _ t₁ ht₁
  refine wp_seq (plan.wp_save sitePath) (fun site t₂ ht₂ => ?_)
  refine wp_seq (plan.wp_save hookPath) (fun hook t₃ ht₃ => ?_)
  rw [wp_bind,wp_look,wp_pure]
  rw [ht₁] at ht₂
  have hmid : ∀ p, ¬plan.backupDir <+: p → t₂.now.files p = w.now.files p :=
    fun p hp => ht₂.others p (plan.saved_ne hp)
  have hhook := hmid hookPath (plan.outside_backup (.inr rfl))
  have hnames : plan.saved sitePath ≠ plan.saved hookPath := by
    simp [saved,sitePath,hookPath]
  refine ⟨fun p hp => (ht₃.others p (plan.saved_ne hp)).trans (hmid p hp),ht₂.existed,?_,?_,?_,?_,
    fun p hp => ht₃.grows p (ht₂.grows p hp),ht₃.link.trans ht₂.link,ht₃.log.trans ht₂.log⟩
  · rw [ht₃.existed,hhook]
  · rw [ht₃.link,ht₂.link]
  · intro file h
    rw [ht₃.others _ hnames]
    exact ht₂.saved file h
  · intro file h
    exact ht₃.saved file (hhook.trans h)

/-- The outcome of the last reload: it went well, or it or the test before it exited with a
status other than 0. `seen` is the site as nginx would read it. -/
inductive Reloaded (seen : PublishCommand → Nat → Asked) : Option PublishError → List Asked → Prop where
  | done : Reloaded seen none [seen .nginxTest 0,seen .reloadNginx 0]
  | untested (k : Nat) (hk : k ≠ 0) :
      Reloaded seen (some (.CalledProcessError .nginxTest)) [seen .nginxTest k]
  | failed (k : Nat) (hk : k ≠ 0) : Reloaded seen (some (.CalledProcessError .reloadNginx))
      [seen .nginxTest 0,seen .reloadNginx k]

end Publication

def Vps.seen (v : Vps) (c : PublishCommand) (status : Nat) : Asked :=
  ⟨c,status,v.files sitePath,v.link⟩

def Vps.logged (v : Vps) (log : List Asked) : Vps := { v with log := v.log ++ log }

open Publication (Reloaded)

theorem wp_reload {w : World PublishError Vps} (hw : w.Calm) :
    wp reloadNginx (fun _ t => ∃ log, Reloaded w.now.seen none log ∧ t.now = w.now.logged log)
      (fun e t => ∃ log, Reloaded w.now.seen (some e) log ∧ t.now = w.now.logged log) w := by
  refine wp_bind.mpr (wp_mono (wp_run_calm hw) ?_ ?_)
  · rintro _ t ⟨ht,hcalm⟩
    refine wp_mono (wp_run_calm hcalm) ?_ ?_
    · rintro _ u ⟨hu,_⟩
      refine ⟨_,.done,?_⟩
      rw [hu,ht]
      simp [Vps.ask,Vps.logged,Vps.seen]
    · rintro e u ⟨rfl,⟨k,hk,hu⟩,_⟩
      refine ⟨_,.failed k hk,?_⟩
      rw [hu,ht]
      simp [Vps.ask,Vps.logged,Vps.seen]
  · rintro e t ⟨rfl,⟨k,hk,ht⟩,_⟩
    exact ⟨_,.untested k hk,ht⟩

namespace Publication

variable (plan : Publication)

theorem wp_restore {w : World PublishError Vps} (hw : w.Calm) {path : Path}
    {before : Option File} {existed : Bool} (hexisted : existed = before.isSome)
    (hsaved : ∀ file, before = some file → w.now.files (plan.saved path) = some file)
    {E : PublishError → World PublishError Vps → Prop} :
    wp (plan.restore path existed) (fun _ t => t.now = w.now.put path before ∧ t.Calm) E w := by
  unfold restore
  rw [wp_bind,wp_look,hexisted]
  cases before with
  | some file =>
    rw [Option.isSome_some,if_pos rfl]
    unfold copy2
    rw [wp_bind,wp_look,hsaved file rfl]
    exact wp_perform_calm hw
  | none =>
    -- a path that was absent: what is there now goes
    rw [Option.isSome_none,if_neg (by simp),wp_doIf]
    split
    · exact wp_perform_calm hw
    · rename_i hnone
      have hgone : w.now.files path = none := by simpa using hnone
      refine ⟨?_,hw⟩
      rw [Vps.put,← hgone,Function.update_eq_self]

/-- As `v` was, but for the backup and for what certbot has written, which is as the activation
left it. What has been asked since is a reload that read the site as it was. -/
structure Restored (v left : Vps) (outcome : Option PublishError) (t : Vps) : Prop where
  files : ∀ p, ¬plan.backupDir <+: p → (plan.needsCertificate v → plan.Spared p) →
    t.files p = v.files p
  retained : ∀ p, p ≠ sitePath → p ≠ hookPath → t.files p = left.files p
  link : t.link = v.link
  log : ∃ log, t.log = left.log ++ log ∧ Reloaded v.seen outcome log

theorem wp_unlinkSite {w : World PublishError Vps} (hw : w.Calm) {v v₁ : Vps}
    {previous : Previous} {needed : Bool} (hbackup : plan.BackedUp v previous v₁)
    (hwithin : plan.Within previous.hadLink needed v₁ w.now) {E : PublishError → World PublishError Vps → Prop} :
    wp (doIf (!previous.hadLink && w.now.link.isSome) unlinkSite)
      (fun _ t => t.now = w.now.setLink v.link ∧ t.Calm) E w := by
  have hlink := hwithin.link
  rw [hbackup.link,hbackup.hadLink] at hlink
  rw [wp_doIf,hbackup.hadLink]
  cases hv : v.link with
  | some l =>
    rw [hv] at hlink
    obtain hlink := hlink.resolve_right (by simp)
    rw [Option.isSome_some,Bool.not_true,Bool.false_and,if_neg (by simp)]
    exact ⟨by rw [Vps.setLink,← hlink],hw⟩
  | none =>
    rw [Option.isSome_none,Bool.not_false,Bool.true_and]
    split
    · exact wp_perform_calm hw
    · rename_i hnone
      have hgone : w.now.link = none := by simpa using hnone
      exact ⟨by rw [Vps.setLink,← hgone],hw⟩

theorem wp_handler {w : World PublishError Vps} (hw : w.Calm) {v v₁ : Vps} {previous : Previous}
    (hbackup : plan.BackedUp v previous v₁)
    (hwithin : plan.Within previous.hadLink (plan.needsCertificate v) v₁ w.now) :
    wp (plan.handler previous) (fun _ t => plan.Restored v w.now none t.now)
      (fun e t => plan.Restored v w.now (some e) t.now) w := by
  have hunwritten : ∀ path, plan.saved path ≠ sitePath ∧ plan.saved path ≠ hookPath := by
    intro path
    simp [saved,backupDir,sitePath,hookPath]
  unfold handler
  rw [wp_bind,wp_look]
  refine wp_seq (plan.wp_unlinkSite hw hbackup hwithin) ?_
  rintro _ t₁ ⟨ht₁,hcalm₁⟩
  have hsite : ∀ file, v.files sitePath = some file →
      t₁.now.files (plan.saved sitePath) = some file := by
    intro file h
    rw [ht₁]
    exact (hwithin.others _ (hunwritten _).1 (hunwritten _).2
      (fun _ => plan.spared_saved _)).trans (hbackup.savedSite file h)
  refine wp_seq (plan.wp_restore hcalm₁ hbackup.site hsite) ?_
  rintro _ t₂ ⟨ht₂,hcalm₂⟩
  have hhook : ∀ file, v.files hookPath = some file →
      t₂.now.files (plan.saved hookPath) = some file := by
    intro file h
    rw [ht₂,ht₁,Vps.put_files,if_neg (hunwritten _).1]
    exact (hwithin.others _ (hunwritten _).1 (hunwritten _).2
      (fun _ => plan.spared_saved _)).trans (hbackup.savedHook file h)
  refine wp_seq (plan.wp_restore hcalm₂ hbackup.hook hhook) ?_
  rintro _ t₃ ⟨ht₃,hcalm₃⟩
  have hfiles : ∀ p, ¬plan.backupDir <+: p → (plan.needsCertificate v → plan.Spared p) →
      t₃.now.files p = v.files p := by
    intro p hp hspared
    rw [ht₃,ht₂,ht₁,Vps.put_files,Vps.put_files]
    by_cases hphook : p = hookPath
    · rw [if_pos hphook,hphook]
    · rw [if_neg hphook]
      by_cases hpsite : p = sitePath
      · rw [if_pos hpsite,hpsite]
      · rw [if_neg hpsite]
        exact (hwithin.others p hpsite hphook hspared).trans (hbackup.outside p hp)
  have hretained : ∀ p, p ≠ sitePath → p ≠ hookPath → t₃.now.files p = w.now.files p := by
    intro p hpsite hphook
    rw [ht₃,ht₂,ht₁,Vps.put_files,Vps.put_files,if_neg hphook,if_neg hpsite]
    rfl
  have hlink : t₃.now.link = v.link := by simp [ht₃,ht₂,ht₁]
  have hlog : t₃.now.log = w.now.log := by simp [ht₃,ht₂,ht₁]
  have hseen : t₃.now.seen = v.seen := by
    funext c k
    rw [Vps.seen,Vps.seen,hfiles sitePath (plan.outside_backup (.inl rfl))
      (fun _ => plan.spared_own (.inl rfl)),hlink]
  refine wp_mono (wp_reload hcalm₃) ?_ ?_
  · rintro _ u ⟨log,hreloaded,hu⟩
    rw [hu]
    exact ⟨hfiles,hretained,hlink,log,by rw [← hlog]; rfl,hseen ▸ hreloaded⟩
  · rintro e u ⟨log,hreloaded,hu⟩
    rw [hu]
    exact ⟨hfiles,hretained,hlink,log,by rw [← hlog]; rfl,hseen ▸ hreloaded⟩

def Same (v v' : Vps) : Prop := v'.files = v.files ∧ v'.link = v.link

def Managed (v : Vps) : Prop :=
  unmanaged v hookPath hookMarker = false ∧ unmanaged v sitePath marker = false ∧
    v.link ≠ some .foreign

def Obtainable (v : Vps) : Prop := plan.needsCertificate v → plan.obstacle = none

theorem wp_check {w : World PublishError Vps} :
    wp plan.check (fun _ t => (Managed w.now ∧ plan.Obtainable w.now) ∧ Same w.now t.now)
      (fun _ t => Same w.now t.now) w := by
  have hkeeps : Keeps (fun t => Same w.now t.now) (command .nginxTest) := keeps_run (fun _ _ h => h)
  have hrun := hkeeps w ⟨rfl,rfl⟩
  refine wp_seq hrun ?_
  rintro _ t ⟨hfiles,hlink⟩
  rw [wp_bind,wp_look]
  cases plan.inspection with
  | some e => exact ⟨hfiles,hlink⟩
  | none =>
    by_cases hhook : unmanaged t.now hookPath hookMarker
    · rw [if_pos hhook]
      exact ⟨hfiles,hlink⟩
    · rw [if_neg hhook]
      by_cases hsite : unmanaged t.now sitePath marker
      · rw [if_pos hsite]
        exact ⟨hfiles,hlink⟩
      · rw [if_neg hsite]
        by_cases hforeign : t.now.link = some .foreign
        · rw [if_pos hforeign]
          exact ⟨hfiles,hlink⟩
        · rw [if_neg hforeign]
          have hmanaged : Managed w.now := by
            refine ⟨?_,?_,hlink ▸ hforeign⟩
            · rw [unmanaged,← hfiles]
              simpa [unmanaged] using hhook
            · rw [unmanaged,← hfiles]
              simpa [unmanaged] using hsite
          have hsame : plan.needsCertificate t.now = plan.needsCertificate w.now := by
            rw [needsCertificate,needsCertificate,hfiles]
          rw [hsame]
          by_cases hneeded : plan.needsCertificate w.now
          · rw [if_pos hneeded]
            cases hobstacle : plan.obstacle with
            | some e => exact ⟨hfiles,hlink⟩
            | none => exact ⟨⟨hmanaged,fun _ => hobstacle⟩,hfiles,hlink⟩
          · rw [if_neg hneeded]
            exact ⟨⟨hmanaged,fun h => absurd h hneeded⟩,hfiles,hlink⟩

end Publication

open Publication

/-- Wherever the activation raises: every file outside the backup and the link are as they were, but
for what certbot has written, which stays, and the reload that follows read them so. It is that
reload's exception that is raised, if it raises one, and the first one otherwise. -/
theorem failed_publication (plan : Publication) {w w₀ w₁ w₂ : World PublishError Vps}
    {previous : Previous} {e : PublishError} (hcheck : plan.check w = .ok () w₀)
    (hbackup : plan.backup w₀ = .ok previous w₁)
    (hraised : plan.activate previous.hadLink (plan.needsCertificate w₀.now) w₁ = .error e w₂)
    (hcalm : w₂.Calm) :
    ∃ outcome w₃, plan.publish w = .error (outcome.getD e) w₃ ∧
      plan.Restored w.now w₂.now outcome w₃.now := by
  obtain ⟨_,hfiles₀,hlink₀⟩ := (wp_ok hcheck).mp plan.wp_check
  have hsaved := (wp_ok hbackup).mp plan.wp_backup
  have hwithin := (wp_error hraised).mp
    (plan.keeps_activate w₁.now _ _ w₁ ⟨fun _ _ _ _ => rfl,.inl rfl⟩)
  have hhandler := plan.wp_handler hcalm hsaved hwithin
  have hseen : w₀.now.seen = w.now.seen := by
    funext c k
    rw [Vps.seen,Vps.seen,hfiles₀,hlink₀]
  have hneeded : plan.needsCertificate w₀.now = plan.needsCertificate w.now := by
    rw [needsCertificate,needsCertificate,hfiles₀]
  have hback : ∀ {outcome t}, plan.Restored w₀.now w₂.now outcome t →
      plan.Restored w.now w₂.now outcome t :=
    fun h => ⟨hneeded ▸ hfiles₀ ▸ h.files,h.retained,hlink₀ ▸ h.link,hseen ▸ h.log⟩
  have hpublish : plan.publish w = (do plan.handler previous; throw e : Publisher Unit) w₂ := by
    rw [publish,bind_of_ok hcheck]
    change (plan.backup >>= _) w₀ = _
    rw [bind_of_ok hbackup,tryCatch_of_error hraised]
  cases hend : plan.handler previous w₂ with
  | ok a w₃ =>
    refine ⟨none,w₃,?_,hback ((wp_ok hend).mp hhandler)⟩
    rw [hpublish,bind_of_ok hend]
    rfl
  | error e' w₃ =>
    refine ⟨some e',w₃,?_,hback ((wp_error hend).mp hhandler)⟩
    rw [hpublish,bind_of_error hend]
    rfl

def sampleCert : Path := ["etc","letsencrypt","live","fullchain.pem"]
def sampleKey : Path := ["etc","letsencrypt","live","privkey.pem"]

/-- Certificate and key are written if the status is 0. -/
def sampleCertbot (status : Nat) (files : Path → Option File) (p : Path) : Option File :=
  if status = 0 ∧ (p = sampleCert ∨ p = sampleKey) then some ⟨[3],0o600⟩ else files p

theorem sampleCertbot_apart (status : Nat) (files : Path → Option File) (p : Path)
    (h : p = sitePath ∨ p = hookPath ∨ ["var","backups","maia-meet-vps"] <+: p) :
    sampleCertbot status files p = files p := by
  refine if_neg (fun hp => ?_)
  have hkept : ∀ q, q = sampleCert ∨ q = sampleKey → ¬(q = sitePath ∨ q = hookPath ∨
      ["var","backups","maia-meet-vps"] <+: q) := by
    rintro q (rfl | rfl) <;> decide
  exact hkept p hp.2 h

theorem sampleCertbot_issues (files : Path → Option File) :
    (sampleCertbot 0 files sampleCert).isSome ∧ (sampleCertbot 0 files sampleKey).isSome :=
  ⟨by simp [sampleCertbot],by simp [sampleCertbot]⟩

theorem sampleHttps_ne_nil : ([2] : List UInt8) ≠ [] := by simp

def samplePublication : Publication where
  server := [1]
  https := [2]
  cert := sampleCert
  key := sampleKey
  stamp := "1"
  inspection := none
  obstacle := none
  certbot := sampleCertbot
  https_ne_nil := sampleHttps_ne_nil
  certbot_apart := sampleCertbot_apart
  certbot_issues := fun _ => sampleCertbot_issues

def publishedBefore (site : List UInt8) (tape : List (Faults.Answer PublishError)) :
    World PublishError Vps where
  now := {
    files := fun p => if p = sitePath then some ⟨site,0o644⟩
      else if p = samplePublication.cert ∨ p = samplePublication.key then some ⟨[3],0o600⟩ else none
    link := some siteLink
    log := []
    creationMode := 0o644 }
  tape := tape

def firstPublication (tape : List (Faults.Answer PublishError)) : World PublishError Vps where
  now := { files := fun _ => none, link := none, log := [], creationMode := 0o644 }
  tape := tape

/-- certbot has issued the certificate, and `openssl` says that it is for another host. -/
def otherHost : World PublishError Vps :=
  firstPublication (List.replicate 10 ⟨none,0⟩ ++ [⟨none,1⟩])

/-- Site and link are gone again, and the certificate is there. -/
theorem failed_publication_host : ∃ outcome, ∃ w₂ w₃ : World PublishError Vps,
    samplePublication.publish otherHost =
        .error (Option.getD outcome (.CalledProcessError .checkHost)) w₃ ∧
      samplePublication.Restored otherHost.now w₂.now outcome w₃.now ∧
      (w₂.now.files sampleCert).isSome := by
  have hrun : wp samplePublication.check (fun _ w₀ => wp samplePublication.backup
      (fun previous w₁ => wp (samplePublication.activate previous.hadLink
          (samplePublication.needsCertificate w₀.now)) (fun _ _ => False)
        (fun e w₂ => (e = .CalledProcessError .checkHost ∧ (w₂.now.files sampleCert).isSome) ∧
          ∀ a ∈ w₂.tape, a.raised = none) w₁)
      (fun _ _ => False) w₀) (fun _ _ => False) otherHost := by decide +kernel
  obtain ⟨_,w₀,hcheck,hrun⟩ := ok_of_wp hrun
  obtain ⟨previous,w₁,hbackup,hrun⟩ := ok_of_wp hrun
  obtain ⟨e,w₂,hraised,⟨he,hcert⟩,hcalm⟩ := error_of_wp hrun
  subst he
  obtain ⟨outcome,w₃,hpublish,hrestored⟩ :=
    failed_publication samplePublication hcheck hbackup hraised hcalm
  exact ⟨outcome,w₂,w₃,hpublish,hrestored,hcert⟩

/-- What is not the script's own it neither overwrites nor replaces, whatever happens. -/
theorem publish_refuses (plan : Publication) {w : World PublishError Vps} (h : ¬Managed w.now) :
    ∃ e t, plan.publish w = .error e t ∧ Same w.now t.now := by
  have hcheck := plan.wp_check (w := w)
  cases hrun : plan.check w with
  | ok a t => exact absurd ((wp_ok hrun).mp hcheck).1.1 h
  | error e t =>
    exact ⟨e,t,bind_of_error hrun,(wp_error hrun).mp hcheck⟩

theorem publish_refuses_unmarked : ∃ e t,
    samplePublication.publish (publishedBefore [7] []) = .error e t ∧
      Same (publishedBefore [7] []).now t.now :=
  publish_refuses samplePublication (fun h => absurd h.2.1 (by decide +kernel))

def Linked (v : Vps) : Prop := ∃ target, v.link = some (.linked target)

def SiteReady (plan : Publication) (v : Vps) : Prop :=
  Linked v ∧ (v.files sitePath).map File.content = some (plan.http ++ plan.https)

theorem write_content (v : Vps) (path : Path) (content : List UInt8) :
    ((v.write path content).files path).map File.content = some content := by
  rw [Vps.write,Vps.put_files,if_pos rfl]
  rfl

theorem keeps_ready (plan : Publication) : Keeps (fun w => SiteReady plan w.now) reloadNginx := by
  have hcommand : ∀ c, Keeps (fun w => SiteReady plan w.now) (command c) :=
    fun c => keeps_run (fun _ _ h => h)
  exact (hcommand .nginxTest).bind (fun _ => hcommand .reloadNginx)

theorem wp_ready (plan : Publication) {w : World PublishError Vps} (h : Linked w.now) :
    wp (do
        writeText sitePath (plan.http ++ plan.https)
        reloadNginx
        elsewhere
        writeText hookPath renewalHook
        Publisher.chmod hookPath 0o755)
      (fun _ t => SiteReady plan t.now ∧ t.now.files hookPath = some ⟨renewalHook,0o755⟩)
      (fun _ _ => True) w := by
  have hne : sitePath ≠ hookPath := by decide
  refine wp_seq (Q := fun _ t => SiteReady plan t.now) (Faults.wp_performed (fun t ht => ?_)) ?_
  · rw [ht]
    exact ⟨h,write_content _ _ _⟩
  intro _ t₁ ht₁
  refine wp_seq ((keeps_ready plan).wp ht₁) (fun _ t₂ ht₂ => ?_)
  have helsewhere : Keeps (fun w => SiteReady plan w.now) elsewhere :=
    keeps_perform (fun _ _ h => h) (fun _ h => h)
  refine wp_seq (helsewhere.wp ht₂) (fun _ t₃ ht₃ => ?_)
  refine wp_seq (Q := fun _ t => SiteReady plan t.now ∧
    (t.now.files hookPath).map File.content = some renewalHook)
    (Faults.wp_performed (fun t ht => ?_)) ?_
  · rw [ht]
    refine ⟨⟨ht₃.1,?_⟩,write_content _ _ _⟩
    rw [Vps.write,Vps.put_files,if_neg hne]
    exact ht₃.2
  · rintro _ t₄ ⟨ht₄,hhook⟩
    refine Faults.wp_performed (fun t ht => ?_)
    rw [ht]
    refine ⟨⟨ht₄.1,?_⟩,?_⟩
    · rw [Vps.chmod,Vps.put_files,if_neg hne]
      exact ht₄.2
    · obtain ⟨file,hfile,hcontent⟩ := Option.map_eq_some_iff.mp hhook
      rw [Vps.chmod,Vps.put_files,if_pos rfl,hfile,← hcontent]
      rfl

theorem keeps_linked_command (c : PublishCommand) :
    Keeps (fun w => Linked w.now) (command c) := keeps_run (fun _ _ h => h)

theorem keeps_linked_obtain (plan : Publication) :
    Keeps (fun w => Linked w.now) plan.obtainCertificate := by
  have hwrite : Keeps (fun w => Linked w.now) (writeText sitePath plan.http) := by
    refine keeps_perform (fun k v h => ?_) (fun _ h => h)
    cases k with
    | zero => exact h
    | succ k => exact h
  have hcertonly : Keeps (fun w => Linked w.now) plan.certonly := keeps_run (fun _ _ h => h)
  refine hwrite.bind (fun _ => Keeps.bind ?_ (fun _ => hcertonly))
  exact (keeps_linked_command .nginxTest).bind (fun _ => keeps_linked_command .reloadNginx)

theorem wp_symlink {w : World PublishError Vps} {hadLink : Bool} (hadlink : hadLink = w.now.link.isSome)
    (h : w.now.link ≠ some .foreign) :
    wp (doIf (!hadLink) symlink) (fun _ t => Linked t.now) (fun _ _ => True) w := by
  subst hadlink
  rw [wp_doIf]
  cases hlink : w.now.link with
  | some l =>
    cases l with
    | linked target => exact ⟨target,hlink⟩
    | foreign => exact absurd hlink h
  | none =>
    rw [Option.isSome_none,Bool.not_false,if_pos rfl]
    unfold symlink
    rw [wp_bind,wp_look,hlink]
    exact Faults.wp_performed (fun t ht => ⟨_,by rw [ht]; rfl⟩)

theorem wp_activate (plan : Publication) {w : World PublishError Vps} {hadLink : Bool}
    (hadlink : hadLink = w.now.link.isSome) (h : w.now.link ≠ some .foreign) (needed : Bool) :
    wp (plan.activate hadLink needed)
      (fun _ t => SiteReady plan t.now ∧ t.now.files hookPath = some ⟨renewalHook,0o755⟩)
      (fun _ _ => True) w := by
  have helsewhere : ∀ {v : World PublishError Vps},
      wp elsewhere (fun _ t => t.now = v.now) (fun _ _ => True) v :=
    Faults.wp_performed (fun _ ht => ht)
  refine wp_seq helsewhere (fun _ t₁ ht₁ => wp_seq helsewhere (fun _ t₂ ht₂ => ?_))
  refine wp_seq helsewhere (fun _ t₃ ht₃ => ?_)
  have hsame : t₃.now = w.now := ht₃.trans (ht₂.trans ht₁)
  rw [← hsame] at hadlink h
  refine wp_seq (wp_symlink hadlink h) (fun _ t₄ ht₄ => ?_)
  refine wp_seq (((keeps_linked_obtain plan).doIf needed).wp ht₄) (fun _ t₅ ht₅ => ?_)
  refine wp_seq ((keeps_linked_command .checkHost).wp ht₅) (fun _ t₆ ht₆ => ?_)
  exact wp_seq ((keeps_linked_command .checkEnd).wp ht₆) (fun _ t₇ ht₇ => wp_ready plan ht₇)

theorem hook_marked : hookMarker <:+: renewalHook := by decide +kernel

theorem managed_ready {plan : Publication} {v : Vps} (h : SiteReady plan v)
    (hhook : v.files hookPath = some ⟨renewalHook,0o755⟩) : Managed v := by
  obtain ⟨⟨target,hlink⟩,hsite⟩ := h
  obtain ⟨file,hfile,hcontent⟩ := Option.map_eq_some_iff.mp hsite
  have hmarked : marker <:+: file.content := by
    rw [hcontent,http,List.append_assoc]
    exact (List.prefix_append _ _).isInfix
  refine ⟨?_,?_,by simp [hlink]⟩
  · simp [unmanaged,hhook,hook_marked]
  · simp [unmanaged,hfile,hmarked]

def Certified (plan : Publication) (v : Vps) : Prop := plan.needsCertificate v = false

theorem certified_iff {plan : Publication} {v : Vps} :
    Certified plan v ↔ (v.files plan.cert).isSome ∧ (v.files plan.key).isSome := by
  simp [Certified,needsCertificate,Option.isSome_iff_ne_none]

section
variable {plan : Publication} {v : Vps}

theorem Certified.put (h : Certified plan v) (path : Path) {file : Option File}
    (hfile : (v.files path).isSome → file.isSome) : Certified plan (v.put path file) := by
  have hput : ∀ p, (v.files p).isSome → ((v.put path file).files p).isSome := by
    intro p hp
    rw [Vps.put_files]
    split
    · rename_i hpath
      exact hfile (hpath ▸ hp)
    · exact hp
  obtain ⟨hcert,hkey⟩ := certified_iff.mp h
  exact certified_iff.mpr ⟨hput _ hcert,hput _ hkey⟩

theorem keeps_certified_write (path : Path) (text : List UInt8) :
    Keeps (fun w => Certified plan w.now) (writeText path text) := by
  refine keeps_perform (fun k v h => ?_) (fun v h => h.put path (fun _ => rfl))
  cases k with
  | zero => exact h
  | succ k => exact h.put path (fun _ => rfl)

theorem keeps_certified_command (c : PublishCommand) :
    Keeps (fun w => Certified plan w.now) (command c) := keeps_run (fun _ _ h => h)

theorem keeps_certified_reload : Keeps (fun w => Certified plan w.now) reloadNginx :=
  (keeps_certified_command .nginxTest).bind (fun _ => keeps_certified_command .reloadNginx)

theorem keeps_certified_elsewhere : Keeps (fun w => Certified plan w.now) Publisher.elsewhere :=
  keeps_perform (fun _ _ h => h) (fun _ h => h)

theorem wp_certified {w : World PublishError Vps} {needed : Bool}
    (hthere : needed = false → Certified plan w.now) (hobtain : needed → plan.obstacle = none) :
    wp (doIf needed plan.obtainCertificate) (fun _ t => Certified plan t.now)
      (fun _ _ => True) w := by
  rw [wp_doIf]
  cases needed with
  | false => exact hthere rfl
  | true =>
    refine wp_seq wp_true (fun _ t₁ _ => wp_seq wp_true (fun _ t₂ _ => ?_))
    refine wp_mono wp_run (fun _ t ht => ?_) (fun _ _ _ => trivial)
    rw [ht.1]
    exact certified_iff.mpr (plan.certbot_issues (hobtain rfl) _)

theorem wp_activate_certified {w : World PublishError Vps} {hadLink needed : Bool}
    (hthere : needed = false → Certified plan w.now) (hobtain : needed → plan.obstacle = none) :
    wp (plan.activate hadLink needed) (fun _ t => Certified plan t.now) (fun _ _ => True) w := by
  have helsewhere : Keeps (fun w => needed = false → Certified plan w.now) Publisher.elsewhere :=
    keeps_perform (I := fun v => needed = false → Certified plan v) (fun _ _ h => h) (fun _ h => h)
  have hlink : Keeps (fun w => needed = false → Certified plan w.now)
      (doIf (!hadLink) symlink) := by
    refine Keeps.doIf ?_ _
    refine (keeps_look (I := fun v => needed = false → Certified plan v)).bind (fun v => ?_)
    split
    · exact keeps_throw
    · exact keeps_perform (I := fun v => needed = false → Certified plan v) (fun _ _ h => h)
        (fun _ h => h)
  refine wp_seq (helsewhere.wp hthere) (fun _ t₁ ht₁ => wp_seq (helsewhere.wp ht₁) ?_)
  refine fun _ t₂ ht₂ => wp_seq (helsewhere.wp ht₂) (fun _ t₃ ht₃ => ?_)
  refine wp_seq (hlink.wp ht₃) (fun _ t₄ ht₄ => wp_seq (wp_certified ht₄ hobtain) ?_)
  intro _ t₅ ht₅
  have hchmod : Keeps (fun w => Certified plan w.now) (Publisher.chmod hookPath 0o755) :=
    keeps_perform (fun _ _ h => h) (fun v h => h.put hookPath (fun hp => by simpa using hp))
  have hhook := keeps_certified_elsewhere.bind (fun _ =>
    (keeps_certified_write hookPath renewalHook).bind (fun _ => hchmod))
  have hsite := (keeps_certified_write sitePath (plan.http ++ plan.https)).bind
    (fun _ => keeps_certified_reload.bind (fun _ => hhook))
  have hrest := (keeps_certified_command .checkHost).bind (fun _ =>
    (keeps_certified_command .checkEnd).bind (fun _ => hsite))
  exact hrest.wp ht₅

end

/-- What a publication leaves that has gone through: the site under its link and the hook, both
the script's own, the certificate, and outside the backup every other file as it was, but for
those that certbot writes if there was no certificate. -/
theorem published (plan : Publication) {w t : World PublishError Vps}
    (h : plan.publish w = .ok () t) :
    SiteReady plan t.now ∧ t.now.files hookPath = some ⟨renewalHook,0o755⟩ ∧ Managed t.now ∧
      Certified plan t.now ∧
      ∀ p, ¬plan.backupDir <+: p → p ≠ sitePath → p ≠ hookPath →
        (plan.needsCertificate w.now → plan.Spared p) → t.now.files p = w.now.files p := by
  have hrun : wp plan.publish (fun _ t =>
      (SiteReady plan t.now ∧ t.now.files hookPath = some ⟨renewalHook,0o755⟩) ∧
        Certified plan t.now ∧
        ∀ p, ¬plan.backupDir <+: p → p ≠ sitePath → p ≠ hookPath →
          (plan.needsCertificate w.now → plan.Spared p) → t.now.files p = w.now.files p)
      (fun _ _ => True) w := by
    refine wp_seq (wp_mono plan.wp_check (fun _ _ hc => hc) (fun _ _ _ => trivial)) ?_
    rintro _ w₀ ⟨⟨⟨_,_,hforeign⟩,hobtain⟩,hfiles₀,hlink₀⟩
    have hneeded : plan.needsCertificate w₀.now = plan.needsCertificate w.now := by
      rw [needsCertificate,needsCertificate,hfiles₀]
    rw [wp_bind,wp_look,hneeded]
    refine wp_seq plan.wp_backup (fun previous w₁ hsaved => ?_)
    rw [wp_tryCatch]
    have hadlink : previous.hadLink = w₁.now.link.isSome := by rw [hsaved.hadLink,hsaved.link]
    have hown : w₁.now.link ≠ some .foreign := by rwa [hsaved.link,hlink₀]
    have hthere : plan.needsCertificate w.now = false → Certified plan w₁.now := by
      intro hno
      obtain ⟨hcert,hkey⟩ := certified_iff.mp (hneeded.trans hno)
      exact certified_iff.mpr ⟨hsaved.grows _ hcert,hsaved.grows _ hkey⟩
    refine wp_mono (wp_and (wp_activate plan hadlink hown (plan.needsCertificate w.now))
      (wp_and (wp_activate_certified hthere hobtain)
        (plan.keeps_activate w₁.now _ _ w₁ ⟨fun _ _ _ _ => rfl,.inl rfl⟩))) ?_ ?_
    · rintro _ u ⟨hready,hcertified,hwithin⟩
      refine ⟨hready,hcertified,fun p hp hsite hhook hspared => ?_⟩
      rw [hwithin.others p hsite hhook hspared,hsaved.outside p hp,hfiles₀]
    · intro e u _
      exact wp_seq wp_true (fun _ _ _ => trivial)
  obtain ⟨⟨hready,hhook⟩,hcertified,hothers⟩ := (wp_ok h).mp hrun
  exact ⟨hready,hhook,managed_ready hready hhook,hcertified,hothers⟩

theorem published_first : ∃ t,
    samplePublication.publish (firstPublication []) = .ok () t ∧
      SiteReady samplePublication t.now ∧ Certified samplePublication t.now ∧
      t.now.files hookPath = some ⟨renewalHook,0o755⟩ := by
  have hrun : wp samplePublication.publish (fun _ _ => True) (fun _ _ => False)
      (firstPublication []) := by decide +kernel
  obtain ⟨_,t,hpublish,_⟩ := ok_of_wp hrun
  have h := published samplePublication hpublish
  exact ⟨t,hpublish,h.1,h.2.2.2.1,h.2.1⟩

end MaiaMeet
